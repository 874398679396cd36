import Quorate.Json.Fault

/-! The texts that are JSON, described by how they are put together and not by how they are read.
A string has many spellings, blanks may stand between any two parts, and an object is known by its
members in order, each a name and the text of its value. -/

set_option autoImplicit false

namespace Quorate.Json

/-- Blanks, or nothing. -/
def Blank (cs : List Char) : Prop := ∀ c ∈ cs, c = ' ' ∨ c = '\n' ∨ c = '\t' ∨ c = '\r'

theorem blank_nil : Blank [] := nofun

def Digit (c : Char) : Prop := '0' ≤ c ∧ c ≤ '9'

instance (c : Char) : Decidable (Digit c) := inferInstanceAs (Decidable (_ ∧ _))

/-- One digit or more. -/
def Digits (cs : List Char) : Prop := cs ≠ [] ∧ ∀ c ∈ cs, Digit c

/-- The digits before a point. Only zero starts with a zero. -/
inductive Whole : List Char → Prop where
  | zero : Whole ['0']
  | digits {c : Char} {ds : List Char} : Digit c → c ≠ '0' → (∀ d ∈ ds, Digit d) → Whole (c :: ds)

inductive Fraction : List Char → Prop where
  | absent : Fraction []
  | point {ds : List Char} : Digits ds → Fraction ('.' :: ds)

inductive Exponent : List Char → Prop where
  | absent : Exponent []
  | mark {e : Char} {sign ds : List Char} : e = 'e' ∨ e = 'E' →
      sign = [] ∨ sign = ['+'] ∨ sign = ['-'] → Digits ds → Exponent (e :: (sign ++ ds))

inductive Numeral : List Char → Prop where
  | mk {sign whole fraction exponent : List Char} : sign = [] ∨ sign = ['-'] → Whole whole →
      Fraction fraction → Exponent exponent → Numeral (sign ++ (whole ++ (fraction ++ exponent)))

/-- A digit in base sixteen, in either case. -/
def HexDigit (n : Nat) (c : Char) : Prop :=
  "0123456789abcdef".toList[n]? = some c ∨ "0123456789ABCDEF".toList[n]? = some c

/-- Four digits in base sixteen. -/
inductive CodeUnit : Nat → List Char → Prop where
  | mk {i j k l : Nat} {a b c d : Char} : HexDigit i a → HexDigit j b → HexDigit k c →
      HexDigit l d → CodeUnit (((i * 16 + j) * 16 + k) * 16 + l) [a, b, c, d]

/-- The letters after a backslash that stand for one character. -/
def shortEscapes : List (Char × Char) :=
  [('"', '"'), ('\\', '\\'), ('/', '/'), ('b', '\x08'), ('f', '\x0c'), ('n', '\n'), ('r', '\r'),
    ('t', '\t')]

/-- A character that needs no escape. -/
def Plain (c : Char) : Prop := c ≠ '"' ∧ c ≠ '\\' ∧ ' ' ≤ c

/-- How the characters of a string are spelled between its quotes. A character beyond the first
65536 is escaped as a pair of surrogates. -/
inductive Spells : List Char → List Char → Prop where
  | nil : Spells [] []
  | plain {c : Char} {s cs : List Char} : Plain c → Spells s cs → Spells (c :: s) (c :: cs)
  | short {letter c : Char} {s cs : List Char} : (letter, c) ∈ shortEscapes → Spells s cs →
      Spells (c :: s) ('\\' :: letter :: cs)
  | unit {n : Nat} {unit s cs : List Char} : CodeUnit n unit → n < 0xd800 ∨ 0xdfff < n →
      Spells s cs → Spells (Char.ofNat n :: s) ('\\' :: 'u' :: (unit ++ cs))
  | pair {m n : Nat} {leading trailing s cs : List Char} : CodeUnit m leading → CodeUnit n trailing →
      0xd800 ≤ m ∧ m ≤ 0xdbff → 0xdc00 ≤ n ∧ n ≤ 0xdfff → Spells s cs →
      Spells (Char.ofNat ((m - 0xd800) * 0x400 + (n - 0xdc00) + 0x10000) :: s)
        ('\\' :: 'u' :: (leading ++ '\\' :: 'u' :: (trailing ++ cs)))

/-- What may stand between the quotes of a string. An escape of four digits may be any. -/
inductive Content : List Char → Prop where
  | nil : Content []
  | plain {c : Char} {cs : List Char} : Plain c → Content cs → Content (c :: cs)
  | short {letter c : Char} {cs : List Char} : (letter, c) ∈ shortEscapes → Content cs →
      Content ('\\' :: letter :: cs)
  | unit {n : Nat} {unit cs : List Char} : CodeUnit n unit → Content cs →
      Content ('\\' :: 'u' :: (unit ++ cs))

theorem Spells.content {s cs : List Char} (spells : Spells s cs) : Content cs := by
  induction spells with
  | nil => exact .nil
  | plain plain _ ih => exact .plain plain ih
  | short short _ ih => exact .short short ih
  | unit unit _ _ ih => exact .unit unit ih
  | pair leading trailing _ _ _ ih => exact .unit leading (.unit trailing ih)

/-- A member of an object, with the content of its name and the text of its value. -/
inductive Member (name value : List Char) : List Char → Prop where
  | mk {before inner after behind : List Char} : Blank before → Blank inner → Blank after →
      Blank behind → Member name value
        (before ++ '"' :: (name ++ '"' :: (inner ++ ':' :: (after ++ (value ++ behind)))))

inductive Piece where
  | value
  /-- What stands in a list that is not empty. -/
  | items
  /-- What stands in an object that is not empty. -/
  | members

def words : List (List Char) := ["null".toList, "true".toList, "false".toList]

/-- The texts of JSON, without blanks around values. -/
inductive Written : Piece → List Char → Prop where
  | word {cs : List Char} : cs ∈ words → Written .value cs
  | number {cs : List Char} : Numeral cs → Written .value cs
  | string {cs : List Char} : Content cs → Written .value ('"' :: (cs ++ ['"']))
  | emptyList {cs : List Char} : Blank cs → Written .value ('[' :: (cs ++ [']']))
  | list {cs : List Char} : Written .items cs → Written .value ('[' :: (cs ++ [']']))
  | emptyObject {cs : List Char} : Blank cs → Written .value ('\x7b' :: (cs ++ ['\x7d']))
  | object {cs : List Char} : Written .members cs → Written .value ('\x7b' :: (cs ++ ['\x7d']))
  | item {before value behind : List Char} : Blank before → Written .value value → Blank behind →
      Written .items (before ++ (value ++ behind))
  | nextItem {before value behind cs : List Char} : Blank before → Written .value value →
      Blank behind → Written .items cs → Written .items (before ++ (value ++ (behind ++ ',' :: cs)))
  | member {name value cs : List Char} : Content name → Written .value value →
      Member name value cs → Written .members cs
  | nextMember {name value cs rest : List Char} : Content name → Written .value value →
      Member name value cs → Written .members rest → Written .members (cs ++ ',' :: rest)

/-- The members of an object in order: their names, and the texts of their values. -/
inductive Members : List (String × List Char) → List Char → Prop where
  | last {name : String} {spelling value cs : List Char} : Spells name.toList spelling →
      Member spelling value cs → Members [(name, value)] cs
  | more {name : String} {spelling value cs rest : List Char}
      {members : List (String × List Char)} : Spells name.toList spelling →
      Member spelling value cs → Members members rest →
      Members ((name, value) :: members) (cs ++ ',' :: rest)

/-- An object with the given members. -/
inductive Object : List (String × List Char) → List Char → Prop where
  | empty {cs : List Char} : Blank cs → Object [] ('\x7b' :: (cs ++ ['\x7d']))
  | members {members : List (String × List Char)} {cs : List Char} : Members members cs →
      Object members ('\x7b' :: (cs ++ ['\x7d']))

/-- A string, known by its characters. -/
inductive Quotes (s : String) : List Char → Prop where
  | mk {cs : List Char} : Spells s.toList cs → Quotes s ('"' :: (cs ++ ['"']))

/-- A whole number that is not negative. -/
def Decimal (n : Nat) (cs : List Char) : Prop := cs = Nat.toDigits 10 n

/-- A field of a record: whether it may be left out, and the texts that its value can have. -/
structure Field where
  name : String
  Needed : Prop
  Holds : List Char → Prop

/-- Members that carry the fields of a record, in any order and among others of any kind. -/
structure Carries (fields : List Field) (members : List (String × List Char)) : Prop where
  held : ∀ f ∈ fields, ∀ value, (f.name, value) ∈ members → f.Holds value
  needed : ∀ f ∈ fields, f.Needed → f.name ∈ members.map Prod.fst
  once : ∀ f ∈ fields, (members.map Prod.fst).count f.name ≤ 1
  other : ∀ member ∈ members, (∀ f ∈ fields, member.1 ≠ f.name) → Written .value member.2

end Quorate.Json
