import Mathlib.Tactic.IntervalCases
import Quorate.Error
import Quorate.Proofs.Json.Grammar

/-! What is written is JSON: a quoted text spells its characters, and an object has the members it
was written with. -/

set_option autoImplicit false

namespace Quorate.Json

theorem hexDigit_digit (n : Nat) : HexDigit (n % 16) (hexDigit n) := by
  have small : n % 16 < 16 := Nat.mod_lt n (by decide)
  unfold hexDigit
  generalize n % 16 = digit at small ⊢
  left
  interval_cases digit <;> rfl

/-- A control character as an escape of four digits. -/
theorem CodeUnit.control {c : Char} (control : c.toNat < 0x20) :
    CodeUnit c.toNat ['0', '0', hexDigit (c.toNat / 16), hexDigit c.toNat] := by
  have unit := CodeUnit.mk (hexDigit_digit 0) (hexDigit_digit 0) (hexDigit_digit (c.toNat / 16))
    (hexDigit_digit c.toNat)
  have value : ((0 % 16 * 16 + 0 % 16) * 16 + c.toNat / 16 % 16) * 16 + c.toNat % 16 = c.toNat := by
    omega
  rwa [value] at unit

theorem Spells.escape {s cs : List Char} (c : Char) (spells : Spells s cs) :
    Spells (c :: s) (Json.escape c ++ cs) := by
  unfold Json.escape
  split_ifs with quote backslash backspace tab newline feed ret control
  · subst quote; exact .short (by decide) spells
  · subst backslash; exact .short (by decide) spells
  · subst backspace; exact .short (by decide) spells
  · subst tab; exact .short (by decide) spells
  · subst newline; exact .short (by decide) spells
  · subst feed; exact .short (by decide) spells
  · subst ret; exact .short (by decide) spells
  · have unit := Spells.unit (.control control) (.inl (by omega)) spells
    rwa [Char.ofNat_toNat] at unit
  · refine .plain ⟨quote, backslash, ?_⟩ spells
    rw [Char.le_def, UInt32.le_iff_toNat_le]
    simpa using control

theorem spells_flatMap (s : List Char) : Spells s (s.flatMap escape) := by
  induction s with
  | nil => exact .nil
  | cons c s ih => exact ih.escape c

theorem toList_quoted (s : String) :
    (quoted s).toList = '"' :: (s.toList.flatMap escape ++ ['"']) := by
  simp [quoted]

theorem quotes_quoted (s : String) : Quotes s (quoted s).toList := by
  rw [toList_quoted]
  exact ⟨spells_flatMap s.toList⟩

theorem member_quoted (name value : String) :
    Member (name.toList.flatMap escape) value.toList (quoted name ++ ":" ++ value).toList := by
  have member : Member (name.toList.flatMap escape) value.toList _ :=
    .mk blank_nil blank_nil blank_nil blank_nil
  simpa [toList_quoted] using member

/-- The names of members, and the characters of their values. -/
def listed (members : List (String × String)) : List (String × List Char) :=
  members.map fun (name, value) => (name, value.toList)

theorem members_intercalate (member : String × String) (members : List (String × String)) :
    Members (listed (member :: members)) (",".intercalate
      ((member :: members).map fun (name, value) => quoted name ++ ":" ++ value)).toList := by
  induction members generalizing member with
  | nil => simpa [listed] using Members.last (spells_flatMap _) (member_quoted member.1 member.2)
  | cons next members ih =>
    have more := Members.more (spells_flatMap _) (member_quoted member.1 member.2) (ih next)
    rw [List.map_cons, List.map_cons, String.intercalate_cons_cons]
    simpa [listed] using more

theorem object_jsonObject (members : List (String × String)) :
    Object (listed members) (Error.jsonObject members).toList := by
  cases members with
  | nil => exact .empty blank_nil
  | cons member members =>
    have object := Object.members (members_intercalate member members)
    simpa [Error.jsonObject] using object

end Quorate.Json
