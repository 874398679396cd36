import Mathlib.Data.List.TakeDrop
import Mathlib.Tactic.IntervalCases
import Quorate.Json.Skip
import Quorate.Proofs.Json.Grammar

/-! Skipping a value takes exactly its text, whatever the value is. The skipping loop keeps its open
brackets on a stack, so what it does with the text of a value is stated for any brackets around. -/

set_option autoImplicit false

namespace Quorate.Json

/-- A text that does not go on with a value that ended before it. -/
def Delimited (rest : List Char) : Prop :=
  ∀ c ∈ rest.head?, c = ',' ∨ c = ']' ∨ c = '\x7d' ∨ isBlank c = true

theorem isBlank_iff (c : Char) :
    isBlank c = true ↔ c = ' ' ∨ c = '\n' ∨ c = '\t' ∨ c = '\r' := by
  simp [isBlank, or_assoc]

theorem Blank.all {b : List Char} (blank : Blank b) : ∀ c ∈ b, isBlank c = true := by
  intro c member
  exact (isBlank_iff c).mpr (blank c member)

theorem skipBlank_append {b : List Char} (blank : Blank b) (cs : List Char) :
    skipBlank (b ++ cs) = skipBlank cs :=
  List.dropWhile_append_of_pos blank.all

theorem skipBlank_cons {c : Char} (seen : isBlank c = false) (cs : List Char) :
    skipBlank (c :: cs) = c :: cs := by
  simp [skipBlank, seen]

theorem delimited_nil : Delimited [] := nofun

theorem delimited_cons {c : Char} (ends : c = ',' ∨ c = ']' ∨ c = '\x7d') (cs : List Char) :
    Delimited (c :: cs) := by
  intro c' first
  cases first
  rcases ends with rfl | rfl | rfl <;> simp

/-- Blanks delimit a value, and so does what is behind them. -/
theorem Delimited.blank {b cs : List Char} (delimited : Delimited cs) (blank : Blank b) :
    Delimited (b ++ cs) := by
  cases b with
  | nil => exact delimited
  | cons c b =>
    intro c' first
    cases first
    exact .inr (.inr (.inr (blank.all c List.mem_cons_self)))

section

variable {ds exponent rest : List Char}

theorem isDigit_iff (c : Char) : isDigit c = true ↔ Digit c := by
  unfold isDigit digit? Digit
  split <;> simp_all

/-- A text that does not start with a digit. -/
def Undigited (rest : List Char) : Prop := ∀ c ∈ rest.head?, isDigit c = false

theorem digits_append (all : ∀ c ∈ ds, Digit c) (stops : Undigited rest) :
    digits (ds ++ rest) = (ds, rest) := by
  have all : ∀ c ∈ ds, isDigit c = true := fun c member => (isDigit_iff c).mpr (all c member)
  have none : rest.takeWhile isDigit = [] ∧ rest.dropWhile isDigit = rest := by
    cases rest with
    | nil => exact ⟨rfl, rfl⟩
    | cons c rest => simp [stops c rfl]
  rw [digits, List.span_eq_takeWhile_dropWhile, List.takeWhile_append_of_pos all,
    List.dropWhile_append_of_pos all, none.1, none.2, List.append_nil]

/-- What delimits a number is no part of one. -/
theorem Delimited.head {c : Char} (delimited : Delimited (c :: rest)) :
    isDigit c = false ∧ c ≠ '.' ∧ isExponentMark c = false := by
  rcases delimited c rfl with rfl | rfl | rfl | blank
  · decide
  · decide
  · decide
  · rcases (isBlank_iff c).mp blank with rfl | rfl | rfl | rfl <;> decide

theorem Delimited.undigited (delimited : Delimited rest) : Undigited rest := by
  intro c first
  cases rest with
  | nil => cases first
  | cons c rest => cases first; exact delimited.head.1

theorem skipExponent_append {sign : List Char} (signed : sign = [] ∨ sign = ['+'] ∨ sign = ['-'])
    (power : Digits ds) (delimited : Delimited rest) :
    skipExponent (sign ++ (ds ++ rest)) = .ok rest := by
  obtain ⟨some, all⟩ := power
  have read := digits_append all delimited.undigited
  obtain ⟨d, ds, rfl⟩ := List.exists_cons_of_ne_nil some
  have digit := all d List.mem_cons_self
  rcases signed with rfl | rfl | rfl
  · unfold skipExponent
    split
    next same => cases same; exact absurd digit (by decide)
    next same => cases same; exact absurd digit (by decide)
    next => simp only [List.nil_append, read]
  · simp only [skipExponent, List.cons_append, List.nil_append] at read ⊢
    rw [read]
  · simp only [skipExponent, List.cons_append, List.nil_append] at read ⊢
    rw [read]

/-- How a number goes on with its exponent: it has ended, or a letter follows that is no digit and no
point, and the exponent is skipped. -/
theorem Exponent.skipped (power : Exponent exponent) (delimited : Delimited rest) :
    exponent ++ rest = [] ∧ rest = [] ∨ ∃ c more, exponent ++ rest = c :: more ∧ c ≠ '.' ∧
      isDigit c = false ∧
        (if isExponentMark c then skipExponent more else .ok (c :: more)) = .ok rest := by
  cases power with
  | absent =>
    cases rest with
    | nil => exact .inl ⟨rfl, rfl⟩
    | cons c rest =>
      obtain ⟨digit, point, mark⟩ := delimited.head
      exact .inr ⟨c, rest, rfl, point, digit, by simp [mark]⟩
  | @mark e sign ds letter signed power =>
    refine .inr ⟨e, sign ++ ds ++ rest, rfl, ?_⟩
    rw [List.append_assoc, skipExponent_append signed power delimited]
    rcases letter with rfl | rfl <;> exact ⟨by decide, rfl, rfl⟩

theorem skipFraction_append (places : Digits ds) (power : Exponent exponent)
    (delimited : Delimited rest) : skipFraction (ds ++ (exponent ++ rest)) = .ok rest := by
  obtain ⟨d, ds, rfl⟩ := List.exists_cons_of_ne_nil places.1
  unfold skipFraction
  rcases power.skipped delimited with ⟨ended, rfl⟩ | ⟨c, more, goes, -, digit, skipped⟩
  · rw [ended, digits_append places.2 delimited.undigited]
  · have stops : Undigited (c :: more) := by rintro _ ⟨⟩; exact digit
    rw [goes, digits_append places.2 stops]
    exact skipped

theorem skipNumber_append {whole fraction : List Char} (front : Whole whole)
    (places : Fraction fraction) (power : Exponent exponent) (delimited : Delimited rest) :
    skipNumber (whole ++ (fraction ++ (exponent ++ rest))) = .ok rest := by
  have read {tail : List Char} (stops : Undigited tail) :
      digits (whole ++ tail) = (whole, tail) := by
    cases front with
    | zero => exact digits_append (by simp [Digit]) stops
    | digits first _ all => exact digits_append (by simpa using ⟨first, all⟩) stops
  -- only a zero that more digits follow is refused
  have goes {c : Char} {tail : List Char} (digit : isDigit c = false) :
      skipNumber (whole ++ c :: tail) =
        if c = '.' then skipFraction tail
        else if isExponentMark c then skipExponent tail
        else .ok (c :: tail) := by
    unfold skipNumber
    rw [read (by rintro _ ⟨⟩; exact digit)]
    cases front with
    | zero => rfl
    | digits _ other _ =>
      split
      next empty => cases empty
      next zero => cases zero; exact absurd rfl other
      next same => cases same; rfl
      next same => cases same
  cases places with
  | point places =>
    rw [List.cons_append, goes rfl, if_pos rfl, skipFraction_append places power delimited]
  | absent =>
    rw [List.nil_append]
    rcases power.skipped delimited with ⟨ended, rfl⟩ | ⟨c, more, next, point, digit, skipped⟩
    · unfold skipNumber
      rw [ended, read delimited.undigited]
      cases front with
      | zero => rfl
      | digits _ other _ =>
        split
        next empty => cases empty
        next zero => cases zero; exact absurd rfl other
        next same => cases same
        next => rfl
    · rw [next, goes digit, if_neg point, skipped]

end

section

variable {cs rest : List Char}

theorem HexDigit.value {n : Nat} {c : Char} (digit : HexDigit n c) : hexValue? c = some n := by
  have small : n < 16 := by
    rcases digit with here | here <;> exact (List.getElem?_eq_some_iff.mp here).1
  interval_cases n <;> rcases digit with here | here <;> cases here <;> rfl

theorem CodeUnit.read {n : Nat} {unit : List Char} (spelled : CodeUnit n unit) (cs : List Char) :
    hexUnit (unit ++ cs) = .ok (n, cs) := by
  obtain ⟨a, b, c, d⟩ := spelled
  simp [hexUnit, a.value, b.value, c.value, d.value]

theorem simpleEscape?_of_mem {letter c : Char} (short : (letter, c) ∈ shortEscapes) :
    letter ≠ 'u' ∧ simpleEscape? letter = some c := by
  simp only [shortEscapes, List.mem_cons, Prod.mk.injEq, List.not_mem_nil, or_false] at short
  rcases short with ⟨rfl, rfl⟩ | ⟨rfl, rfl⟩ | ⟨rfl, rfl⟩ | ⟨rfl, rfl⟩ | ⟨rfl, rfl⟩ | ⟨rfl, rfl⟩ |
    ⟨rfl, rfl⟩ | ⟨rfl, rfl⟩ <;> exact ⟨by decide, rfl⟩

theorem skipString_plain {c : Char} (plain : Plain c) : skipString (c :: cs) = skipString cs := by
  obtain ⟨quote, escape, visible⟩ := plain
  rw [skipString, if_neg quote, if_neg escape, if_neg (by simpa using visible)]

theorem skipString_escape {after : List Char} (skipped : skipEscape cs = .ok after) :
    skipString ('\\' :: cs) = skipString after := by
  rw [skipString, if_neg (by decide), if_pos rfl]
  split
  next e failed => cases skipped.symm.trans failed
  next after' same => cases skipped.symm.trans same; rfl

theorem Content.skipped (content : Content cs) (rest : List Char) :
    skipString (cs ++ '"' :: rest) = .ok rest := by
  induction content with
  | nil => rw [List.nil_append, skipString, if_pos rfl]
  | plain plain _ ih => rw [List.cons_append, skipString_plain plain, ih]
  | @short letter c cs short _ ih =>
    obtain ⟨apart, known⟩ := simpleEscape?_of_mem short
    refine (skipString_escape ?_).trans ih
    simp [skipEscape, apart, known]
  | @unit n unit cs spelled _ ih =>
    refine (skipString_escape ?_).trans ih
    simp [skipEscape, spelled.read, bind, Except.bind]

end

/-- Skip on after the innermost bracket was closed. -/
def leave (fuel : Nat) (around : List Bracket) (rest : List Char) : Except Fault (List Char) :=
  match around with
  | [] => .ok rest
  | b :: around => skipOut fuel .after b around rest

/-- Skip on after a value has begun. -/
def goOn (fuel : Nat) (around : List Bracket) :
    Option Bracket × List Char → Except Fault (List Char)
  | (none, rest) => leave fuel around rest
  | (some inner, rest) => skipOut fuel .opened inner around rest

section

variable {fuel : Nat} {place : Place} {b : Bracket} {around : List Bracket} {cs rest out : List Char}

/-- More steps than enough are enough. -/
theorem skipOut_mono {fuel' : Nat} (le : fuel ≤ fuel')
    (done : skipOut fuel place b around cs = .ok out) :
    skipOut fuel' place b around cs = .ok out := by
  induction fuel generalizing fuel' place b around cs with
  | zero => cases done
  | succ fuel ih =>
    obtain ⟨fuel', rfl⟩ : ∃ n, fuel' = n + 1 := ⟨fuel' - 1, by omega⟩
    have le : fuel ≤ fuel' := by omega
    rw [skipOut] at done ⊢
    cases seen : skipBlank cs with
    | nil => rw [seen] at done; cases done
    | cons c rest =>
      simp only [seen] at done ⊢
      split_ifs at done ⊢
      · cases around with
        | nil => exact done
        | cons => exact ih le done
      · exact ih le done
      · cases item : enterItem b c rest with
        | error e => rw [item] at done; cases done
        | ok r =>
          obtain ⟨inner, rest⟩ := r
          rw [item] at done
          cases inner <;> exact ih le done

theorem leave_mono {fuel' : Nat} (le : fuel ≤ fuel') (done : leave fuel around rest = .ok out) :
    leave fuel' around rest = .ok out := by
  cases around with
  | nil => exact done
  | cons => exact skipOut_mono le done

theorem skipOut_blank (blank : Blank cs) :
    skipOut fuel place b around (cs ++ rest) = skipOut fuel place b around rest := by
  cases fuel with
  | zero => rfl
  | succ fuel =>
    unfold skipOut
    rw [skipBlank_append blank]

theorem skipOut_close (apart : place ≠ .next) :
    skipOut (fuel + 1) place b around (b.closing :: rest) = leave fuel around rest := by
  have seen : isBlank b.closing = false := by cases b <;> rfl
  rw [skipOut, skipBlank_cons seen]
  simp only [apart, ne_eq, not_false_eq_true, and_self, if_true]
  cases around <;> rfl

theorem skipOut_comma :
    skipOut (fuel + 1) .after b around (',' :: rest) = skipOut fuel .next b around rest := by
  have other : ',' ≠ b.closing := by cases b <;> decide
  rw [skipOut, skipBlank_cons rfl]
  simp [other]

theorem skipOut_item {c : Char} {r : Option Bracket × List Char} (apart : place ≠ .after)
    (seen : isBlank c = false) (other : c ≠ b.closing) (enters : enterItem b c cs = .ok r) :
    skipOut (fuel + 1) place b around (c :: cs) = goOn fuel (b :: around) r := by
  rw [skipOut, skipBlank_cons seen]
  simp only [other, and_false, if_false, apart, enters]
  obtain ⟨inner, rest⟩ := r
  cases inner <;> rfl

end

theorem enter_starts {c : Char} {cs : List Char} {r : Option Bracket × List Char}
    (enters : enter c cs = .ok r) : isBlank c = false ∧ c ≠ ']' := by
  constructor
  · by_contra blank
    rcases (isBlank_iff c).mp (Bool.not_eq_false _ ▸ blank) with rfl | rfl | rfl | rfl <;>
      cases enters
  · rintro rfl
    cases enters

theorem enter_bracket {c : Char} {cs rest : List Char} {b : Bracket}
    (enters : enter c cs = .ok (some b, rest)) : rest = cs := by
  have skipped {r : Except Fault (List Char)} :
      r.map (fun rest => ((none : Option Bracket), rest)) ≠ .ok (some b, rest) := by
    cases r <;> nofun
  simp only [enter] at enters
  split_ifs at enters <;> first | exact absurd enters skipped | (cases enters; rfl)

/-- The text is that of a value: it is entered at its first character, and the loop comes out of it
with a step for every other. -/
def Passes (cs : List Char) : Prop :=
  ∃ c more, cs = c :: more ∧ ∀ rest, Delimited rest → ∃ r, enter c (more ++ rest) = .ok r ∧
    ∀ fuel around out, leave fuel around rest = .ok out →
      goOn (fuel + more.length) around r = .ok out

/-- The text is that of an item of the bracket `b`, up to a comma or the end. -/
def Steps (b : Bracket) (cs : List Char) : Prop :=
  ∀ fuel place around rest out, place ≠ .after → Delimited rest →
    skipOut fuel .after b around rest = .ok out →
      skipOut (fuel + cs.length) place b around (cs ++ rest) = .ok out

/-- The text is that of the items of the bracket `b`, up to its end. -/
def Closes (b : Bracket) (cs : List Char) : Prop :=
  ∀ fuel place around rest out, place ≠ .after → leave fuel around rest = .ok out →
    skipOut (fuel + cs.length + 1) place b around (cs ++ b.closing :: rest) = .ok out

section

variable {b : Bracket} {c : Char} {cs more before behind value : List Char}

/-- A value that is skipped at once. -/
theorem Passes.atOnce (skipped : ∀ rest, Delimited rest → enter c (more ++ rest) = .ok (none, rest)) :
    Passes (c :: more) :=
  ⟨c, more, rfl, fun rest delimited => ⟨_, skipped rest delimited, fun _ _ _ done =>
    leave_mono (by omega) done⟩⟩

/-- A bracket with its items. -/
theorem Closes.passes (inside : Closes b cs)
    (opens : ∀ rest, enter c rest = .ok (some b, rest)) : Passes (c :: (cs ++ [b.closing])) := by
  refine ⟨c, _, rfl, fun rest _ => ⟨_, opens _, fun fuel around out done => ?_⟩⟩
  have closed := inside fuel .opened around rest out nofun done
  simpa [goOn, Nat.add_assoc] using closed

/-- An empty bracket. -/
theorem Blank.passes (blank : Blank cs) (opens : ∀ rest, enter c rest = .ok (some b, rest)) :
    Passes (c :: (cs ++ [b.closing])) := by
  refine ⟨c, _, rfl, fun rest _ => ⟨_, opens _, fun fuel around out done => ?_⟩⟩
  have closed : skipOut (fuel + 1) .opened b around (cs ++ b.closing :: rest) = .ok out := by
    rw [skipOut_blank blank, skipOut_close (nofun : Place.opened ≠ .next), done]
  refine skipOut_mono (?_ : fuel + 1 ≤ _) ?_
  · simp
  · simpa using closed

theorem Steps.closes (item : Steps b cs) : Closes b cs := by
  intro fuel place around rest out apart done
  have delimited : Delimited (b.closing :: rest) :=
    delimited_cons (by cases b <;> simp [Bracket.closing]) _
  have closed : skipOut (fuel + 1) .after b around (b.closing :: rest) = .ok out := by
    rw [skipOut_close (nofun : Place.after ≠ .next), done]
  have stepped := item (fuel + 1) place around _ out apart delimited closed
  rwa [Nat.add_right_comm] at stepped

theorem Steps.comma (item : Steps b cs) (items : Closes b more) : Closes b (cs ++ ',' :: more) := by
  intro fuel place around rest out apart done
  have next := items fuel .next around rest out nofun done
  have comma : skipOut (fuel + more.length + 2) .after b around
      (',' :: (more ++ b.closing :: rest)) = .ok out := by rw [skipOut_comma, next]
  have stepped := item _ place around _ out apart (delimited_cons (.inl rfl) _) comma
  have enough : fuel + more.length + 2 + cs.length = fuel + (cs ++ ',' :: more).length + 1 := by
    simp only [List.length_append, List.length_cons]; omega
  rw [enough] at stepped
  simpa using stepped

/-- A value between blanks is an item of a list. -/
theorem Passes.steps (passes : Passes value) (blank : Blank before) (blank' : Blank behind) :
    Steps .list (before ++ (value ++ behind)) := by
  intro fuel place around rest out apart delimited done
  obtain ⟨c, more, rfl, passes⟩ := passes
  obtain ⟨r, enters, passes⟩ := passes (behind ++ rest) (delimited.blank blank')
  have starts := enter_starts enters
  have left : leave fuel (.list :: around) (behind ++ rest) = .ok out := by
    rw [leave, skipOut_blank blank', done]
  have stepped : skipOut (fuel + more.length + 1) place .list around
      (c :: (more ++ (behind ++ rest))) = .ok out := by
    rw [skipOut_item (b := .list) apart starts.1 starts.2 enters]
    exact passes _ _ _ left
  refine skipOut_mono (?_ : fuel + more.length + 1 ≤ _) ?_
  · simp only [List.length_append, List.length_cons]; omega
  · simpa [skipOut_blank blank] using stepped

theorem colon_append (blank : Blank before) (cs : List Char) :
    colon (before ++ ':' :: cs) = .ok cs := by
  rw [colon, skipBlank_append blank, skipBlank_cons rfl]
  rfl

/-- A named value is an item of an object. -/
theorem Passes.member {name : List Char} (passes : Passes value) (content : Content name)
    (member : Member name value cs) : Steps .object cs := by
  intro fuel place around rest out apart delimited done
  obtain @⟨before, inner, after, behind, blank₁, blank₂, blank₃, blank₄⟩ := member
  obtain ⟨c, more, rfl, passes⟩ := passes
  obtain ⟨r, enters, passes⟩ := passes (behind ++ rest) (delimited.blank blank₄)
  have left : leave fuel (.object :: around) (behind ++ rest) = .ok out := by
    rw [leave, skipOut_blank blank₄, done]
  have named : enterItem .object '"' (name ++ '"' :: (inner ++ ':' :: (after ++
      (c :: (more ++ (behind ++ rest)))))) = .ok r := by
    simp only [enterItem, if_true, content.skipped, colon_append blank₂, bind, Except.bind]
    rw [enterNext, skipBlank_append blank₃, skipBlank_cons (enter_starts enters).1]
    exact enters
  have stepped : skipOut (fuel + more.length + 1) place .object around ('"' :: (name ++ '"' ::
      (inner ++ ':' :: (after ++ (c :: (more ++ (behind ++ rest))))))) = .ok out := by
    rw [skipOut_item apart rfl (by decide) named]
    exact passes _ _ _ left
  refine skipOut_mono (?_ : fuel + more.length + 1 ≤ _) ?_
  · simp only [List.length_append, List.length_cons]; omega
  · simpa [skipOut_blank blank₁] using stepped

end

/-- A number starts with its sign or with a digit. -/
theorem Numeral.passes {cs : List Char} (numeral : Numeral cs) : Passes cs := by
  obtain @⟨sign, whole, fraction, exponent, signed, front, places, power⟩ := numeral
  have skipped {rest : List Char} (delimited : Delimited rest) :
      skipNumber (whole ++ (fraction ++ (exponent ++ rest))) = .ok rest :=
    skipNumber_append front places power delimited
  rcases signed with rfl | rfl
  · obtain ⟨d, ds, rfl, digit⟩ : ∃ d ds, whole = d :: ds ∧ isDigit d = true := by
      cases front with
      | zero => exact ⟨_, _, rfl, rfl⟩
      | digits first => exact ⟨_, _, rfl, (isDigit_iff _).mpr first⟩
    refine .atOnce fun rest delimited => ?_
    have read := skipped delimited
    have letters : d ≠ 'n' ∧ d ≠ 't' ∧ d ≠ 'f' ∧ d ≠ '-' := by
      refine ⟨?_, ?_, ?_, ?_⟩ <;> rintro rfl <;> cases digit
    simp only [List.cons_append] at read
    simp [enter, letters, digit, read, Except.map]
  · refine .atOnce fun rest delimited => ?_
    simp [enter, skipped delimited, Except.map]

def Piece.Skipped : Piece → List Char → Prop
  | .value => Passes
  | .items => Closes .list
  | .members => Closes .object

theorem Written.skipped {piece : Piece} {cs : List Char} (written : Written piece cs) :
    piece.Skipped cs := by
  induction written with
  | word known =>
    simp only [words, List.mem_cons, List.not_mem_nil, or_false] at known
    rcases known with rfl | rfl | rfl <;> exact Passes.atOnce fun rest _ => rfl
  | number numeral => exact numeral.passes
  | string content =>
    refine Passes.atOnce fun rest _ => ?_
    simp [enter, content.skipped, isDigit, digit?, Except.map]
  | emptyList blank => exact blank.passes (b := .list) fun _ => rfl
  | list _ ih => exact Closes.passes ih fun _ => rfl
  | emptyObject blank => exact blank.passes (b := .object) fun _ => rfl
  | object _ ih => exact Closes.passes ih fun _ => rfl
  | item before _ behind ih => exact (ih.steps before behind).closes
  | nextItem before _ behind _ ih ih' =>
    have items := (ih.steps before behind).comma ih'
    simpa [Piece.Skipped] using items
  | member content _ member ih => exact (ih.member content member).closes
  | nextMember content _ member _ ih ih' => exact (ih.member content member).comma ih'

/-- Blanks in front of a value are skipped with it. -/
theorem skipValue_append {before value rest : List Char} (blank : Blank before)
    (written : Written .value value) (delimited : Delimited rest) :
    skipValue (before ++ (value ++ rest)) = .ok rest := by
  obtain ⟨c, more, rfl, passes⟩ := written.skipped
  obtain ⟨r, enters, passes⟩ := passes rest delimited
  have entered : enterNext (before ++ (c :: more ++ rest)) = .ok r := by
    rw [enterNext, skipBlank_append blank, List.cons_append,
      skipBlank_cons (enter_starts enters).1]
    exact enters
  have left := passes 0 [] rest rfl
  rw [skipValue, entered]
  obtain ⟨inner, after⟩ := r
  cases inner with
  | none => exact left
  | some inner =>
    cases enter_bracket enters
    exact skipOut_mono (by simp) left

end Quorate.Json
