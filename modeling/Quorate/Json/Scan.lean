import Quorate.Json.Fault

/-!
The smallest parts of a JSON text: blanks, words and strings. A string can be read for its
characters or skipped; only reading asks that surrogates come in pairs.
-/

set_option autoImplicit false

namespace Quorate.Json

def isBlank (c : Char) : Bool := c = ' ' || c = '\n' || c = '\t' || c = '\r'

/-- The text from its first character that is not blank. -/
def skipBlank (cs : List Char) : List Char := cs.dropWhile isBlank

/-- Read what is left of a word whose first letter was seen. -/
def word : List Char → List Char → Except Fault (List Char)
  | [], cs => .ok cs
  | _ :: _, [] => .error .truncated
  | x :: xs, c :: cs => if c = x then word xs cs else .error .malformed

def hexValue? (c : Char) : Option Nat :=
  if '0' ≤ c ∧ c ≤ '9' then some (c.toNat - 48)
  else if 'a' ≤ c ∧ c ≤ 'f' then some (c.toNat - 87)
  else if 'A' ≤ c ∧ c ≤ 'F' then some (c.toNat - 55)
  else none

/-- The size of a text in bytes. -/
def byteCount (cs : List Char) : Nat := cs.foldl (fun n c => n + c.utf8Size) 0

/-- Read four digits in base sixteen. Whether a text is too short for them is decided in bytes. -/
def hexUnit : Reader Nat
  | a :: b :: c :: d :: cs =>
    match hexValue? a, hexValue? b, hexValue? c, hexValue? d with
    | some a, some b, some c, some d => .ok (((a * 16 + b) * 16 + c) * 16 + d, cs)
    | _, _, _, _ => .error .malformed
  | cs => if byteCount cs < 4 then .error .truncated else .error .malformed

/-- The character of an escape of one letter. -/
def simpleEscape? (c : Char) : Option Char :=
  if c = '"' ∨ c = '\\' ∨ c = '/' then some c
  else if c = 'b' then some '\x08'
  else if c = 'f' then some '\x0c'
  else if c = 'n' then some '\n'
  else if c = 'r' then some '\r'
  else if c = 't' then some '\t'
  else none

def isLeading (unit : Nat) : Bool := 0xd800 ≤ unit && unit ≤ 0xdbff

def isTrailing (unit : Nat) : Bool := 0xdc00 ≤ unit && unit ≤ 0xdfff

/-- The character that a surrogate pair stands for. -/
def ofPair (leading trailing : Nat) : Char :=
  Char.ofNat ((leading - 0xd800) * 0x400 + (trailing - 0xdc00) + 0x10000)

/-- Read the second half of a surrogate pair. -/
def trailing (leading : Nat) : Reader Char
  | [] | ['\\'] => .error .truncated
  | '\\' :: 'u' :: cs => do
    let (unit, rest) ← hexUnit cs
    if isTrailing unit then .ok (ofPair leading unit, rest) else .error .malformed
  | _ => .error .malformed

/-- Read an escape after its backslash. -/
def readEscape : Reader Char
  | [] => .error .truncated
  | c :: cs =>
    if c = 'u' then do
      let (unit, rest) ← hexUnit cs
      if isTrailing unit then .error .malformed
      else if isLeading unit then trailing unit rest
      else .ok (Char.ofNat unit, rest)
    else match simpleEscape? c with
      | some x => .ok (x, cs)
      | none => .error .malformed

def skipEscape : List Char → Except Fault (List Char)
  | [] => .error .truncated
  | c :: cs =>
    if c = 'u' then do
      let (_, rest) ← hexUnit cs
      .ok rest
    else if (simpleEscape? c).isSome then .ok cs
    else .error .malformed

theorem hexUnit_length {cs rest : List Char} {n : Nat} (h : hexUnit cs = .ok (n, rest)) :
    rest.length < cs.length := by
  unfold hexUnit at h
  split at h
  · split at h
    · cases h; simp only [List.length_cons]; omega
    · cases h
  · split at h <;> cases h

theorem trailing_length {leading : Nat} {cs rest : List Char} {c : Char}
    (h : trailing leading cs = .ok (c, rest)) : rest.length < cs.length := by
  unfold trailing at h
  split at h
  · cases h
  · cases h
  · rename_i cs
    cases unit : hexUnit cs with
    | error e => rw [unit] at h; cases h
    | ok read =>
      obtain ⟨n, after⟩ := read
      rw [unit] at h
      have shorter := hexUnit_length unit
      by_cases t : isTrailing n
      · simp only [bind, Except.bind, t, if_true, Except.ok.injEq, Prod.mk.injEq] at h
        simp only [List.length_cons, ← h.2]
        omega
      · simp only [bind, Except.bind, t, Bool.false_eq_true, if_false, reduceCtorEq] at h
  · cases h

theorem readEscape_length {cs rest : List Char} {c : Char} (h : readEscape cs = .ok (c, rest)) :
    rest.length < cs.length := by
  unfold readEscape at h
  split at h
  · cases h
  · rename_i c cs
    split at h
    · cases unit : hexUnit cs with
      | error e => rw [unit] at h; cases h
      | ok read =>
        rw [unit] at h
        simp only [bind, Except.bind] at h
        have := hexUnit_length unit
        split at h
        · cases h
        · split at h
          · have := trailing_length h
            simp only [List.length_cons]; omega
          · cases h
            simp only [List.length_cons]; omega
    · split at h
      · cases h; simp
      · cases h

theorem skipEscape_length {cs rest : List Char} (h : skipEscape cs = .ok rest) :
    rest.length < cs.length := by
  unfold skipEscape at h
  split at h
  · cases h
  · rename_i c cs
    split at h
    · cases unit : hexUnit cs with
      | error e => rw [unit] at h; cases h
      | ok read =>
        rw [unit] at h
        cases h
        have := hexUnit_length unit
        simp only [List.length_cons]; omega
    · split at h
      · cases h; simp
      · cases h

/-- Read a string after its opening quote. -/
def readString (cs : List Char) : Except Fault (List Char × List Char) :=
  match cs with
  | [] => .error .truncated
  | c :: cs =>
    if c = '"' then .ok ([], cs)
    else if c = '\\' then
      match h : readEscape cs with
      | .error e => .error e
      | .ok (x, rest) =>
        have := readEscape_length h
        (readString rest).map fun (s, rest) => (x :: s, rest)
    else if c < ' ' then .error .malformed
    else (readString cs).map fun (s, rest) => (c :: s, rest)
termination_by cs.length
decreasing_by all_goals simp only [List.length_cons]; omega

/-- Skip a string after its opening quote. -/
def skipString (cs : List Char) : Except Fault (List Char) :=
  match cs with
  | [] => .error .truncated
  | c :: cs =>
    if c = '"' then .ok cs
    else if c = '\\' then
      match h : skipEscape cs with
      | .error e => .error e
      | .ok rest =>
        have := skipEscape_length h
        skipString rest
    else if c < ' ' then .error .malformed
    else skipString cs
termination_by cs.length
decreasing_by all_goals simp only [List.length_cons]; omega

end Quorate.Json
