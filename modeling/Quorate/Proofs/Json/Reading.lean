import Mathlib.Tactic.Positivity
import Quorate.Json.Record
import Quorate.Proofs.Json.Skipping

/-! Reading back what is written: strings however they are spelled, whole numbers, variants, and
records whatever the order of their members and whatever stands among them. -/

set_option autoImplicit false

namespace Quorate.Json

section

variable {cs s rest : List Char}

theorem readString_plain {c : Char} (plain : Plain c)
    (read : readString cs = .ok (s, rest)) : readString (c :: cs) = .ok (c :: s, rest) := by
  obtain ⟨quote, escape, visible⟩ := plain
  rw [readString, if_neg quote, if_neg escape, if_neg (by simpa using visible), read]
  rfl

theorem readString_escape {c : Char} {after : List Char} (escape : readEscape cs = .ok (c, after))
    (read : readString after = .ok (s, rest)) : readString ('\\' :: cs) = .ok (c :: s, rest) := by
  rw [readString, if_neg (by decide), if_pos rfl]
  split
  next e failed => cases escape.symm.trans failed
  next x after' same => cases escape.symm.trans same; rw [read]; rfl

theorem Spells.read (spells : Spells s cs) (rest : List Char) :
    readString (cs ++ '"' :: rest) = .ok (s, rest) := by
  induction spells with
  | nil => rw [List.nil_append, readString, if_pos rfl]
  | plain plain _ ih => exact readString_plain plain ih
  | short short _ ih =>
    obtain ⟨apart, known⟩ := simpleEscape?_of_mem short
    exact readString_escape (by simp [readEscape, apart, known]) ih
  | @unit n _ _ _ spelled single _ ih =>
    refine readString_escape ?_ ih
    have trailing : isTrailing n = false := by simp [isTrailing]; omega
    have leading : isLeading n = false := by simp [isLeading]; omega
    simp [readEscape, spelled.read, bind, Except.bind, trailing, leading]
  | @pair m n _ _ s cs first second leading trailing _ ih =>
    refine readString_escape ?_ ih
    have apart : isTrailing m = false := by simp [isTrailing]; omega
    have leading : isLeading m = true := by simp [isLeading]; omega
    have trailing : isTrailing n = true := by simp [isTrailing]; omega
    simp [readEscape, first.read, second.read, bind, Except.bind, apart, leading, trailing,
      Json.trailing, ofPair]

end

/-- The text is read as `x` in front of anything that delimits it. -/
def Gives {α : Type} (read : Reader α) (x : α) (value : List Char) : Prop :=
  ∀ before rest, Blank before → Delimited rest →
    read (before ++ (value ++ rest)) = .ok (x, rest)

section

variable {n : Nat} {ds rest : List Char}

theorem digit?_of_digit {c : Char} (digit : Digit c) : digit? c = some (c.toNat - '0'.toNat) :=
  if_pos digit

/-- Digits are appended for as long as the number they make fits. -/
theorem append_digits (all : ∀ c ∈ ds, Digit c) (fits : Nat.ofDigitChars 10 ds n ≤ largest) :
    append n ds = (Nat.ofDigitChars 10 ds n, ds.length) := by
  induction ds generalizing n with
  | nil => rfl
  | cons c ds ih =>
    rw [Nat.ofDigitChars_cons, Nat.mul_comm] at fits ⊢
    have grows : n * 10 + (c.toNat - '0'.toNat) ≤ largest := by
      refine le_trans ?_ fits
      rw [Nat.ofDigitChars_eq_ofDigitChars_zero]
      exact le_trans (Nat.le_mul_of_pos_left _ (by positivity)) (Nat.le_add_right _ _)
    have rest := ih (fun d member => all d (List.mem_cons_of_mem _ member)) fits
    simp only [append, digit?_of_digit (all c List.mem_cons_self), Option.getD_some]
    rw [if_pos grows, rest]
    rfl

theorem afterInteger_whole (delimited : Delimited rest) :
    afterInteger true n 0 rest = .ok (.natural n, rest) := by
  cases rest with
  | nil => rfl
  | cons c rest =>
    obtain ⟨-, point, mark⟩ := delimited.head
    simp [afterInteger, point, mark, whole]

theorem digit_of_mem_toDigits {c : Char} (member : c ∈ Nat.toDigits 10 n) : Digit c := by
  have digit := Nat.isDigit_of_mem_toDigits (by decide) (by decide) member
  simpa [Char.isDigit, Digit, Char.le_def] using digit

/-- Only zero is written with a zero in front. -/
theorem head?_toDigits_ne {n : Nat} (positive : 0 < n) : (Nat.toDigits 10 n).head? ≠ some '0' := by
  induction n using Nat.strongRecOn with
  | ind n ih =>
    by_cases small : n < 10
    · rw [Nat.toDigits_of_lt_base small]
      interval_cases n <;> decide
    · rw [Nat.toDigits_of_base_le (by decide) (by omega),
        List.head?_append_of_ne_nil _ Nat.toDigits_ne_nil]
      exact ih (n / 10) (by omega) (by omega)

theorem readNumber_decimal (fits : n ≤ largest) (delimited : Delimited rest) :
    readNumber true (Nat.toDigits 10 n ++ rest) = .ok (.natural n, rest) := by
  have all : ∀ c ∈ Nat.toDigits 10 n, Digit c := fun c => digit_of_mem_toDigits
  have value : Nat.ofDigitChars 10 (Nat.toDigits 10 n) 0 = n := Nat.ofDigitChars_ten_toDigits
  by_cases zero : n = 0
  · subst zero
    have stops : (rest.head?.map isDigit).getD false = false := by
      cases rest with
      | nil => rfl
      | cons c rest => exact delimited.head.1
    simp [Nat.toDigits_zero, readNumber, stops, afterInteger_whole delimited]
  · obtain ⟨d, ds, written⟩ := List.exists_cons_of_ne_nil (Nat.toDigits_ne_nil (n := n) (b := 10))
    have other : d ≠ '0' := by
      rintro rfl
      exact head?_toDigits_ne (Nat.pos_of_ne_zero zero) (by rw [written]; rfl)
    have count : append 0 (d :: ds) = (n, (d :: ds).length) := by
      rw [← written, append_digits all (by rwa [value]), value]
    have read := digits_append all delimited.undigited
    rw [written, List.cons_append] at read
    have digit : isDigit d = true := (isDigit_iff d).mpr (all d (by simp [written]))
    rw [written, List.cons_append, readNumber, if_neg other, if_pos digit, read]
    simp only [count, Nat.sub_self, afterInteger_whole delimited]

theorem blank_of_digit {c : Char} (digit : isDigit c = true) : isBlank c = false := by
  by_contra blank
  rcases (isBlank_iff c).mp (Bool.not_eq_false _ ▸ blank) with rfl | rfl | rfl | rfl <;> cases digit

theorem readNat_decimal (fits : n ≤ largest) (expected : String) :
    Gives (readNat expected) n (Nat.toDigits 10 n) := by
  intro before rest blank delimited
  obtain ⟨d, ds, written⟩ := List.exists_cons_of_ne_nil (Nat.toDigits_ne_nil (n := n) (b := 10))
  have read := readNumber_decimal fits delimited
  have digit : isDigit d = true :=
    (isDigit_iff d).mpr (digit_of_mem_toDigits (n := n) (by simp [written]))
  have sign : d ≠ '-' := by rintro rfl; cases digit
  rw [written, List.cons_append] at read ⊢
  simp only [readNat, skipBlank_append blank, skipBlank_cons (blank_of_digit digit), if_neg sign,
    if_pos digit, read]
  rfl

end

section

variable {ν α : Type} {known : List (String × ν)} {v : Variants ν α} {name : String} {x : ν} {y : α}
  {before cs rest spelling value : List Char}

theorem readName_append (blank : Blank before) (spells : Spells name.toList spelling)
    (holds : known.lookup name = some x) :
    readName known (before ++ '"' :: (spelling ++ '"' :: rest)) = .ok (x, rest) := by
  rw [readName, skipBlank_append blank, skipBlank_cons rfl]
  simp [spells.read, bind, Except.bind, holds]

/-- A variant by its bare name. -/
theorem Quotes.gives (quotes : Quotes name cs) (holds : v.known.lookup name = some x)
    (bare : v.bare x = .ok y) : Gives (readVariant v) y cs := by
  intro before rest blank _
  obtain ⟨spells⟩ := quotes
  have read : readName v.known ([] ++ '"' :: (_ ++ '"' :: rest)) = .ok (x, rest) :=
    readName_append blank_nil spells holds
  rw [readVariant, skipBlank_append blank, List.cons_append, skipBlank_cons rfl]
  simp only [if_true, List.append_assoc, List.cons_append, List.nil_append] at read ⊢
  simp [read, bind, Except.bind, bare]

/-- A variant with its content, as an object of one member. -/
theorem Object.gives (object : Object [(name, value)] cs) (holds : v.known.lookup name = some x)
    (content : Gives (v.content x) y value) : Gives (readVariant v) y cs := by
  intro before rest blank _
  obtain ⟨⟩ | ⟨members⟩ := object
  cases members with
  | more _ _ none => cases none
  | last spells member =>
    obtain @⟨front, inner, after, behind, blank₁, blank₂, blank₃, blank₄⟩ := member
    have delimited : Delimited (behind ++ '\x7d' :: rest) :=
      (delimited_cons (.inr (.inr rfl)) _).blank blank₄
    have read := content after _ blank₃ delimited
    rw [readVariant, skipBlank_append blank, List.cons_append, skipBlank_cons rfl]
    simp only [List.append_assoc, List.cons_append, List.nil_append]
    simp only [Char.reduceEq, if_false, if_true, readName_append blank₁ spells holds,
      colon_append blank₂, read, bind, Except.bind]
    rw [skipBlank_append blank₄, skipBlank_cons rfl]
    rfl

end

section

variable {δ α : Type} {f : Fields δ α} {d d' : δ} {x : α} {name : String} {fields : List Field}
  {members : List (String × List Char)} {before behind spelling value cs rest : List Char}

/-- The draft `d` takes in a member and becomes `d'`. -/
def Takes (f : Fields δ α) (d : δ) (name : String) (value : List Char) (d' : δ) : Prop :=
  ∀ inner after rest, Blank inner → Blank after → Delimited rest →
    f.member d name (inner ++ ':' :: (after ++ (value ++ rest))) = .ok (d', rest)

/-- The draft `d` takes in members one by one and becomes `d'`. -/
inductive Gathers (f : Fields δ α) : δ → List (String × List Char) → δ → Prop where
  | none (d : δ) : Gathers f d [] d
  | more {d d' d'' : δ} {name : String} {value : List Char} {members : List (String × List Char)} :
      Takes f d name value d' → Gathers f d' members d'' → Gathers f d ((name, value) :: members) d''

/-- A field is taken in the first time that it comes. -/
theorem Takes.once {β : Type} {read : Reader β} {y : β} (take : β → δ)
    (member : ∀ cs, f.member d name cs =
      (once name none read cs).map fun (y, rest) => (take y, rest))
    (gives : Gives read y value) (becomes : d' = take y) : Takes f d name value d' := by
  intro inner after rest blank blank' delimited
  simp only [member, Json.once, Option.isSome_none, Bool.false_eq_true, if_false, colon_append blank,
    bind, Except.bind, gives after rest blank' delimited, becomes]
  rfl

theorem Takes.skip (member : ∀ cs, f.member d name cs = skipMember d cs)
    (written : Written .value value) (becomes : d' = d) : Takes f d name value d' := by
  intro inner after rest blank blank' delimited
  simp [becomes, member, skipMember, colon_append blank, skipValue_append blank' written delimited,
    bind, Except.bind, Except.map]

/-- What stands in front of a member: nothing at first, a comma later. -/
inductive Lead : Bool → List Char → Prop where
  | opened : Lead true []
  | comma {behind : List Char} : Blank behind → Lead false (behind ++ [','])

theorem nextMember?_named {first : Bool} {lead : List Char} (leads : Lead first lead)
    (blank : Blank before) (spells : Spells name.toList spelling) :
    nextMember? first (lead ++ (before ++ '"' :: (spelling ++ '"' :: rest))) =
      .ok (some name, rest) := by
  cases leads with
  | opened =>
    rw [List.nil_append, nextMember?, skipBlank_append blank, skipBlank_cons rfl]
    simp [spells.read, Except.map]
  | comma behind =>
    rw [List.append_assoc, nextMember?, skipBlank_append behind, List.cons_append,
      skipBlank_cons rfl]
    simp only [List.nil_append, skipBlank_append blank]
    rw [skipBlank_cons rfl]
    simp [spells.read, Except.map]

theorem nextMember?_end (first : Bool) (blank : Blank behind) :
    nextMember? first (behind ++ '\x7d' :: rest) = .ok (none, rest) := by
  rw [nextMember?, skipBlank_append blank, skipBlank_cons rfl]
  rfl

theorem readMembers_end (fuel : Nat) (first : Bool) (d : δ) (blank : Blank behind) :
    readMembers f (fuel + 1) first d (behind ++ '\x7d' :: rest) = .ok (d, rest) := by
  rw [readMembers, nextMember?_end first blank]
  rfl

/-- One member is taken in, and the blanks behind it are left. -/
theorem readMembers_member {first : Bool} {lead : List Char} (fuel : Nat) (leads : Lead first lead)
    (spells : Spells name.toList spelling) (member : Member spelling value cs)
    (takes : Takes f d name value d') : ∃ behind, Blank behind ∧ ∀ rest, Delimited rest →
      readMembers f (fuel + 1) first d (lead ++ (cs ++ rest)) =
        readMembers f fuel false d' (behind ++ rest) := by
  obtain @⟨before, inner, after, behind, blank₁, blank₂, blank₃, blank₄⟩ := member
  refine ⟨behind, blank₄, fun rest delimited => ?_⟩
  have taken := takes inner after (behind ++ rest) blank₂ blank₃ (delimited.blank blank₄)
  simp only [readMembers, List.append_assoc, List.cons_append, nextMember?_named leads blank₁ spells,
    bind, Except.bind, taken]

theorem Members.read (written : Members members cs) (gathers : Gathers f d members d')
    {first : Bool} {lead : List Char} (leads : Lead first lead) {fuel : Nat}
    (enough : members.length < fuel) (rest : List Char) :
    readMembers f fuel first d (lead ++ (cs ++ '\x7d' :: rest)) = .ok (d', rest) := by
  induction written generalizing d first lead fuel with
  | last spells member =>
    obtain ⟨fuel, rfl⟩ : ∃ n, fuel = n + 2 := ⟨fuel - 2, by simp at enough; omega⟩
    obtain _ | ⟨takes, ⟨⟩⟩ := gathers
    obtain ⟨behind, blank, step⟩ := readMembers_member (fuel + 1) leads spells member takes
    rw [step _ (delimited_cons (.inr (.inr rfl)) _), readMembers_end fuel false _ blank]
  | more spells member _ ih =>
    obtain ⟨fuel, rfl⟩ : ∃ n, fuel = n + 1 := ⟨fuel - 1, by simp at enough; omega⟩
    obtain _ | ⟨takes, gathers⟩ := gathers
    obtain ⟨behind, blank, step⟩ := readMembers_member fuel leads spells member takes
    have read := ih gathers (.comma blank) (by simpa using enough)
    rw [List.append_assoc, List.cons_append, step _ (delimited_cons (.inl rfl) _)]
    simpa using read

/-- Every member takes characters of its own. -/
theorem Members.length_le (written : Members members cs) : members.length ≤ cs.length := by
  have member_length {spelling value cs : List Char} (member : Member spelling value cs) :
      1 ≤ cs.length := by
    obtain ⟨⟩ := member
    simp only [List.length_append, List.length_cons]; omega
  induction written with
  | last _ member => exact member_length member
  | more _ member _ ih =>
    have := member_length member
    simp only [List.length_append, List.length_cons]; omega

/-- A record is read from an object whose members are gathered to a draft of it. -/
theorem Gathers.gives (gathers : Gathers f f.empty members d) (finished : f.finish d = .ok x)
    (object : Object members cs) : Gives (readRecord f) x cs := by
  intro before rest blank _
  cases object with
  | empty blank' =>
    cases gathers
    rw [readRecord, skipBlank_append blank, List.cons_append, skipBlank_cons rfl]
    simp [readMembers_end _ true _ blank', bind, Except.bind, finished]
  | @members _ cs written =>
    rw [readRecord, skipBlank_append blank, List.cons_append, skipBlank_cons rfl]
    have enough : members.length < (cs ++ '\x7d' :: rest).length + 1 := by
      have := written.length_le
      simp only [List.length_append]; omega
    have read := written.read gathers .opened enough rest
    simp only [List.nil_append] at read
    simp only [List.append_assoc, List.cons_append, List.nil_append, Char.reduceEq, if_false,
      if_true, read, bind, Except.bind, finished]

/-- The members with the given fields make up `x`: the draft depends only on which of them were seen,
and it takes in each field once and any other member. -/
structure Makes (f : Fields δ α) (fields : List Field) (x : α) (draft : List String → δ) : Prop where
  empty : f.empty = draft []
  field : ∀ g ∈ fields, ∀ seen value, g.name ∉ seen → g.Holds value →
    Takes f (draft seen) g.name value (draft (g.name :: seen))
  other : ∀ name value seen, (∀ g ∈ fields, name ≠ g.name) → Written .value value →
    Takes f (draft seen) name value (draft (name :: seen))
  finish : ∀ seen, (∀ g ∈ fields, g.Needed → g.name ∈ seen) → f.finish (draft seen) = .ok x

variable {draft : List String → δ}

theorem Makes.gathers (makes : Makes f fields x draft) (seen : List String)
    (held : ∀ g ∈ fields, ∀ value, (g.name, value) ∈ members → g.Holds value)
    (other : ∀ member ∈ members, (∀ g ∈ fields, member.1 ≠ g.name) → Written .value member.2)
    (once : ∀ g ∈ fields, (members.map Prod.fst ++ seen).count g.name ≤ 1) :
    Gathers f (draft seen) members
      (draft ((members.map Prod.fst).reverse ++ seen)) := by
  induction members generalizing seen with
  | nil => exact .none _
  | cons member members ih =>
    obtain ⟨name, value⟩ := member
    have takes : Takes f (draft seen) name value (draft (name :: seen)) := by
      by_cases known : ∃ g ∈ fields, g.name = name
      · obtain ⟨g, known, rfl⟩ := known
        have fresh : g.name ∉ seen := by
          intro again
          have twice := once g known
          have : 0 < seen.count g.name := List.count_pos_iff.mpr again
          simp only [List.map_cons, List.cons_append, List.count_cons_self, List.count_append]
            at twice
          omega
        exact makes.field g known seen value fresh (held g known value List.mem_cons_self)
      · have unknown : ∀ g ∈ fields, name ≠ g.name := fun g there same => known ⟨g, there, same.symm⟩
        exact makes.other name value seen unknown (other _ List.mem_cons_self unknown)
    have rest := ih (name :: seen)
      (fun g there value member => held g there value (List.mem_cons_of_mem _ member))
      (fun member there => other member (List.mem_cons_of_mem _ there))
      (fun g there => by
        have count := once g there
        simpa [List.perm_middle.count_eq] using count)
    simpa using Gathers.more takes rest

/-- An object that carries the fields of a record is read as the record. -/
theorem Makes.gives (makes : Makes f fields x draft) (carries : Carries fields members)
    (object : Object members cs) : Gives (readRecord f) x cs := by
  have gathers := makes.gathers [] carries.held carries.other (by simpa using carries.once)
  rw [← makes.empty] at gathers
  refine gathers.gives (makes.finish _ fun g there needed => ?_) object
  simpa using carries.needed g there needed

end

/-- A text with nothing but blanks around a value is read as the value. -/
theorem Gives.readAll {α : Type} {read : Reader α} {x : α} {before value behind : List Char}
    (gives : Gives read x value) (blank : Blank before) (blank' : Blank behind) :
    Json.readAll read (before ++ (value ++ behind)) = .ok x := by
  have delimited : Delimited behind := by simpa using delimited_nil.blank blank'
  have none : skipBlank behind = [] := by rw [← List.append_nil behind, skipBlank_append blank']; rfl
  simp [Json.readAll, gives before behind blank delimited, bind, Except.bind, none]

end Quorate.Json
