import Mathlib.Algebra.Group.Nat.Defs
import Quorate.Read.Command

/-! The random delays of replicas. A delay is a number of milliseconds that is drawn from a range;
the range is empty under some limits that fill more than 64 bits, but under none of the command. -/

set_option autoImplicit false

namespace Quorate.Replica

/-- What a generator may give for the range from zero up to `bound`: any number inside, or a panic if
there is none. -/
inductive Sample (bound : Nat) : Except Panic Nat → Prop where
  | empty (none : bound = 0) : Sample bound (.error "cannot sample empty range")
  | inside {n : Nat} (below : n < bound) : Sample bound (.ok n)

theorem choices_eq (limit : Duration) : choices limit = max limit.millis 1 % 2 ^ 64 := rfl

theorem choices_ofMillis {ms : Nat} (fits : ms < 2 ^ 64) : choices (.ofMillis ms) = max ms 1 := by
  rw [choices_eq, Duration.millis_ofMillis, Nat.mod_eq_of_lt (by omega)]

theorem choices_eq_zero_iff {limit : Duration} :
    choices limit = 0 ↔ ∃ k, 0 < k ∧ limit.millis = k * 2 ^ 64 := by
  rw [choices_eq]
  constructor
  · intro none
    exact ⟨limit.millis / 2 ^ 64, by omega, by omega⟩
  · rintro ⟨k, positive, same⟩
    omega

/-- The longest length is short of a thousand times what 64 bits can count. -/
theorem millis_lt {d : Duration} (within : d.nanoseconds ≤ Duration.longest.nanoseconds) :
    d.millis < 1000 * 2 ^ 64 := by
  have most : Duration.longest.nanoseconds = 18446744073709551615999999999 := by decide
  unfold Duration.millis
  omega

/-- A number from the range gives a delay below the limit, or below a millisecond. -/
theorem ofMillis_lt {limit : Duration} {n : Nat} (below : n < choices limit) :
    (Duration.ofMillis n).nanoseconds <
      max limit.nanoseconds (Duration.ofMillis 1).nanoseconds := by
  -- Cutting only lowers a count, so the last number of the range stays below the whole milliseconds.
  have few : choices limit ≤ max limit.millis 1 := Nat.mod_le _ _
  have whole : limit.millis * 1000000 ≤ limit.nanoseconds := Nat.div_mul_le_self _ _
  simp only [Duration.ofMillis]
  omega

theorem drawDelay_eq_error {limit : Duration} (none : choices limit = 0) (draw : Nat) :
    drawDelay limit draw = .error "cannot sample empty range" :=
  if_pos none

theorem drawDelay_eq_ok {limit : Duration} (some : choices limit ≠ 0) (draw : Nat) :
    drawDelay limit draw = .ok (.ofMillis (min draw (choices limit - 1))) :=
  if_neg some

theorem drawDelay_inside {limit : Duration} {n : Nat} (below : n < choices limit) :
    drawDelay limit n = .ok (.ofMillis n) := by
  rw [drawDelay_eq_ok (by omega), Nat.min_eq_left (by omega)]

/-- The draws stand for all that a generator may give. -/
theorem drawDelay_iff_sample {limit : Duration} {o : Except Panic Duration} :
    (∃ draw, drawDelay limit draw = o) ↔
      ∃ sample, Sample (choices limit) sample ∧ o = sample.map .ofMillis := by
  constructor
  · rintro ⟨draw, rfl⟩
    by_cases none : choices limit = 0
    · exact ⟨_, .empty none, drawDelay_eq_error none draw⟩
    · have below : min draw (choices limit - 1) < choices limit := by omega
      exact ⟨_, .inside below, drawDelay_eq_ok none draw⟩
  · rintro ⟨sample, sampled, rfl⟩
    cases sampled with
    | empty none => exact ⟨0, drawDelay_eq_error none 0⟩
    | inside below => exact ⟨_, drawDelay_inside below⟩

variable {V : Type} {r : Replica V} {limit : Duration}

/-- What is known of a replica that is given a random delay under a limit. -/
structure Delayed (r : Replica V) (limit : Duration) : Prop where
  /-- The draws stand for all that a generator may give, and set nothing but the delay. -/
  sampled : ∀ o, (∃ draw, r.withRandomDelay limit draw = o) ↔
    ∃ sample, Sample (max limit.millis 1 % 2 ^ 64) sample ∧
      o = sample.map fun n => { r with delay := .ofMillis n }
  /-- The range is empty if cutting the milliseconds to 64 bits leaves none of them. -/
  panics_iff : ∀ draw, (∃ p, r.withRandomDelay limit draw = .error p) ↔
    ∃ k, 0 < k ∧ k < 1000 ∧ limit.millis = k * 2 ^ 64
  below : ∀ draw r', r.withRandomDelay limit draw = .ok r' →
    r'.delay.nanoseconds < max limit.nanoseconds (Duration.ofMillis 1).nanoseconds

theorem withRandomDelay_iff_sample {o : Except Panic (Replica V)} :
    (∃ draw, r.withRandomDelay limit draw = o) ↔
      ∃ sample, Sample (choices limit) sample ∧
        o = sample.map fun n => { r with delay := .ofMillis n } := by
  have each (sample : Except Panic Nat) : (sample.map .ofMillis).map (fun delay =>
      { r with delay }) = sample.map fun n => { r with delay := .ofMillis n } := by
    cases sample <;> rfl
  constructor
  · rintro ⟨draw, rfl⟩
    obtain ⟨sample, sampled, same⟩ := drawDelay_iff_sample.mp ⟨draw, rfl⟩
    exact ⟨sample, sampled, by rw [withRandomDelay, same, each]⟩
  · rintro ⟨sample, sampled, rfl⟩
    obtain ⟨draw, same⟩ := drawDelay_iff_sample.mpr ⟨sample, sampled, rfl⟩
    exact ⟨draw, by rw [withRandomDelay, same, each]⟩

theorem withRandomDelay_eq_error_iff {draw : Nat} :
    (∃ p, r.withRandomDelay limit draw = .error p) ↔ choices limit = 0 := by
  by_cases none : choices limit = 0
  · simp [withRandomDelay, drawDelay_eq_error none, none, Except.map]
  · simp [withRandomDelay, drawDelay_eq_ok none, none, Except.map]

theorem withRandomDelay_lt {draw : Nat} {r' : Replica V}
    (same : r.withRandomDelay limit draw = .ok r') :
    r'.delay.nanoseconds < max limit.nanoseconds (Duration.ofMillis 1).nanoseconds := by
  obtain ⟨sample, sampled, same⟩ := withRandomDelay_iff_sample.mp ⟨draw, same⟩
  cases sampled with
  | empty => cases same
  | inside below =>
    cases same
    exact ofMillis_lt below

theorem delayed (within : limit.nanoseconds ≤ Duration.longest.nanoseconds) : r.Delayed limit := by
  constructor
  · exact fun o => withRandomDelay_iff_sample
  · intro draw
    have few := millis_lt within
    rw [withRandomDelay_eq_error_iff, choices_eq_zero_iff]
    refine exists_congr fun k => ?_
    omega
  · exact fun draw r' => withRandomDelay_lt

end Quorate.Replica

namespace Quorate.Read

open Replica

section

variable {args : Arguments}

/-- The replica at a position, with the delay that the draw of that position gives. -/
def memberAt (args : Arguments) (draw : Nat → Nat) (indexed : String × Nat) : Member Payload where
  replica :=
    { reply := payload? indexed.1
      delay := .ofMillis (min (draw indexed.2) (max args.maxDelayMs 1 - 1))
      fault := if args.failing.contains indexed.2 then ⟨true, .fail⟩ else .never }
  origin := "replica " ++ toString indexed.2

/-- There is a delay to draw for every replica. -/
theorem members_eq_map (fits : args.maxDelayMs < 2 ^ 64) (draw : Nat → Nat) :
    members args draw = .ok (args.replies.zipIdx.map (memberAt args draw)) := by
  have some : choices (.ofMillis args.maxDelayMs) ≠ 0 := by
    rw [choices_ofMillis fits]
    omega
  have each (indexed : String × Nat) : (do
      let delay ← drawDelay (.ofMillis args.maxDelayMs) (draw indexed.2)
      let fault : Fault := if args.failing.contains indexed.2 then ⟨true, .fail⟩ else .never
      .ok ⟨⟨payload? indexed.1, delay, fault⟩, "replica " ++ toString indexed.2⟩) =
        (.ok (memberAt args draw indexed) : Except Panic (Member Payload)) := by
    rw [drawDelay_eq_ok some, choices_ofMillis fits]
    rfl
  unfold members
  simp only [each]
  exact List.mapM_pure

/-- The delays of the replicas, in milliseconds, are any numbers from the range. -/
theorem members_delays_iff (fits : args.maxDelayMs < 2 ^ 64) {delays : List Duration} :
    (∃ draw ms, members args draw = .ok ms ∧ ms.map (·.replica.delay) = delays) ↔
      delays.length = args.replies.length ∧
        ∀ delay ∈ delays, ∃ n, n < max args.maxDelayMs 1 ∧ delay = .ofMillis n := by
  constructor
  · rintro ⟨draw, ms, same, rfl⟩
    cases (members_eq_map fits draw).symm.trans same
    refine ⟨by simp, fun delay included => ?_⟩
    simp only [List.map_map, List.mem_map, Function.comp_apply, memberAt] at included
    obtain ⟨indexed, -, rfl⟩ := included
    exact ⟨_, by omega, rfl⟩
  · intro ⟨counted, inside⟩
    -- A number from the range is its own draw.
    refine ⟨fun i => (delays.getD i default).millis, _, members_eq_map fits _, ?_⟩
    refine List.ext_getElem (by simp [counted]) fun i _ there => ?_
    obtain ⟨n, below, same⟩ := inside delays[i] (List.getElem_mem there)
    have least : min n (max args.maxDelayMs 1 - 1) = n := by omega
    simp [memberAt, there, same, least]

end

/-- What is known of the delays that the command draws for its replicas. -/
structure Drawn (args : Arguments) : Prop where
  /-- What is cut to 64 bits fits in them, so there is something to draw from. -/
  range : choices (.ofMillis args.maxDelayMs) = max args.maxDelayMs 1
  replicas : ∀ draw, ∃ ms, members args draw = .ok ms
  /-- The delays may be any numbers of milliseconds below the limit, each apart from the others, and
  nothing else. A limit of zero stands for one. -/
  delays_iff : ∀ delays, (∃ draw ms, members args draw = .ok ms ∧
    ms.map (·.replica.delay) = delays) ↔ delays.length = args.replies.length ∧
      ∀ delay ∈ delays, ∃ n, n < max args.maxDelayMs 1 ∧ delay = .ofMillis n

/-- A random delay is drawn below its limit, if the milliseconds of the limit leave something to
draw from when they are cut to 64 bits. Those of the command always do. -/
theorem random_delays_in_range {V : Type} (r : Replica V) {limit : Duration}
    (within : limit.nanoseconds ≤ Duration.longest.nanoseconds) {args : Arguments}
    (fits : args.maxDelayMs < 2 ^ 64) : r.Delayed limit ∧ Drawn args := by
  refine ⟨delayed within, ?_⟩
  constructor
  · exact choices_ofMillis fits
  · exact fun draw => ⟨_, members_eq_map fits draw⟩
  · exact fun delays => members_delays_iff fits

namespace Wrapped

/-- As many milliseconds as there are numbers of 64 bits. -/
def limit : Duration := .ofParts 18446744073709551 616000000

def replica : Replica Payload := ⟨some ⟨"a"⟩, ⟨0⟩, ⟨true, .hang⟩⟩

def args : Arguments := ⟨"quorum.json", ["b", "", "b"], [1], 2 ^ 64 - 1, false⟩

/-- The command draws even the longest delays, and a replica is refused a delay under a limit that
is a little longer. -/
theorem longer_limit_panics : limit.nanoseconds ≤ Duration.longest.nanoseconds ∧
    args.maxDelayMs < 2 ^ 64 ∧ (∃ p, replica.withRandomDelay limit 0 = .error p) ∧
    ∃ draw ms, members args draw = .ok ms ∧
      ms.map (·.replica.delay) = [.ofMillis (2 ^ 64 - 2), .ofMillis 0, .ofMillis 7] := by
  have within : limit.nanoseconds ≤ Duration.longest.nanoseconds := by decide
  have fits : args.maxDelayMs < 2 ^ 64 := by decide
  obtain ⟨delayed, drawn⟩ := random_delays_in_range replica within fits
  refine ⟨within, fits, (delayed.panics_iff 0).mpr ⟨1, by decide, by decide, by decide⟩, ?_⟩
  refine (drawn.delays_iff _).mpr ⟨rfl, ?_⟩
  simp only [List.forall_mem_cons]
  exact ⟨⟨2 ^ 64 - 2, by decide, rfl⟩, ⟨0, by decide, rfl⟩, ⟨7, by decide, rfl⟩, nofun⟩

end Wrapped

end Quorate.Read
