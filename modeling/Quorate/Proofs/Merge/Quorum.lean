import Quorate.Proofs.Merge.Outcome
import Quorate.Proofs.Merge.Threshold

/-! A quorum read: a threshold merge over the replies of results. What it returns was agreed on by
enough of them, and the replies alone decide what it returns, in whatever order they come. -/

set_option autoImplicit false

namespace Quorate

variable {V κ σ : Type}

section

variable {client : Client V κ σ} {s s₁ : System V κ σ} {m : ResultId} {sources : List ResultId}
  {h : List (Moment V κ σ)} {merge : List V → Outcome V}

theorem State.ofOutcome_eq_succeeded {o : Outcome V} {v : V}
    (same : State.ofOutcome o = .succeeded v) : o = .ok v := by
  cases o <;> cases same
  rfl

/-- A merge with a plain merger that always returns ends with what the merger makes of all values,
if all sources have succeeded and nothing cancelled it, and it succeeds with nothing else. -/
theorem Built.merged
    (built : Built client Call.Plain (.plain fun votes => .ok (merge votes)) sources m s)
    (run : Run client Call.Plain s h s₁) :
    ∃ x, s₁.store.results[m]? = some x ∧
      (∀ v, x.cell.state = .succeeded v →
        ∃ votes, s₁.store.Votes sources votes ∧ merge votes = .ok v) ∧
      ∀ votes, s₁.store.Votes sources votes → s₁.Quiet →
        .cancelled ∉ h.filterMap (Moment.event? m) → x.cell.state = .ofOutcome (merge votes) := by
  obtain ⟨x, there, stands⟩ := built.stands run
  generalize (atOnce sources).toList ++ h.filterMap (Moment.merged? m) = calls at stands
  refine ⟨x, there, fun v succeeded => ?_, fun votes all quiet calm => ?_⟩
  · generalize x.cell.state = state at stands succeeded
    cases stands with
    | merged all => exact ⟨_, all, State.ofOutcome_eq_succeeded succeeded⟩
    | waits | failed | cancelled => cases succeeded
  · generalize x.cell.state = state at stands
    cases stands with
    | waits idle => exact absurd all ((idle quiet).2.1 votes)
    | merged all' => rw [all.unique all']
    | failed member gives => exact absurd gives (all.not_failed member)
    | cancelled member => exact absurd member calm

end

/-- The results whose votes are counted. -/
theorem Store.Votes.counted {s : Store (Option V) κ σ} {sources : List ResultId}
    {votes : List (Option V)} (all : s.Votes sources votes) (counts : V → Bool) :
    ∃ voters : List ResultId, voters.Sublist sources ∧
      voters.length = (ThresholdMerger.cast votes).countP counts ∧
      ∀ r ∈ voters, ∃ w, counts w = true ∧ s.Gives r (.ok (some w)) := by
  induction all with
  | nil => exact ⟨[], .slnil, rfl, by simp⟩
  | @cons r vote sources votes gives _ ih =>
    obtain ⟨voters, sublist, length, given⟩ := ih
    cases vote with
    | none => exact ⟨voters, sublist.cons r, length, given⟩
    | some w =>
      by_cases counted : counts w = true
      · refine ⟨r :: voters, sublist.cons_cons r, by simp [counted, length], fun r' member => ?_⟩
        rcases List.mem_cons.mp member with rfl | member
        · exact ⟨w, counted, gives⟩
        · exact given r' member
      · exact ⟨voters, sublist.cons r, by simp [counted, length], given⟩

section

variable [BEq V]

/-- At least `count` of the results have succeeded with a value equal to `v`. -/
def Store.Agree (s : Store (Option V) κ σ) (sources : List ResultId) (count : Nat) (v : V) : Prop :=
  ∃ agreeing : List ResultId, agreeing.Nodup ∧ agreeing ⊆ sources ∧ count ≤ agreeing.length ∧
    ∀ r ∈ agreeing, ∃ w, (w == v) = true ∧ s.Gives r (.ok (some w))

def ThresholdMerger.merger (quorum : ThresholdMerger V) : Merger (Option V) κ :=
  .plain fun votes => .ok (quorum.merge votes)

variable {client : Client (Option V) κ σ} {s s₁ : System (Option V) κ σ} {m : ResultId}
  {sources : List ResultId} {h : List (Moment (Option V) κ σ)} {quorum : ThresholdMerger V}

/-- A threshold merge over results of the library returns a value only if all of them have succeeded
and enough of them with that value. Once all have succeeded without a cancel of the merge, and every
thread has ended, as it does in any order of steps, the votes by position decide what the merge is
and stays. -/
theorem quorum_read_exact (built : Built client Call.Plain quorum.merger sources m s)
    (distinct : sources.Nodup) (run : Run client Call.Plain s h s₁)
    (faithful : ∀ votes, s₁.store.Votes sources votes →
      quorum.voter.Faithful (ThresholdMerger.cast votes)) :
    s₁.Ends client ∧ ∃ x, s₁.store.results[m]? = some x ∧
      (∀ v, x.cell.state = .succeeded (some v) →
        (∃ votes, s₁.store.Votes sources votes) ∧ s₁.store.Agree sources quorum.threshold v) ∧
      ∀ votes, s₁.store.Votes sources votes → s₁.Quiet →
        .cancelled ∉ h.filterMap (Moment.event? m) →
        x.cell.state = .ofOutcome (quorum.merge votes) ∧ quorum.Exact votes (quorum.merge votes) ∧
          ∀ h' s₂, Run client Call.Plain s₁ h' s₂ →
            ∃ x', s₂.store.results[m]? = some x' ∧ x'.cell.state = x.cell.state := by
  obtain ⟨x, there, sound, complete⟩ := built.merged run
  refine ⟨(run.ready built.ready).ends, x, there, fun v succeeded => ?_,
    fun votes all quiet calm => ?_⟩
  · obtain ⟨votes, all, merged⟩ := sound _ succeeded
    obtain ⟨-, supported⟩ := ThresholdMerger.merge_sound (faithful votes all) merged
    obtain ⟨agreeing, sublist, length, given⟩ := all.counted fun w => w == v
    exact ⟨⟨votes, all⟩, agreeing, sublist.nodup distinct, sublist.subset,
      by rw [length]; exact supported, given⟩
  · have decided := complete votes all quiet calm
    refine ⟨decided, ThresholdMerger.merge_exact (faithful votes all), fun h' s₂ next => ?_⟩
    obtain ⟨x', there', later⟩ := next.store_later m x there
    refine ⟨x', there', later.state_of_ne fun pending => ?_⟩
    -- the merge has an outcome, so it is not pending and stays as it is
    have terminal := State.isPending_ofOutcome (quorum.merge votes)
    rw [← decided, pending] at terminal
    cases terminal

end

namespace TwoOfThree

def client : Client (Option Bool) Unit Unit := .panicking (Option Bool) "unused"

def quorum : ThresholdMerger Bool := ⟨2, fun b => if b then 1 else 0, by decide⟩

def before : System (Option Bool) Unit Unit :=
  ((System.mk (.empty ()) []).perform client
    [(.create .settable, 1), (.create .settable, 1), (.create .settable, 1)]).2.begin
      (.build quorum.merger [0, 1, 2])

def made : System (Option Bool) Unit Unit := (before.drive client [3]).2

def attached : List (Moment (Option Bool) Unit Unit) × System (Option Bool) Unit Unit :=
  made.drive client (List.replicate 7 3)

/-- The last source replies first. -/
def first : List (Moment (Option Bool) Unit Unit) × System (Option Bool) Unit Unit :=
  attached.2.call client (.complete 2 (.succeeded (some true))) 8

/-- Another source disagrees. -/
def second : List (Moment (Option Bool) Unit Unit) × System (Option Bool) Unit Unit :=
  first.2.call client (.complete 0 (.succeeded (some false))) 8

def third : List (Moment (Option Bool) Unit Unit) × System (Option Bool) Unit Unit :=
  second.2.call client (.complete 1 (.succeeded (some true))) 9

theorem agreed_value_read :
    Built client Call.Plain quorum.merger [0, 1, 2] 3 made ∧
      Run client Call.Plain made (attached.1 ++ first.1 ++ second.1 ++ third.1) third.2 ∧
      third.2.Quiet ∧ ([0, 1, 2] : List ResultId).Nodup ∧
      (∀ votes, third.2.store.Votes [0, 1, 2] votes →
        quorum.voter.Faithful (ThresholdMerger.cast votes)) ∧
      third.2.store.Votes [0, 1, 2] [some false, some true, some true] ∧
      ∃ x, third.2.store.results[3]? = some x ∧ x.cell.state = .succeeded (some true) := by
  have silent (μ : Moment (Option Bool) Unit Unit) (c : Call (Option Bool) Unit)
      (made : μ.call? client = some c) : c.Plain μ.store := by
    rw [client, Client.panicking_call?] at made
    cases made
  have create (s : System (Option Bool) Unit Unit) :=
    Run.call silent s (c := .create .settable) trivial 1
  have reply (s : System (Option Bool) Unit Unit) (r : ResultId) (vote : Option Bool)
      (takes : s.store.Takes r (.succeeded vote)) (count : Nat) :=
    Run.call silent s (c := .complete r (.succeeded vote)) takes count
  have reached : Run client Call.Plain ⟨.empty (), []⟩ _ before :=
    (((create _).trans (create _)).trans (create _)).begin _ ⟨⟨_, rfl⟩, by decide⟩
  have built : Built client Call.Plain quorum.merger [0, 1, 2] 3 made :=
    .intro reached (t := 3) rfl rfl rfl rfl rfl
  have run : Run client Call.Plain made (attached.1 ++ first.1 ++ second.1 ++ third.1) third.2 :=
    (((Run.drive silent made _).trans (reply attached.2 2 (some true) ⟨_, rfl, rfl⟩ 8)).trans
      (reply first.2 0 (some false) ⟨_, rfl, rfl⟩ 8)).trans
      (reply second.2 1 (some true) ⟨_, rfl, rfl⟩ 9)
  have quiet : third.2.Quiet := by
    have ended : (third.2.threads.all fun thread => thread.frames.isEmpty) = true := rfl
    exact fun thread member => List.isEmpty_iff.mp (List.all_eq_true.mp ended thread member)
  have faithful (votes : List (Option Bool)) (_ : third.2.store.Votes [0, 1, 2] votes) :
      quorum.voter.Faithful (ThresholdMerger.cast votes) := by
    intro a _ b _
    cases a <;> cases b <;> decide
  have all : third.2.store.Votes [0, 1, 2] [some false, some true, some true] :=
    .cons ⟨_, rfl, rfl, rfl, rfl⟩ (.cons ⟨_, rfl, rfl, rfl, rfl⟩
      (.cons ⟨_, rfl, rfl, rfl, rfl⟩ .nil))
  have calm : .cancelled ∉
      (attached.1 ++ first.1 ++ second.1 ++ third.1).filterMap (Moment.event? 3) := by
    have events : (attached.1 ++ first.1 ++ second.1 ++ third.1).filterMap (Moment.event? 3) =
        [.arrived 2 (.ok (some true)), .arrived 0 (.ok (some false)),
          .arrived 1 (.ok (some true))] := rfl
    rw [events]
    simp
  obtain ⟨-, x, there, -, decided⟩ := quorum_read_exact built (by decide) run faithful
  refine ⟨built, run, quiet, by decide, faithful, all, x, there, ?_⟩
  exact (decided _ all quiet calm).1

end TwoOfThree

end Quorate
