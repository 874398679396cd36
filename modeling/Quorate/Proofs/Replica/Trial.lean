import Quorate.Proofs.Replica.Withdraw
import Quorate.Replica.Trial

/-! Trials of replicas on every schedule. What a trial comes to depends on the faults and on the
replies of its replicas, but neither on their delays nor on the order in which they reply. -/

set_option autoImplicit false

namespace Quorate.Replica

variable {V : Type} {replica : Replica V} {replicas : List (Replica V)}

section

variable {origin : String}

theorem Member.state?_eq_failed_iff {e : Error} :
    (Member.mk replica origin).state? = some (.failed e) ↔
      replica.fault = ⟨true, .fail⟩ ∧ e = Fault.mocked origin := by
  obtain ⟨reply, delay, active, misbehaviour⟩ := replica
  cases active <;> cases misbehaviour <;>
    simp [Member.state?, Replica.state?, Fault.state?, eq_comm]

theorem Member.state?_eq_none_iff :
    (Member.mk replica origin).state? = none ↔ replica.fault = ⟨true, .hang⟩ := by
  obtain ⟨reply, delay, active, misbehaviour⟩ := replica
  cases active <;> cases misbehaviour <;> simp [Member.state?, Replica.state?, Fault.state?]

theorem Member.replies_eq (sound : replica.fault ≠ ⟨true, .fail⟩) :
    (Member.mk replica origin).replies = !replica.fault.isSilent := by
  obtain ⟨reply, delay, active, misbehaviour⟩ := replica
  cases active <;> cases misbehaviour <;>
    simp [Member.replies, Member.state?, Replica.state?, Fault.state?, Fault.isSilent] at sound ⊢

theorem Member.state?_eq_succeeded (sound : replica.fault ≠ ⟨true, .fail⟩)
    (loud : replica.fault.isSilent = false) :
    (Member.mk replica origin).state? = some (.succeeded replica.reply) := by
  obtain ⟨reply, delay, active, misbehaviour⟩ := replica
  cases active <;> cases misbehaviour <;>
    simp [Member.state?, Replica.state?, Fault.isSilent] at sound loud ⊢

end

namespace Trial

/-- The replicas of a trial, under the name they have in errors. -/
def members (replicas : List (Replica V)) : List (Member V) :=
  replicas.map fun replica => ⟨replica, origin⟩

/-- A trial that begins. -/
def begun [BEq V] (quorum : ThresholdMerger V) (replicas : List (Replica V)) : Reading V :=
  reading ⟨quorum.merge, .build⟩ (members replicas)

/-- The reader has made the merge, and the replicas under these faults have done what they do. -/
def Replied (replicas : List (Replica V)) (faults : Fault → Prop) (s : Reading V) : Prop :=
  (s.answer? 0).isSome ∧ ∀ (i : Nat) (replica : Replica V), replicas[i]? = some replica →
    faults replica.fault → (s.answer? (i + 1)).isSome

/-- Thread `t` ends with the outcome `o`, and goes on until it has if it is `able` to. -/
structure Gets (t : Nat) (o : Outcome (Option V)) (able : Prop) (s : Reading V) : Prop where
  bounded : s.Bounded client
  answer : ∀ answer, s.answer? t = some answer → answer = .ok (.outcome o)
  moves : able → s.answer? t = none → s.Moves client t

/-- What a cancel of a merge that is kept pending comes to: it began at `s`, and the schedule `h`
has led to `s'` since. -/
structure Cancels (replicas : List (Replica V)) (s : Reading V)
    (h : List (Moment (Option V) (Work V) Unit)) (s' : Reading V) : Prop where
  bounded : s'.Bounded client
  moves : s'.answer? s.threads.length = none → s'.Moves client s.threads.length
  /-- The answer is yes just if the results of all replicas were pending when they were asked. Once
  all have acted that ever do, that is just if all of them hang. -/
  answer : ∀ answer, s'.answer? s.threads.length = some answer → ∃ b, answer = .ok (.flag b) ∧
    Withdrawn replicas.length s.threads.length h b ∧
    (Replied replicas (· ≠ ⟨true, .hang⟩) s →
      (b = true ↔ ∀ replica ∈ replicas, replica.fault = ⟨true, .hang⟩))
  gets_cancelled : (s'.answer? s.threads.length).isSome → ∀ timeout h' s'',
    Schedule client Consults (s'.begin (.get replicas.length timeout)) h' s'' →
      Gets s'.threads.length (.error .cancelled) True s''

/-- What a trial comes to in which no replica fails and one is silent. -/
structure Pends (replicas : List (Replica V)) (s : Reading V) : Prop where
  pending : s.store.state? replicas.length = some .pending
  counted : Replied replicas (·.isSilent = false) s →
    ∀ x, s.store.results[replicas.length]? = some x →
      x.completed? = some (replicas.countP fun replica => !replica.fault.isSilent)
  /-- A get gives up when its time is over, unless that lies beyond the end of time. -/
  times_out : ∀ d h s', Schedule client Consults (s.begin (.get replicas.length (some d))) h s' →
    s'.store.state? replicas.length = some .pending ∧
    Gets s.threads.length (.error (.timeout d)) (s'.store.deadline (some d) ≠ none) s'
  cancels : ∀ h s', Schedule client Consults (s.begin (.cancel replicas.length)) h s' →
    Cancels replicas s h s'

/-- What a trial comes to. The reader is thread 0, the replicas follow by position. -/
structure Tried [BEq V] (quorum : ThresholdMerger V) (replicas : List (Replica V))
    (s : Reading V) : Prop where
  bounded : s.Bounded client
  moves : ∀ t ≤ replicas.length, t < s.threads.length → s.answer? t = none → s.Moves client t
  merge : ∀ answer, s.answer? 0 = some answer →
    answer = .ok (.result replicas.length) ∧ replicas.length < s.threads.length
  /-- One replica that fails is enough. -/
  failed : (s.answer? 0).isSome → ∀ (i : Nat) (replica : Replica V), replicas[i]? = some replica →
    replica.fault = ⟨true, .fail⟩ → (s.answer? (i + 1)).isSome →
      s.store.state? replicas.length = some (.failed (.io "Mocked error on replica read"))
  decided : (∀ replica ∈ replicas, replica.fault ≠ ⟨true, .fail⟩) →
    (∀ replica ∈ replicas, replica.fault.isSilent = false) → Replied replicas (fun _ => True) s →
      ∃ x, s.store.results[replicas.length]? = some x ∧
        x.cell.state = .ofOutcome (quorum.merge (replicas.map Replica.reply)) ∧
        x.completed? = some replicas.length
  pends : (∀ replica ∈ replicas, replica.fault ≠ ⟨true, .fail⟩) →
    (∃ replica ∈ replicas, replica.fault.isSilent = true) → (s.answer? 0).isSome → Pends replicas s

theorem members_length : (members replicas).length = replicas.length := List.length_map _

theorem members_get {i : Nat} (position : replicas[i]? = some replica) :
    (members replicas)[i]? = some ⟨replica, origin⟩ := by
  rw [members, List.getElem?_map, position, Option.map_some]

/-- No replica of a trial fails, as far as its merge can see. -/
theorem members_sound (sound : ∀ replica ∈ replicas, replica.fault ≠ ⟨true, .fail⟩) :
    ∀ member ∈ members replicas, ∀ e, member.state? ≠ some (.failed e) := by
  intro member listed e fails
  obtain ⟨replica, included, rfl⟩ := List.mem_map.mp listed
  exact sound replica included (Member.state?_eq_failed_iff.mp fails).1

theorem members_replies (sound : ∀ replica ∈ replicas, replica.fault ≠ ⟨true, .fail⟩) :
    (members replicas).countP Member.replies =
      replicas.countP fun replica => !replica.fault.isSilent := by
  rw [members, List.countP_map]
  apply List.countP_congr
  intro replica included
  rw [← Member.replies_eq (sound replica included)]
  rfl

theorem members_silent (sound : ∀ replica ∈ replicas, replica.fault ≠ ⟨true, .fail⟩)
    (included : replica ∈ replicas) (silent : replica.fault.isSilent = true) :
    ∃ member ∈ members replicas, member.replies = false := by
  refine ⟨⟨replica, origin⟩, List.mem_map_of_mem included, ?_⟩
  rw [Member.replies_eq (sound replica included), silent]
  rfl

section

variable {merge : List (Option V) → Outcome (Option V)} {s s' : Reading V}
  {h h' : List (Moment (Option V) (Work V) Unit)} {answer : Return (Option V)}

/-- A replica that does not hang ends its result. -/
theorem terminal_of_acts (unfolds : Unfolds merge (members replicas) (fun _ => False) h s)
    (finished : s.answer? 0 = some answer) {i : Nat} (position : replicas[i]? = some replica)
    (acts : replica.fault ≠ ⟨true, .hang⟩) {ended : Return (Option V)}
    (done : s.answer? (i + 1) = some ended) : s.store.Terminal i := by
  have here := unfolds.replied finished (members_get position) done
  cases moves : (Member.mk replica origin).state? with
  | none => exact absurd (Member.state?_eq_none_iff.mp moves) acts
  | some state =>
    rw [moves] at here
    refine ⟨state, here, fun pending => ?_⟩
    have ended := Member.terminal moves
    rw [pending] at ended
    cases ended

theorem cancels_of_unfolds (unfolds : Unfolds merge (members replicas) (fun _ => False) h s)
    (finished : s.answer? 0 = some answer)
    (sound : ∀ replica ∈ replicas, replica.fault ≠ ⟨true, .fail⟩) (included : replica ∈ replicas)
    (silent : replica.fault.isSilent = true)
    (schedule : Schedule client Consults (s.begin (.cancel replicas.length)) h' s') :
    Cancels replicas s h' s' := by
  rw [← members_length] at schedule
  obtain ⟨member, included, silent⟩ := members_silent sound included silent
  obtain ⟨thread, here, withdraws⟩ :=
    unfolds.withdraws finished (members_sound sound) included silent schedule
  have unfolded := (unfolds.withdraw finished (List.ne_nil_of_mem included)).schedule schedule
  refine ⟨unfolded.bounded, fun busy => ?_, fun answer' ended => ?_, fun ended => ?_⟩
  · obtain ⟨μ, found⟩ := System.moment?_of_busy (List.getElem?_eq_some_iff.mp here).1 busy
    cases here.symm.trans (System.moment?_eq_some found).2.2
    exact unfolded.layered.moves found fun r timeout entry frame =>
      absurd frame (withdraws.going r timeout _ entry)
  · cases here.symm.trans (System.answer?_eq_some_iff.mp ended)
    obtain ⟨-, b, rfl, withdrawn, granted, refused⟩ := withdraws.answers
    rw [members_length] at withdrawn
    refine ⟨b, rfl, withdrawn, fun ⟨_, done⟩ => ⟨fun yes replica included => ?_, fun hang => ?_⟩⟩
    · -- a replica that does not hang has ended its result before
      apply Decidable.byContradiction
      intro acts
      obtain ⟨i, position⟩ := List.mem_iff_getElem?.mp included
      obtain ⟨ended, done⟩ := Option.isSome_iff_exists.mp (done i replica position acts)
      have bound := (List.getElem?_eq_some_iff.mp (members_get position)).1
      have terminal := terminal_of_acts unfolds finished position acts done
      rw [refused ⟨i, bound, terminal⟩] at yes
      cases yes
    · apply granted
      intro member listed
      obtain ⟨replica, included, rfl⟩ := List.mem_map.mp listed
      exact Member.state?_eq_none_iff.mpr (hang replica included)
  · intro timeout h'' s'' schedule'
    obtain ⟨answer', ended⟩ := Option.isSome_iff_exists.mp ended
    cases here.symm.trans (System.answer?_eq_some_iff.mp ended)
    have cancelled := withdraws.answers.1
    have finished' := schedule.answered (System.answer?_begin finished _)
    rw [← members_length] at schedule'
    have still (h₁ : List (Moment (Option V) (Work V) Unit)) (s₁ : Reading V) (schedule :
        Schedule client Consults (s'.begin (.get (members replicas).length timeout)) h₁ s₁) :
        s₁.store.state? (members replicas).length = some .cancelled :=
      schedule.store_later.state? cancelled (by simp)
    obtain ⟨answers, moves⟩ := unfolded.glances finished' schedule' still
    have again := unfolded.consult finished' timeout
    refine ⟨(again.schedule schedule').bounded, fun answer ended => ?_,
      fun _ => moves (.inl (by simp))⟩
    obtain ⟨o, rfl, outcome | ⟨pending, -⟩⟩ := answers answer ended
    · cases outcome
      rfl
    · cases pending

theorem pends_of_unfolds (unfolds : Unfolds merge (members replicas) (fun _ => False) h s)
    (finished : s.answer? 0 = some answer)
    (sound : ∀ replica ∈ replicas, replica.fault ≠ ⟨true, .fail⟩) (included : replica ∈ replicas)
    (silent : replica.fault.isSilent = true) : Pends replicas s := by
  obtain ⟨member, included', silent'⟩ := members_silent sound included silent
  have made : (members replicas).length < s.store.results.length := by
    rw [(unfolds.over finished).2.1]
    exact Nat.lt_succ_self _
  have pends {h₁ : List (Moment (Option V) (Work V) Unit)} {s₁ : Reading V}
      (unfolds : Unfolds merge (members replicas) (fun _ => False) h₁ s₁)
      (later : s.store.Later s₁.store) := unfolds.pends unfolds.calm (later.there made)
    (members_sound sound) included' silent'
  obtain ⟨x, there, pending, stands⟩ := pends unfolds (.refl _)
  rw [members_length] at there
  refine ⟨by rw [Store.state?_there there, pending], fun ⟨_, done⟩ x' there' => ?_,
    fun d h' s' schedule => ?_,
    fun h' s' => cancels_of_unfolds unfolds finished sound included silent⟩
  · cases there.symm.trans there'
    rw [← members_replies sound]
    refine unfolds.counts finished (fun i member here replies => ?_) stands pending
    rw [members, List.getElem?_map] at here
    obtain ⟨replica, position, rfl⟩ := Option.map_eq_some_iff.mp here
    rw [Member.replies_eq (sound replica (List.mem_of_getElem? position))] at replies
    exact Option.isSome_iff_exists.mp (done i replica position (by simpa using replies))
  · rw [← members_length] at schedule ⊢
    have begun := unfolds.consult finished (some d)
    have still (h₁ : List (Moment (Option V) (Work V) Unit)) (s₁ : Reading V) (schedule :
        Schedule client Consults (s.begin (.get (members replicas).length (some d))) h₁ s₁) :
        s₁.store.state? (members replicas).length = some .pending := by
      obtain ⟨x, there, pending, -⟩ := pends (begun.schedule schedule) schedule.store_later
      rw [Store.state?_there there, pending]
    obtain ⟨answers, moves⟩ := unfolds.glances finished schedule still
    refine ⟨still _ _ schedule, (begun.schedule schedule).bounded, fun answer ended => ?_,
      fun limited => moves (.inr fun μ member _ => ?_)⟩
    · obtain ⟨o, rfl, outcome | ⟨-, d, same, rfl⟩⟩ := answers answer ended
      · cases outcome
      · cases same
        rfl
    · exact deadline_ne_none limited (schedule.past μ member)

end

/-- On every schedule a trial comes to what the faults and the replies of its replicas say. -/
theorem schedule_independent [BEq V] (quorum : ThresholdMerger V) (replicas : List (Replica V))
    {h : List (Moment (Option V) (Work V) Unit)} {s : Reading V}
    (schedule : Schedule client Consults (begun quorum replicas) h s) :
    Tried quorum replicas s := by
  have unfolds : Unfolds quorum.merge (members replicas) (fun _ => False) h s :=
    (Unfolds.start quorum.merge (members replicas)).schedule schedule
  constructor
  · exact unfolds.bounded
  · intro t inside there busy
    rw [← members_length] at inside
    exact unfolds.moves there inside busy
  · intro answer finished
    obtain ⟨same, -, -, count⟩ := unfolds.over finished
    rw [members_length] at same count
    exact ⟨same, count⟩
  · intro finished i replica position fails done
    obtain ⟨answer, finished⟩ := Option.isSome_iff_exists.mp finished
    obtain ⟨ended, done⟩ := Option.isSome_iff_exists.mp done
    obtain ⟨member, listed, e, failed, state⟩ := unfolds.failed finished (members_get position)
      (Member.state?_eq_failed_iff.mpr ⟨fails, rfl⟩) done
    obtain ⟨replica, -, rfl⟩ := List.mem_map.mp listed
    obtain ⟨-, rfl⟩ := Member.state?_eq_failed_iff.mp failed
    rw [members_length] at state
    exact state
  · intro sound loud ⟨finished, done⟩
    obtain ⟨answer, finished⟩ := Option.isSome_iff_exists.mp finished
    have reply : Reply (members replicas) (replicas.map Replica.reply) := by
      rw [Reply, members, List.forall₂_map_left_iff, List.forall₂_map_right_iff, List.forall₂_same]
      exact fun replica included =>
        Member.state?_eq_succeeded (sound replica included) (loud replica included)
    rw [← members_length]
    refine unfolds.merged finished reply fun i bound => ?_
    rw [members_length] at bound
    exact Option.isSome_iff_exists.mp (done i _ (List.getElem?_eq_getElem bound) trivial)
  · intro sound ⟨replica, included, silent⟩ finished
    obtain ⟨answer, finished⟩ := Option.isSome_iff_exists.mp finished
    exact pends_of_unfolds unfolds finished sound included silent

/-- One vote is enough. -/
def lone : ThresholdMerger Bool := ⟨1, fun b => if b then 1 else 0, by decide⟩

namespace Half

/-- A replica that replies, and one that hangs. -/
def pair : List (Replica Bool) := [⟨some true, ⟨0⟩, .never⟩, ⟨none, ⟨0⟩, ⟨true, .hang⟩⟩]

def replied : List (Moment (Option Bool) (Work Bool) Unit) × Reading Bool :=
  (begun lone pair).drive client (List.replicate 24 0 ++ List.replicate 16 1)

def cancelled : List (Moment (Option Bool) (Work Bool) Unit) × Reading Bool :=
  (replied.2.begin (.cancel 2)).drive client (List.replicate 24 3)

theorem one_counted_cancel_refused :
    Schedule client Consults (begun lone pair) replied.1 replied.2 ∧
      (∃ x, replied.2.store.results[2]? = some x ∧ x.cell.state = .pending ∧
        x.completed? = some 1) ∧
      Schedule client Consults (replied.2.begin (.cancel 2)) cancelled.1 cancelled.2 ∧
      cancelled.2.answer? 3 = some (.ok (.flag false)) ∧
      ∀ timeout h s, Schedule client Consults (cancelled.2.begin (.get 2 timeout)) h s →
        Gets 4 (.error .cancelled) True s := by
  have schedule : Schedule client Consults (begun lone pair) replied.1 replied.2 := .drive _ _
  have cancels : Schedule client Consults (replied.2.begin (.cancel 2)) cancelled.1 cancelled.2 :=
    .drive _ _
  have pends := (schedule_independent lone pair schedule).pends (by decide) (by decide) rfl
  have done (faults : Fault → Prop) (acts : ¬ faults ⟨true, .hang⟩) :
      Replied pair faults replied.2 := by
    refine ⟨rfl, fun i replica position here => ?_⟩
    match i, position with
    | 0, _ => rfl
    | 1, rfl => exact absurd here acts
  obtain ⟨x, there, pending⟩ := Option.map_eq_some_iff.mp pends.pending
  have ended : (cancelled.2.answer? 3).isSome := rfl
  obtain ⟨answer, finished⟩ := Option.isSome_iff_exists.mp ended
  obtain ⟨b, rfl, -, agrees⟩ := (pends.cancels _ _ cancels).answer answer finished
  have refused : b = false := by
    apply Bool.eq_false_iff.mpr
    intro granted
    have hang := (agrees (done _ (by simp))).mp granted ⟨some true, ⟨0⟩, .never⟩ List.mem_cons_self
    cases hang
  refine ⟨schedule, ⟨x, there, pending, ?_⟩, cancels, refused ▸ finished, ?_⟩
  · exact pends.counted (done _ (by decide)) x there
  · exact (pends.cancels _ _ cancels).gets_cancelled ended

end Half

namespace Late

/-- A replica that cancels its result after a while. -/
def single : List (Replica Bool) := [⟨some true, .ofMillis 400, ⟨true, .cancel⟩⟩]

/-- The merge is made, and the replica has not woken up. -/
def made : List (Moment (Option Bool) (Work Bool) Unit) × Reading Bool :=
  (begun lone single).drive client (List.replicate 16 0)

def cancelled : List (Moment (Option Bool) (Work Bool) Unit) × Reading Bool :=
  (made.2.begin (.cancel 1)).drive client (List.replicate 16 2)

/-- That all replicas have replied that reply is not enough for the answer of a cancel to tell
whether all of them hang: one that cancels may not have done so yet. -/
theorem cancel_granted_without_hang :
    ¬ ∀ (quorum : ThresholdMerger Bool) (replicas : List (Replica Bool)) h s h' s' b,
      Schedule client Consults (begun quorum replicas) h s →
      (∀ replica ∈ replicas, replica.fault ≠ ⟨true, .fail⟩) →
      (∃ replica ∈ replicas, replica.fault.isSilent = true) →
      Replied replicas (·.isSilent = false) s →
      Schedule client Consults (s.begin (.cancel replicas.length)) h' s' →
      s'.answer? s.threads.length = some (.ok (.flag b)) →
      (b = true ↔ ∀ replica ∈ replicas, replica.fault = ⟨true, .hang⟩) := by
  intro claimed
  have schedule : Schedule client Consults (begun lone single) made.1 made.2 := .drive _ _
  have cancels : Schedule client Consults (made.2.begin (.cancel 1)) cancelled.1 cancelled.2 :=
    .drive _ _
  have replied : Replied single (·.isSilent = false) made.2 := by
    refine ⟨rfl, fun i replica position loud => ?_⟩
    match i, position with
    | 0, rfl => cases loud
  have granted : cancelled.2.answer? 2 = some (.ok (.flag true)) := rfl
  have hang := (claimed lone single _ _ _ _ true schedule (by decide) (by decide) replied cancels
    granted).mp rfl _ List.mem_cons_self
  cases hang

end Late

end Trial

end Quorate.Replica
