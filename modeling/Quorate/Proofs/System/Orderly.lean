import Quorate.Proofs.System.Sound
import Quorate.Proofs.System.Weight

/-! Who works on a result. The lock of a merge is held exactly while a frame runs its merger, and
then the merge is pending. The callbacks of a result are taken out once, by the frame that ends its
pending state, and readers are told by that frame only. -/

set_option autoImplicit false

namespace Quorate

variable {V κ σ : Type}

/-- Counts the frames that run the merger of a result. -/
def Frame.merges (r : ResultId) : Frame V κ → Nat
  | .merging r' => if r' = r then 1 else 0
  | _ => 0

/-- Counts the frames that have callbacks of a result to deliver. -/
def Frame.delivers (r : ResultId) : Frame V κ → Nat
  | .deliver r' _ _ _ | .sweep r' _ _ _ => if r' = r then 1 else 0
  | _ => 0

/-- How a result stands to the number of frames that run its merger, and to the number of those
that deliver its callbacks. -/
structure Result.Orderly (x : Result V κ) (merging delivering : Nat) : Prop where
  lock : merging = if x.isHeld then 1 else 0
  held : x.isHeld = true → x.cell.state.isPending = true
  waiting : x.cell.state.isPending = true →
    x.cell.drained = false ∧ x.cell.notified = false ∧ delivering = 0
  ended : x.cell.state.isPending = false →
    x.cell.drained = true ∧ x.cell.queue = [] ∧
      delivering + (if x.cell.notified then 1 else 0) ≤ 1

namespace Result

variable {x : Result V κ}

theorem complete_isHeld (state : State V) : (x.complete state).isHeld = x.isHeld := by
  unfold complete
  split <;> rfl

theorem merged_isHeld {m : Merge V κ} {o : Outcome V} (free : x.isHeld = false) :
    (x.merged m o).isHeld = false := by
  unfold merged
  split
  next => exact free
  next => rfl

/-- Only a merge takes the lock. -/
theorem touch_isHeld {result : Return V} {frame : Frame V κ}
    (commit : ∀ merge index, frame ≠ .commit merge index)
    (merging : ∀ merge, frame ≠ .merging merge) :
    (x.touch result frame).isHeld = x.isHeld := by
  unfold touch
  split
  next => exact complete_isHeld _
  next =>
    obtain ⟨cell, kind⟩ := x
    cases kind <;> simp only [countDown]
    split <;> rfl
  next =>
    obtain ⟨cell, kind⟩ := x
    cases kind <;> simp only [cancel]
    · exact complete_isHeld _
    · split <;> rfl
  next =>
    unfold register
    split
    next => rfl
    next => split <;> rfl
  next =>
    obtain ⟨cell, kind⟩ := x
    cases kind <;> rfl
  next => rfl
  next => exact absurd rfl (commit _ _)
  next => exact absurd rfl (merging _)
  next => rfl

/-- A commit that takes the lock leaves the cell alone. -/
theorem commit_held {index : Nat} {o : Outcome V} (free : x.isHeld = false)
    (held : (x.commit index o).isHeld = true) : (x.commit index o).cell = x.cell := by
  obtain ⟨cell, kind⟩ := x
  cases kind with
  | merge m =>
    simp only [commit] at held ⊢
    split at held
    next => rfl
    next => rfl
    next => rfl
    next => rfl
    next cell' gathering tasks arrival =>
      have same : (Result.mk cell' (.merge { m with gathering := gathering })).isHeld =
          (Result.mk cell (.merge m)).isHeld := rfl
      rw [same, free] at held
      cases held
    next values gathering arrival =>
      split at held
      next =>
        split at held
        next => cases held
        next o' _ =>
          rw [merged_isHeld free] at held
          cases held
      next => rfl
  | _ => rfl

theorem mergerEnded_held {result : Return V} (held : (x.mergerEnded result).isHeld = true) :
    (x.mergerEnded result).cell = x.cell := by
  obtain ⟨cell, kind⟩ := x
  cases result with
  | ok a =>
    cases a with
    | outcome o =>
      cases kind with
      | merge m =>
        simp only [mergerEnded, merged] at held ⊢
        split at held
        next => rfl
        next => cases held
      | _ => rfl
    | _ => rfl
  | error p => cases kind <;> rfl

theorem touch_error {p : Panic} {frame : Frame V κ} (merging : ∀ merge, frame ≠ .merging merge) :
    x.touch (.error p) frame = x := by
  unfold touch
  split
  next => contradiction
  next => contradiction
  next => contradiction
  next => contradiction
  next => contradiction
  next => contradiction
  next => contradiction
  next => exact absurd rfl (merging _)
  next => rfl

theorem touch_error_cell {p : Panic} {frame : Frame V κ} :
    (x.touch (.error p) frame).cell = x.cell := by
  by_cases merging : ∃ merge, frame = .merging merge
  · obtain ⟨merge, rfl⟩ := merging
    obtain ⟨cell, kind⟩ := x
    cases kind <;> rfl
  · rw [touch_error fun merge same => merging ⟨merge, same⟩]

/-- A result that is held after a step is in the state it was in. -/
theorem touch_held {result : Return V} {frame : Frame V κ}
    (free : ∀ a, result = .ok a → x.isHeld = true → ∃ merge, frame = .merging merge)
    (held : (x.touch result frame).isHeld = true) : (x.touch result frame).cell = x.cell := by
  by_cases merging : ∃ merge, frame = .merging merge
  · obtain ⟨merge, rfl⟩ := merging
    cases result <;> exact mergerEnded_held held
  · have merging : ∀ merge, frame ≠ .merging merge := fun merge same => merging ⟨merge, same⟩
    cases result with
    | error p => rw [touch_error merging]
    | ok a =>
      have unlocked : x.isHeld = false := by
        cases before : x.isHeld with
        | false => rfl
        | true =>
          obtain ⟨merge, same⟩ := free a rfl before
          exact absurd same (merging merge)
      by_cases commit : ∃ merge index, frame = .commit merge index
      · obtain ⟨merge, index, rfl⟩ := commit
        cases a with
        | outcome o => exact commit_held unlocked held
        | _ => rfl
      · have same : (x.touch (.ok a) frame).isHeld = x.isHeld :=
          touch_isHeld (fun merge index same => commit ⟨merge, index, same⟩) merging
        rw [same, unlocked] at held
        cases held

end Result

/-- No frame of a passive step works on a result. -/
theorem Frame.Passive.merges {frame : Frame V κ} (passive : frame.Passive) (r : ResultId) :
    frame.merges r = 0 := by
  cases frame <;> first | rfl | exact passive.elim

theorem Frame.Passive.delivers {frame : Frame V κ} (passive : frame.Passive) (r : ResultId) :
    frame.delivers r = 0 := by
  cases frame <;> first | rfl | exact passive.elim

/-- A passive frame does not change the cell of a result. -/
theorem Frame.Passive.cell {frame : Frame V κ} (passive : frame.Passive) (x : Result V κ)
    (result : Return V) : (x.touch result frame).cell = x.cell := by
  unfold Result.touch
  split <;> first | rfl | exact passive.elim | skip
  unfold Result.claim
  split <;> rfl

namespace Frame.Ending

variable {frame : Frame V κ} {r : ResultId} (ending : frame.Ending r)
include ending

theorem subject : frame.subject? = some r := by
  unfold Frame.Ending at ending
  split at ending <;> first | exact congrArg some ending | exact ending.elim

theorem weightless {r' : ResultId} : frame.merges r' = 0 ∧ frame.delivers r' = 0 := by
  unfold Frame.Ending at ending
  split at ending <;> first | exact ⟨rfl, rfl⟩ | exact ending.elim

theorem apart : (∀ merge index, frame ≠ .commit merge index) ∧ ∀ merge, frame ≠ .merging merge := by
  constructor
  · rintro merge index rfl; exact ending
  · rintro merge rfl; exact ending

end Frame.Ending

theorem load_passive {w : Frame V κ → Nat} {frames : List (Frame V κ)}
    (weightless : ∀ frame : Frame V κ, frame.Passive → w frame = 0)
    (passive : ∀ frame ∈ frames, frame.Passive) : load w frames = 0 := by
  induction frames with
  | nil => rfl
  | cons frame frames ih =>
    rw [load_cons, weightless frame (passive frame (by simp)),
      ih fun f member => passive f (by simp [member])]

namespace Result.Orderly

variable {x x' : Result V κ} {merging delivering : Nat}

/-- Nothing that the order of a result depends on has changed. -/
theorem same (orderly : x.Orderly merging delivering) (held : x'.isHeld = x.isHeld)
    (cell : x'.cell = x.cell) : x'.Orderly merging delivering := by
  obtain ⟨lock, guarded, waiting, ended⟩ := orderly
  exact ⟨by rw [held]; exact lock, by rw [held, cell]; exact guarded, by rw [cell]; exact waiting,
    by rw [cell]; exact ended⟩

theorem fewer (orderly : x.Orderly merging delivering) {delivering' : Nat}
    (bound : delivering' ≤ delivering) : x.Orderly merging delivering' := by
  refine ⟨orderly.lock, orderly.held, ?_, ?_⟩
  · intro pending
    obtain ⟨undrained, untold, none⟩ := orderly.waiting pending
    exact ⟨undrained, untold, by omega⟩
  · intro terminal
    obtain ⟨drained, empty, told⟩ := orderly.ended terminal
    exact ⟨drained, empty, by omega⟩

theorem register (orderly : x.Orderly merging delivering) {task : Task κ}
    (waiting : x.cell.drained = false) (own : x.isForeign = false) :
    (x.register task).Orderly merging delivering := by
  have pending : x.cell.state.isPending = true := by
    cases state : x.cell.state.isPending with
    | true => rfl
    | false => exact absurd (orderly.ended state).1 (by simp [waiting])
  have registered : x.register task =
      { x with cell := { x.cell with queue := x.cell.queue ++ [task] } } := by
    simp [Result.register, own, Cell.enqueue, waiting]
  rw [registered]
  exact ⟨orderly.lock, orderly.held, orderly.waiting, fun ended => by simp [pending] at ended⟩

/-- The result was ended, and one frame has its callbacks. -/
theorem settle {state : State V} (orderly : x.Orderly merging delivering)
    (settles : x.Settles x' state) (terminal : state.isPending = false)
    (free : x'.isHeld = false) : x'.Orderly 0 1 := by
  obtain ⟨-, told, -⟩ := orderly.waiting settles.pending
  refine ⟨by simp [free], by simp [free], ?_, ?_⟩
  · intro pending
    rw [settles.cell] at pending
    exact absurd pending (by simp [terminal])
  · intro _
    simp [settles.cell, told]

end Result.Orderly

/-- The state that a call on a stack gives to a result is terminal. -/
theorem Frame.Sound.terminal {s : Store V κ σ} {r : ResultId} {state : State V}
    (sound : (Frame.call (.complete r state) : Frame V κ).Sound s) : state.isPending = false := by
  rcases sound with ⟨⟨cell, kind⟩, -, takes⟩ | ⟨-, o, rfl⟩
  · cases kind with
    | settable => exact takes
    | latch l => obtain ⟨e, rfl⟩ := takes; rfl
    | _ => exact takes.elim
  · exact State.isPending_ofOutcome o

/-- A frame that takes for granted what holds gives terminal states only. -/
theorem Frame.Sound.given {s : Store V κ σ} {frame : Frame V κ} {r : ResultId} {state : State V}
    (sound : frame.Sound s)
    (given : state.isPending = false ∨ frame = .call (.complete r state)) :
    state.isPending = false := by
  rcases given with terminal | rfl
  · exact terminal
  · exact sound.terminal

section

variable {client : Client V κ σ} {s : Store V κ σ} {result result' : Return V} {frame : Frame V κ}
  {frames : List (Frame V κ)} {r : ResultId} {x : Result V κ} {merging delivering : Nat}

/-- A step that is not about a result leaves as many frames at work on it as before, or fewer. -/
theorem Emits.orderly_other (emits : Emits client s result frame result' frames)
    (apart : frame.subject? ≠ some r) (orderly : x.Orderly merging delivering)
    (delivers : frame.delivers r ≤ delivering) :
    x.Orderly (merging - frame.merges r + load (Frame.merges r) frames)
      (delivering - frame.delivers r + load (Frame.delivers r) frames) := by
  cases emits with
  | passive passive passives =>
    rw [passive.merges r, passive.delivers r, load_passive (fun f p => p.merges r) passives,
      load_passive (fun f p => p.delivers r) passives]
    exact orderly
  | keeps ending _ _ _ =>
    rw [ending.weightless.1, ending.weightless.2]
    exact orderly
  | @settles _ _ r' _ _ _ about _ _ _ form =>
    have other : ¬ r' = r := fun same => apart (same ▸ about)
    rcases form with ending | ⟨index, o, rfl, -⟩ | rfl
    · rw [ending.weightless.1, ending.weightless.2]
      simpa [Frame.merges, Frame.delivers, other] using orderly
    · simpa [Frame.merges, Frame.delivers, other] using orderly
    · simpa [Frame.merges, Frame.delivers, other] using orderly
  | sweeps _ _ =>
    have other : ¬ _ = r := fun same => apart (congrArg some same)
    simpa [Frame.merges, Frame.delivers, other] using orderly
  | merges _ _ _ _ =>
    have other : ¬ _ = r := fun same => apart (congrArg some same)
    simpa [Frame.merges, Frame.delivers, other] using orderly
  | overtaken _ _ =>
    have other : ¬ _ = r := fun same => apart (congrArg some same)
    simpa [Frame.merges, Frame.delivers, other] using orderly
  | poisons _ =>
    have other : ¬ _ = r := fun same => apart (congrArg some same)
    simpa [Frame.merges, Frame.delivers, other] using orderly
  | opens form =>
    rcases form with ⟨f, p, -, -, -, rfl⟩ | ⟨f, o, -, -, -, rfl⟩ | ⟨f, -, -, rfl⟩ <;>
      simpa [Frame.merges, Frame.delivers] using orderly
  | unwinds unwound =>
    cases frame <;> first | exact unwound.elim | simpa [Frame.merges, Frame.delivers] using orderly
  | catches form =>
    rcases form with rfl | rfl <;> simpa [Frame.merges, Frame.delivers] using orderly
  | drops => simpa [Frame.merges] using orderly.fewer (Nat.sub_le _ _)
  | asks =>
    have kept := Nat.sub_add_cancel delivers
    simp only [Frame.delivers] at kept
    simpa [Frame.merges, Frame.delivers, kept] using orderly
  | swept =>
    have kept := Nat.sub_add_cancel delivers
    simp only [Frame.delivers] at kept
    simpa [Frame.merges, Frame.delivers, kept] using orderly
  | delivers =>
    have kept := Nat.sub_add_cancel delivers
    simp only [Frame.delivers] at kept
    simpa [Frame.merges, Frame.delivers, kept] using orderly
  | survives =>
    have kept := Nat.sub_add_cancel delivers
    simp only [Frame.delivers] at kept
    simpa [Frame.merges, Frame.delivers, kept] using orderly
  | notifies _ =>
    have other : ¬ _ = r := fun same => apart (congrArg some same)
    simpa [Frame.merges, Frame.delivers, other] using orderly
  | _ => simpa [Frame.merges, Frame.delivers] using orderly

namespace Result.Orderly

variable {a : Answer V} {cell : Cell V (Task κ)} {m : Merge V κ}

/-- Whoever gives a result its state was the last to work on it, and leaves a frame that has its
callbacks. -/
theorem touch_settles {state : State V} (orderly : x.Orderly merging delivering)
    (settles : x.Settles (x.touch result frame) state) (terminal : state.isPending = false)
    (free : ∀ a, result = .ok a → x.isHeld = true → frame = .merging r)
    (merges : frame.merges r ≤ merging) :
    (x.touch result frame).Orderly 0 1 ∧ merging - frame.merges r = 0 ∧ delivering = 0 := by
  have pending := settles.pending
  have unlocked : (x.touch result frame).isHeld = false := by
    cases held : (x.touch result frame).isHeld with
    | false => rfl
    | true =>
      have still := Result.touch_held (fun a ok locked => ⟨r, free a ok locked⟩) held
      rw [← still, settles.cell] at pending
      exact absurd pending (by simp [terminal])
  have answered : ∃ a, result = .ok a := by
    cases result with
    | ok a => exact ⟨a, rfl⟩
    | error p =>
      have cell : (x.touch (.error p) frame).cell = x.cell := Result.touch_error_cell
      rw [← cell, settles.cell] at pending
      exact absurd pending (by simp [terminal])
  refine ⟨orderly.settle settles terminal unlocked, ?_, (orderly.waiting settles.pending).2.2⟩
  -- if the lock was held, the frame that steps held it
  have lock := orderly.lock
  split at lock
  next held =>
    obtain ⟨a, rfl⟩ := answered
    simp [free a rfl held, Frame.merges, lock]
  next => omega

/-- So does whoever cancels a merge. -/
theorem touch_sweeps (orderly : Result.Orderly ⟨cell, .merge m⟩ merging delivering)
    (pending : cell.state.isPending = true) (unlocked : Result.isHeld ⟨cell, .merge m⟩ = false) :
    (Result.touch ⟨cell, .merge m⟩ (.ok a) (.call (.cancel r) : Frame V κ)).Orderly 0 1 ∧
      merging = 0 ∧ delivering = 0 := by
  have touch : Result.touch ⟨cell, .merge m⟩ (.ok a) (.call (.cancel r)) =
      ⟨⟨.cancelled, [], true, cell.notified⟩,
        .merge { m with gathering := m.gathering.release }⟩ := by
    simp [Result.touch, Result.cancel, Cell.transition, pending]
  have settled : Result.Settles ⟨cell, .merge m⟩
      (Result.touch ⟨cell, .merge m⟩ (.ok a) (.call (.cancel r))) .cancelled :=
    ⟨pending, by rw [touch]⟩
  have last := orderly.lock
  simp only [unlocked, Bool.false_eq_true, if_false] at last
  exact ⟨orderly.settle settled rfl (by rw [touch]; exact unlocked), last,
    (orderly.waiting pending).2.2⟩

/-- A merger that runs under the lock is the one frame that holds it. -/
theorem locks {g : Gathering V} (orderly : Result.Orderly ⟨cell, .merge m⟩ merging delivering)
    (pending : cell.state.isPending = true) (unlocked : Result.isHeld ⟨cell, .merge m⟩ = false) :
    Result.Orderly ⟨cell, .merge { m with gathering := g, lock := .held }⟩ (merging + 1)
      delivering := by
  have last := orderly.lock
  simp only [unlocked, Bool.false_eq_true, if_false] at last
  refine ⟨?_, fun _ => pending, orderly.waiting, orderly.ended⟩
  simp [last, Result.isHeld]

/-- A merger that panics leaves the lock. -/
theorem poisons (orderly : Result.Orderly ⟨cell, .merge m⟩ merging delivering) :
    Result.Orderly ⟨cell, .merge { m with lock := .poisoned }⟩ (merging - 1) delivering := by
  have last : merging - 1 = 0 := by
    have lock := orderly.lock
    split at lock <;> omega
  exact ⟨by simp [last, Result.isHeld], by simp [Result.isHeld], orderly.waiting, orderly.ended⟩

/-- Once the readers are told, one frame less works on the result. -/
theorem notifies (orderly : x.Orderly merging delivering) (delivers : 1 ≤ delivering) :
    (Result.mk x.cell.notify x.kind).Orderly merging (delivering - 1) := by
  refine ⟨orderly.lock, orderly.held, ?_, ?_⟩
  · intro pending
    have none := (orderly.waiting pending).2.2
    omega
  · intro terminal
    obtain ⟨drained, empty, told⟩ := orderly.ended terminal
    refine ⟨drained, empty, ?_⟩
    simp only [Cell.notify, if_true]
    omega

end Result.Orderly

theorem Emits.orderly_subject (emits : Emits client s result frame result' frames)
    (about : frame.subject? = some r) (found : s.results[r]? = some x)
    (orderly : x.Orderly merging delivering)
    (free : ∀ a, result = .ok a → x.isHeld = true → frame = .merging r)
    (sound : frame.Sound s) (merges : frame.merges r ≤ merging)
    (delivers : frame.delivers r ≤ delivering) :
    (x.touch result frame).Orderly (merging - frame.merges r + load (Frame.merges r) frames)
      (delivering - frame.delivers r + load (Frame.delivers r) frames) := by
  -- only the frame that runs the merger steps while the lock is held
  have unlocked (a : Answer V) (answered : result = .ok a) (other : frame ≠ .merging r) :
      x.isHeld = false := by
    cases held : x.isHeld with
    | false => rfl
    | true => exact absurd (free a answered held) other
  cases emits with
  | passive passive passives =>
    rw [passive.merges r, passive.delivers r, load_passive (fun f p => p.merges r) passives,
      load_passive (fun f p => p.delivers r) passives]
    refine orderly.same (Result.touch_isHeld ?_ ?_) (passive.cell x _)
    · rintro merge index rfl; exact passive.elim
    · rintro merge rfl; exact passive.elim
  | @keeps a frame b r' x₀ ending found' cell _ =>
    cases about.symm.trans ending.subject
    cases found.symm.trans found'
    rw [ending.weightless.1, ending.weightless.2]
    exact orderly.same (Result.touch_isHeld ending.apart.1 ending.apart.2) cell
  | @settles result frame r' x₀ state reply about' found' settles terminal form =>
    cases about.symm.trans about'
    cases found.symm.trans found'
    obtain ⟨settled, last, nobody⟩ :=
      orderly.touch_settles settles (sound.given terminal) free merges
    rw [last, nobody]
    simpa [Frame.merges, Frame.delivers] using settled
  | @sweeps a r' cell m found' pending =>
    cases about
    cases found.symm.trans found'
    obtain ⟨settled, last, nobody⟩ :=
      orderly.touch_sweeps (a := a) (r := r) pending (unlocked a rfl (by simp))
    simpa [last, nobody, Frame.merges, Frame.delivers] using settled
  | queues found' own waiting =>
    cases about
    cases found.symm.trans found'
    exact orderly.register waiting own
  | @performs a r' task x₀ found' own drained =>
    cases about
    cases found.symm.trans found'
    have still : x.touch (.ok a) (.call (.register r task)) = x := by
      simp [Result.touch, Result.register, own, Cell.enqueue, drained]
    rw [still]
    exact orderly
  | @serves a c code r' x₀ form found' foreign =>
    rcases form with rfl | ⟨task, rfl⟩ <;> cases about <;> cases found.symm.trans found' <;>
      obtain ⟨cell, kind⟩ := x <;> cases kind <;> cases foreign <;> exact orderly
  | records found' arrival =>
    cases about
    cases found.symm.trans found'
    rcases arrival with arrival | ⟨g, arrival⟩
    · refine orderly.same ?_ ?_ <;> simp only [Result.touch, Result.commit, arrival]
    · refine orderly.same ?_ ?_ <;> simp only [Result.touch, Result.commit, arrival]
      rfl
  | rejects found' arrival =>
    cases about
    cases found.symm.trans found'
    rcases arrival with arrival | arrival <;>
      refine orderly.same ?_ ?_ <;> simp only [Result.touch, Result.commit, arrival]
  | @breaks o _ index cell m values g p f found' arrival plain panics =>
    cases about
    cases found.symm.trans found'
    have touch : Result.touch ⟨cell, .merge m⟩ (.ok (.outcome o)) (.commit r index) =
        ⟨cell, .merge { m with gathering := g, lock := .poisoned }⟩ := by
      simp [Result.touch, Result.commit, arrival, plain, panics]
    rw [touch]
    exact orderly.same (by rw [unlocked _ rfl (by simp)]; rfl) rfl
  | @merges o _ index cell m values g f found' apart arrival code =>
    cases about
    cases found.symm.trans found'
    have touch : Result.touch ⟨cell, .merge m⟩ (.ok (.outcome o)) (.commit r index) =
        ⟨cell, .merge { m with gathering := g, lock := .held }⟩ := by
      simp [Result.touch, Result.commit, arrival, code]
    rw [touch]
    have locked : Result.Orderly ⟨cell, .merge { m with gathering := g, lock := .held }⟩ _ _ :=
      orderly.locks (Gathering.pending_of_arrive arrival (by simp)) (unlocked _ rfl (by simp))
    simpa [Frame.merges, Frame.delivers] using locked
  | overtaken found' terminal =>
    -- whoever runs the merger holds the lock, and a result that is held is pending
    cases about
    cases found.symm.trans found'
    have lock := orderly.lock
    split at lock
    next held => exact absurd (orderly.held held) (by simp [terminal])
    next => simp [lock, Frame.merges] at merges
  | @poisons p _ cell m found' =>
    cases about
    cases found.symm.trans found'
    have touch : Result.touch ⟨cell, .merge m⟩ (.error p) (.merging r) =
        ⟨cell, .merge { m with lock := .poisoned }⟩ := rfl
    rw [touch]
    simpa [Frame.merges, Frame.delivers] using orderly.poisons
  | @notifies a _ first reply _ _ =>
    cases about
    have one : Frame.delivers r (.deliver (V := V) (κ := κ) r [] first reply) = 1 := by
      simp [Frame.delivers]
    rw [one] at delivers ⊢
    exact orderly.notifies delivers
  | @unwinds p frame unwound =>
    rw [Result.touch_error fun merge same => by subst same; exact unwound]
    cases frame <;> first | exact unwound.elim | exact orderly
  | catches form => rcases form with rfl | rfl <;> cases about
  | @survives p r' tasks first reply =>
    rw [Result.touch_error fun merge same => by cases same]
    have kept := Nat.sub_add_cancel delivers
    simp only [Frame.delivers] at kept
    simpa [Frame.merges, Frame.delivers, kept] using orderly
  | _ => cases about

/-- Nobody starts to work on a result that is not there. -/
theorem Emits.beyond (emits : Emits client s result frame result' frames)
    (missing : s.results[r]? = none) (merges : frame.merges r = 0)
    (delivers : frame.delivers r = 0) :
    load (Frame.merges r) frames = 0 ∧ load (Frame.delivers r) frames = 0 := by
  have other {r' : ResultId} {x : Result V κ} (found : s.results[r']? = some x) : ¬ r' = r := by
    intro same
    rw [same, missing] at found
    cases found
  cases emits with
  | passive passive passives =>
    exact ⟨load_passive (fun f p => p.merges r) passives,
      load_passive (fun f p => p.delivers r) passives⟩
  | settles about found _ _ _ => simp [Frame.merges, Frame.delivers, other found]
  | sweeps found _ => simp [Frame.merges, Frame.delivers, other found]
  | merges found _ _ _ => simp [Frame.merges, Frame.delivers, other found]
  | opens form =>
    rcases form with ⟨f, p, -, -, -, rfl⟩ | ⟨f, o, -, -, -, rfl⟩ | ⟨f, -, -, rfl⟩ <;>
      simp [Frame.merges, Frame.delivers]
  | asks => simpa [Frame.merges, Frame.delivers] using delivers
  | swept => simpa [Frame.merges, Frame.delivers] using delivers
  | delivers => simpa [Frame.merges, Frame.delivers] using delivers
  | survives => simpa [Frame.merges, Frame.delivers] using delivers
  | _ => simp [Frame.merges, Frame.delivers]

end

theorem Frame.made?_orderly {result : Return V} {frame : Frame V κ} {x : Result V κ}
    (made : frame.made? result = some x) : x.Orderly 0 0 := by
  obtain ⟨free, fresh | ⟨state, terminal, settled⟩⟩ := made?_start made
  · refine ⟨by simp [free], by simp [free], fun _ => ?_, fun ended => ?_⟩
    · rw [fresh]
      exact ⟨rfl, rfl, rfl⟩
    · rw [fresh] at ended
      cases ended
  · refine ⟨by simp [free], by simp [free], fun pending => ?_, fun _ => ?_⟩
    · rw [settled] at pending
      cases pending.symm.trans terminal
    · rw [settled]
      exact ⟨rfl, rfl, by simp [Cell.settled]⟩

/-- Every result stands in order to the frames of all threads. -/
structure System.Orderly (s : System V κ σ) : Prop where
  there : ∀ (r : ResultId) (x : Result V κ), s.store.results[r]? = some x →
    x.Orderly (s.weight (Frame.merges r)) (s.weight (Frame.delivers r))
  beyond : ∀ r : ResultId, s.store.results[r]? = none →
    s.weight (Frame.merges r) = 0 ∧ s.weight (Frame.delivers r) = 0

namespace System

theorem orderly_empty (client : σ) : (System.mk (.empty client) [] : System V κ σ).Orderly :=
  ⟨fun _ _ found => by simp [Store.empty] at found, fun _ _ => ⟨rfl, rfl⟩⟩

theorem Orderly.step {client : Client V κ σ} {s : System V κ σ} {t : Nat} {μ : Moment V κ σ}
    {e : Effect V κ σ} {calls : List (Call V κ)} (orderly : s.Orderly) (sound : s.Sound)
    (found : s.moment? t = some μ) (yields : μ.Yields client e calls) :
    (s.after t μ.below e calls).Orderly := by
  have store := (moment?_eq_some found).1
  have here := (sound.frames.moment found).1
  have touches := yields.touches
  have emits := yields.emits
  rw [store] at touches emits
  -- threads that begin have nothing at work yet
  have weigh (w : Frame V κ → Nat) (calling : ∀ c, w (.call c) = 0) :
      w μ.frame ≤ s.weight w ∧
        (s.after t μ.below e calls).weight w = s.weight w - w μ.frame + load w e.frames := by
    have moved := weight_after w e calls found
    have enough := weight_le (w := w) found
    have begun := load_calls w calling calls
    omega
  have merging (r : ResultId) := weigh (Frame.merges r) fun _ => rfl
  have delivering (r : ResultId) := weigh (Frame.delivers r) fun _ => rfl
  have beyond (r : ResultId) (missing : s.store.results[r]? = none) :
      (s.after t μ.below e calls).weight (Frame.merges r) = 0 ∧
        (s.after t μ.below e calls).weight (Frame.delivers r) = 0 := by
    obtain ⟨merges, delivers⟩ := orderly.beyond r missing
    have none : load (Frame.merges r) e.frames = 0 ∧ load (Frame.delivers r) e.frames = 0 := by
      rcases emits with ⟨-, emits⟩ | ⟨a, b, c, -, -, -, none, -⟩
      · exact emits.beyond missing (by have := (merging r).1; omega)
          (by have := (delivering r).1; omega)
      · simp [none]
    have := merging r
    have := delivering r
    omega
  constructor
  · intro r x' after
    cases before : s.store.results[r]? with
    | some x =>
      have moved := touches.there r x before
      cases after.symm.trans moved
      rw [(merging r).2, (delivering r).2]
      rcases emits with ⟨-, emits⟩ | ⟨a, b, c, answered, frame, -, none, -⟩
      · split
        next about =>
          exact emits.orderly_subject about before (orderly.there r x before)
            (fun a answered held => touches.locked r x a answered about before held) here
            (merging r).1 (delivering r).1
        next apart => exact emits.orderly_other apart (orderly.there r x before) (delivering r).1
      · rw [none, frame]
        exact orderly.there r x before
    | none =>
      obtain ⟨merges, delivers⟩ := beyond r before
      rw [merges, delivers]
      exact Frame.made?_orderly (touches.new before after).2
  · intro r missing
    refine beyond r (List.getElem?_eq_none_iff.mpr ?_)
    have length := touches.length
    have missing := List.getElem?_eq_none_iff.mp missing
    simp only [System.after] at missing
    omega

end System

theorem Run.orderly {client : Client V κ σ} {s s₁ : System V κ σ} {h : List (Moment V κ σ)}
    (run : Run client Call.Fair s h s₁) (sound : s.Sound) (orderly : s.Orderly) : s₁.Orderly := by
  induction run with
  | start => exact orderly
  | step run found step fair ih =>
    obtain ⟨μ, e, calls, moment, yields, rfl⟩ := System.step_yields step
    exact ih.step (run.sound sound) moment yields
  | begin c _ fair ih =>
    refine ⟨fun r x found => ?_, fun r missing => ?_⟩
    · simpa [Frame.merges, Frame.delivers] using ih.there r x found
    · simpa [Frame.merges, Frame.delivers] using ih.beyond r missing
  | pass now _ past ih => exact ⟨ih.there, ih.beyond⟩

end Quorate
