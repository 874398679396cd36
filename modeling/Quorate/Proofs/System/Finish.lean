import Mathlib.Data.List.Chain
import Quorate.Proofs.System.Plain

/-! Calls that involve no client code end. No frame of such a call has to wait, as no merger runs
under a lock, and every step has a cost that is never paid again. -/

set_option autoImplicit false

namespace Quorate

variable {V κ σ : Type}

/-- A frame whose answer is a flag. -/
def Frame.Flags : Frame V κ → Prop
  | .call (.cancel _) | .sweep _ _ _ _ => True
  | .deliver _ _ _ reply => ∃ b, reply = .flag b
  | _ => False

/-- A frame can go on with a result. -/
def Frame.Fits (result : Return V) : Frame V κ → Prop
  | .commit _ _ | .opening _ => ∀ a, result = .ok a → ∃ o, a = .outcome o
  | .sweep _ _ _ _ => ∀ a, result = .ok a → ∃ b, a = .flag b
  | _ => True

/-- A frame may stand right above another one. -/
def Frame.Above (f : Frame V κ) : Frame V κ → Prop
  | .commit _ _ | .opening _ => False
  | .sweep _ _ _ _ => f.Flags
  | _ => True

/-- Every frame of a thread gets an answer that it can go on with. -/
structure Thread.Fits (thread : Thread V κ) : Prop where
  top : ∀ f ∈ thread.frames.head?, f.Fits thread.result
  stack : thread.frames.IsChain Frame.Above

theorem Thread.fits_ofCall (c : Call V κ) : (Thread.ofCall c).Fits := by
  refine ⟨fun f member => ?_, by simp [ofCall]⟩
  cases member
  trivial

section

variable {client : Client V κ σ} {s : Store V κ σ} {result result' : Return V} {frame : Frame V κ}
  {frames : List (Frame V κ)} {e : Effect V κ σ}

theorem Store.locking_free {r : ResultId} {x : Result V κ} (found : s.results[r]? = some x)
    (free : x.isHeld = false) (f : Result V κ → Option (Effect V κ σ)) : s.locking r f = f x := by
  simp [locking, found, free]

theorem Store.completing_some (r : ResultId) (x : Result V κ) (state : State V)
    (reply : Answer V) : ∃ e, s.completing r x state reply = some e := by
  unfold completing
  split
  next => exact ⟨_, rfl⟩
  next => exact ⟨_, rfl⟩

section

variable (free : ∀ (r : ResultId) (x : Result V κ), s.results[r]? = some x → x.isHeld = false)
include free

theorem Frame.Plain.enters {c : Call V κ} (here : (Frame.call c).Plain s) :
    ∃ e, s.enter client c = some e := by
  have locks {r : ResultId} (there : r < s.results.length)
      (f : Result V κ → Option (Effect V κ σ)) :
      s.locking r f = f s.results[r] := by
    have found := List.getElem?_eq_getElem there
    exact Store.locking_free found (free r _ found) f
  cases c with
  | create seed => exact ⟨_, rfl⟩
  | complete r state =>
    simp only [Store.enter, locks here]
    exact Store.completing_some _ _ _ _
  | cancel r =>
    simp only [Store.enter, locks here]
    split
    next => exact Store.completing_some _ _ _ _
    next => exact ⟨_, rfl⟩
    next => split <;> exact ⟨_, rfl⟩
    next => exact ⟨_, rfl⟩
  | register r task =>
    simp only [Store.enter, locks here.1]
    split
    next => exact ⟨_, rfl⟩
    next => split <;> exact ⟨_, rfl⟩
  | build merger sources =>
    simp only [Store.enter]
    split
    next =>
      split
      next => split <;> exact ⟨_, rfl⟩
      next => exact ⟨_, rfl⟩
    next => exact ⟨_, rfl⟩
  | perform task =>
    obtain ⟨merge, index, size, rfl, -⟩ := here
    exact ⟨_, rfl⟩
  | _ => exact here.elim

theorem Store.Plain.commits (plain : s.Plain) {merge : ResultId} {index : Nat} {o : Outcome V}
    (isMerge : ∃ size, s.IsMerge merge size) : ∃ e, s.commit merge index o = some e := by
  obtain ⟨size, cell, m, found, -⟩ := isMerge
  obtain ⟨f, merger⟩ := (plain _ _ found).1.1
  simp only [Store.commit, locking_free found (free _ _ found)]
  split
  next => exact ⟨_, rfl⟩
  next => exact ⟨_, rfl⟩
  next => exact ⟨_, rfl⟩
  next => exact ⟨_, rfl⟩
  next => exact ⟨_, rfl⟩
  next =>
    simp only [merger]
    split
    next => exact ⟨_, rfl⟩
    next => exact completing_some _ _ _ _

/-- A plain frame never has to wait. -/
theorem Store.Plain.progress (plain : s.Plain) (here : frame.Plain s) (fits : frame.Fits result) :
    ∃ e, s.resume client result frame = some e := by
  cases result with
  | error p =>
    cases frame with
    | merging merge => exact here.elim
    | _ => exact ⟨_, rfl⟩
  | ok a =>
    cases frame with
    | call c => exact here.enters free
    | start callback =>
      cases callback with
      | observe merge index => exact ⟨_, rfl⟩
      | _ => exact here.elim
    | deliver r tasks first reply =>
      cases tasks with
      | nil =>
        have found := List.getElem?_eq_getElem here.1
        simp only [resume, proceed, found, free r _ found]
        cases first <;> exact ⟨_, rfl⟩
      | cons task tasks => exact ⟨_, rfl⟩
    | lookup merge index =>
      obtain ⟨size, cell, m, found, -⟩ := here
      simp only [resume, proceed, locking_free found (free _ _ found)]
      split <;> exact ⟨_, rfl⟩
    | query merge index source =>
      have found := List.getElem?_eq_getElem here.2
      have own := plain.own found
      simp only [resume, proceed, Store.query, locking_free found (free _ _ found), own]
      split
      next => exact ⟨_, rfl⟩
      next done =>
        split
        next => exact ⟨_, rfl⟩
        next =>
          split
          next => exact ⟨_, rfl⟩
          next =>
            split
            next none =>
              -- a result that is done has an outcome
              have pending := (State.outcome?_eq_none_iff _).mp none
              rw [Result.isDone_eq own, pending] at done
              exact absurd rfl done
            next => exact ⟨_, rfl⟩
    | commit merge index =>
      obtain ⟨o, rfl⟩ := fits a rfl
      exact plain.commits free here
    | opening merge =>
      obtain ⟨o, rfl⟩ := fits a rfl
      exact ⟨_, rfl⟩
    | sweep merge sources all drained =>
      obtain ⟨b, rfl⟩ := fits a rfl
      cases sources <;> exact ⟨_, rfl⟩
    | attach merge sources index =>
      obtain ⟨size, cell, m, found, -⟩ := here.1
      simp only [resume, proceed, locking_free found (free _ _ found)]
      split
      next => exact ⟨_, rfl⟩
      next => split <;> exact ⟨_, rfl⟩
    | _ => exact here.elim

end

theorem enter_cancel_flags {r : ResultId} {f : Frame V κ} (own : ∀ x : Result V κ,
    s.results[r]? = some x → x.isForeign = false) (effect : s.enter client (.cancel r) = some e)
    (member : f ∈ e.frames) : f.Flags := by
  obtain ⟨⟨cell, kind⟩, found, -, effect⟩ := Store.locking_eq_some effect
  cases kind with
  | settable =>
    simp only [Store.completing] at effect
    split at effect
    next => cases effect; cases member
    next => cases effect; rw [List.mem_singleton.mp member]; exact ⟨true, rfl⟩
  | latch latch => cases effect; cases member
  | merge m =>
    simp only at effect
    split at effect
    next => cases effect; cases member
    next => cases effect; rw [List.mem_singleton.mp member]; trivial
  | foreign done cancelled => cases own _ found

/-- What a plain frame leaves stands in order, and answers with a flag if the frame did. -/
structure Leaves (frame : Frame V κ) (result : Return V) (frames : List (Frame V κ)) : Prop where
  top : ∀ f ∈ frames.head?, f.Fits result
  stack : frames.IsChain Frame.Above
  ends : frame.Flags → frames = [] → ∀ a, result = .ok a → ∃ b, a = .flag b
  goes : frame.Flags → ∀ f ∈ frames.getLast?, f.Flags

theorem Store.Plain.leaves (plain : s.Plain) (here : frame.Plain s)
    (effect : s.resume client result frame = some e) : Leaves frame e.result e.frames := by
  have emits := resume_emits effect
  -- a plain step leaves at most two frames, and two of them with the unit answer
  have single {result : Return V} {f : Frame V κ} (fits : f.Fits result)
      (flags : frame.Flags → f.Flags) : Leaves frame result [f] :=
    ⟨by simpa using fits, by simp, nofun, by simpa using flags⟩
  have pair {f g : Frame V κ} (fits : f.Fits (.ok .unit : Return V)) (above : f.Above g)
      (flags : frame.Flags → g.Flags) : Leaves frame (.ok .unit) [f, g] :=
    ⟨by simpa using fits, by simpa using above, nofun, by simpa using flags⟩
  have none {result : Return V}
      (ends : frame.Flags → ∀ a, result = .ok a → ∃ b, a = .flag b) : Leaves frame result [] :=
    ⟨nofun, by simp, fun flags _ => ends flags, nofun⟩
  generalize same : e.result = result' at emits ⊢
  generalize up : e.frames = frames at emits ⊢
  cases emits with
  | passive passive _ _ =>
    cases here.passive passive
    rw [← up, (resume_create effect).1]
    exact none False.elim
  | keeps => exact none fun _ a same => ⟨_, by cases same; rfl⟩
  | @settles _ _ r x state reply about found settles terminal form =>
    refine single trivial fun flags => ?_
    rcases form with ending | ⟨index, o, rfl, -⟩ | rfl
    · cases frame with
      | call c =>
        cases c with
        | cancel r' =>
          cases result with
          | ok a =>
            exact enter_cancel_flags (fun x found => plain.own found) effect (by rw [up]; simp)
          | error p => cases effect; cases up
        | _ => exact flags.elim
      | _ => exact ending.elim
    · exact flags.elim
    · exact flags.elim
  | sweeps => exact single (fun a same => ⟨true, by cases same; rfl⟩) fun _ => trivial
  | serves _ found foreign => rw [plain.own found] at foreign; cases foreign
  | queues => exact none False.elim
  | performs => exact single trivial False.elim
  | builds => exact single trivial False.elim
  | opens form =>
    rcases form with ⟨f, p, -, -, rfl, rfl⟩ | ⟨f, o, -, -, rfl, rfl⟩ | ⟨f, code, -, -⟩
    · exact none False.elim
    · exact single (fun a same => ⟨o, by cases same; rfl⟩) False.elim
    · obtain ⟨g, other⟩ := here.1
      cases code.symm.trans other
  | completes => exact pair trivial trivial False.elim
  | inline => exact single trivial False.elim
  | spawns => obtain ⟨merge, index, size, task, -⟩ := here; cases task
  | joins => obtain ⟨merge, index, size, task, -⟩ := here; cases task
  | refuses => obtain ⟨merge, index, size, task, -⟩ := here; cases task
  | observes => exact single trivial False.elim
  | misses => exact none False.elim
  | finds => exact single trivial False.elim
  | early => exact none False.elim
  | skips => exact none False.elim
  | inquires found foreign => rw [plain.own found] at foreign; cases foreign
  | reads => exact single (fun a same => ⟨_, by cases same; rfl⟩) False.elim
  | records => exact none False.elim
  | rejects => exact none False.elim
  | breaks => exact none False.elim
  | merges found _ _ code =>
    obtain ⟨g, other⟩ := (plain _ _ found).1.1
    cases code.symm.trans other
  | attached => exact none False.elim
  | stops => exact none False.elim
  | registers => exact pair trivial trivial False.elim
  | asks => exact pair trivial trivial fun _ => trivial
  | swept => exact single trivial fun _ => ⟨_, rfl⟩
  | drops => exact none fun _ a same => by cases same
  | delivers => exact pair trivial trivial fun flags => flags
  | @notifies a r first reply x found =>
    apply none
    intro flags a same
    cases first with
    | some p => cases same
    | none =>
      cases same
      exact flags
  | survives => exact single trivial fun flags => flags
  | unwinds => exact none fun _ a same => by cases same
  | catches form => rcases form with rfl | rfl <;> exact here.elim
  | _ => exact here.elim

theorem Frame.Above.fits {f g : Frame V κ} (above : f.Above g)
    (flag : f.Flags → ∀ a, result' = .ok a → ∃ b, a = .flag b) : g.Fits result' := by
  cases g with
  | commit merge index => exact above.elim
  | opening merge => exact above.elim
  | sweep merge sources all drained => exact flag above
  | _ => trivial

theorem Thread.Fits.step {below : List (Frame V κ)}
    (fits : Thread.Fits ⟨result, frame :: below⟩) (leaves : Leaves frame result' frames) :
    Thread.Fits ⟨result', frames ++ below⟩ := by
  obtain ⟨above, rest⟩ := List.isChain_cons.mp fits.stack
  refine ⟨?_, List.isChain_append.mpr ⟨leaves.stack, rest, ?_⟩⟩
  · cases frames with
    | nil => exact fun g head => (above g head).fits fun flags => leaves.ends flags rfl
    | cons f frames => exact leaves.top
  · intro f last g head
    have above := above g head
    cases g with
    | commit merge index => exact above.elim
    | opening merge => exact above.elim
    | sweep merge sources all drained => exact leaves.goes above f last
    | _ => trivial

/-- What is left to be done for a frame. A callback costs as much as all frames that run it, and a
source of a merge as much as its cancel. -/
def Frame.cost : Frame V κ → Nat
  | .call (.create _) => 1
  | .call (.complete _ _) => 3
  | .call (.cancel _) => 4
  | .call (.register _ _) => 9
  | .call (.perform _) => 7
  | .call (.build _ sources) => 6 + 15 * sources.length
  | .start _ => 6
  | .lookup _ _ => 5
  | .query _ _ _ => 4
  | .commit _ _ => 3
  | .deliver _ tasks _ _ => 2 + 8 * tasks.length
  | .sweep _ sources _ drained => 3 + 5 * sources.length + 8 * drained.length
  | .attach _ sources _ => 1 + 10 * sources.length
  | .opening _ => 5
  | _ => 0

def Kind.cost : Kind V κ → Nat
  | .merge m => 5 * m.gathering.sources.length
  | _ => 0

/-- What is left to be done once a result ends. -/
def Result.cost (x : Result V κ) : Nat := 8 * x.cell.queue.length + x.kind.cost

/-- A panic is there until a frame takes it. -/
def panicCost (result : Return V) : Nat :=
  match result with
  | .ok _ => 0
  | .error _ => 1

theorem Result.Later.cost_le {x x' : Result V κ} (later : x.Later x') :
    x'.kind.cost ≤ x.kind.cost := by
  have kinds := later.kind
  cases old : x.kind with
  | merge m =>
    cases new : x'.kind with
    | merge m' =>
      rw [old, new] at kinds
      obtain ⟨-, -, same | none⟩ := kinds
      · simp [Kind.cost, same]
      · simp [Kind.cost, none]
    | _ => exact Nat.zero_le _
  | _ =>
    cases new : x'.kind <;> rw [old, new] at kinds <;>
      first | exact Nat.le_refl 0 | exact kinds.elim

theorem Frame.Plain.cost_pos (here : frame.Plain s) : 0 < frame.cost := by
  cases frame with
  | call c =>
    cases c with
    | build merger sources => exact Nat.lt_of_lt_of_le (by decide) (Nat.le_add_right 6 _)
    | _ => first | exact here.elim | exact Nat.succ_pos _
  | deliver r tasks first reply => exact Nat.lt_of_lt_of_le (by decide) (Nat.le_add_right 2 _)
  | sweep merge sources all drained =>
    exact Nat.lt_of_lt_of_le (by decide)
      (Nat.le_trans (Nat.le_add_right 3 _) (Nat.le_add_right _ _))
  | attach merge sources index => exact Nat.lt_of_lt_of_le (by decide) (Nat.le_add_right 1 _)
  | _ => first | exact here.elim | exact Nat.succ_pos _

theorem Frame.Ending.made {r : ResultId} (ending : frame.Ending r) : frame.made? result = none := by
  unfold Frame.Ending at ending
  split at ending
  next => cases result <;> rfl
  next => cases result <;> rfl
  next => cases result <;> rfl
  next => exact ending.elim

theorem Frame.Plain.ending_cost (here : frame.Plain s) {r : ResultId} (ending : frame.Ending r) :
    3 ≤ frame.cost := by
  cases frame with
  | call c =>
    cases c with
    | complete r' state => exact Nat.le_refl 3
    | cancel r' => exact Nat.le_succ 3
    | _ => first | exact here.elim | exact ending.elim
  | _ => exact ending.elim

/-- A plain frame leaves less to be done than it found. -/
theorem Store.Plain.pays (plain : s.Plain) (here : frame.Plain s)
    (effect : s.resume client result frame = some e) :
    load Frame.cost e.frames + panicCost e.result +
        ((s.subject? frame).elim 0 fun x => (x.touch result frame).cost) +
        (frame.made? result).elim 0 Result.cost <
      frame.cost + panicCost result + (s.subject? frame).elim 0 Result.cost := by
  have emits := resume_emits effect
  -- a touch leaves no more sources behind, so only the queue is to be looked at
  have touched (x : Result V κ) : (x.touch result frame).cost ≤
      8 * (x.touch result frame).cell.queue.length + x.kind.cost :=
    Nat.add_le_add_left (Result.touch_later result frame).cost_le _
  have commits {o : Outcome V} {merge : ResultId} {index : Nat} {x : Result V κ} {after : Return V}
      (found : s.results[merge]? = some x)
      (kept : (x.touch (.ok (.outcome o)) (.commit merge index)).cell = x.cell)
      (calm : panicCost after ≤ 1) :
      load Frame.cost ([] : List (Frame V κ)) + panicCost after +
          ((s.subject? (.commit merge index)).elim 0 fun x =>
            (x.touch (.ok (.outcome o)) (.commit merge index)).cost) + 0 <
        3 + panicCost (.ok (.outcome o)) +
          (s.subject? (.commit merge index)).elim 0 Result.cost := by
    have le := (Result.touch_later (x := x) (.ok (.outcome o)) (.commit merge index)).cost_le
    simp only [Store.subject?, Frame.subject?, Option.bind_some, found, Option.elim_some, load_nil,
      Result.cost, kept]
    omega
  have made_error {p : Panic} {frame : Frame V κ} :
      frame.made? (.error p : Return V) = none := by
    unfold Frame.made?
    split <;> first | rfl | contradiction
  generalize same : e.result = result' at emits ⊢
  generalize up : e.frames = frames at emits ⊢
  cases emits with
  | passive passive _ _ =>
    cases here.passive passive
    rw [← up, ← same, (resume_create effect).1, (resume_create effect).2]
    simp [Store.subject?, Frame.subject?, Frame.made?, Frame.cost, panicCost, Seed.result,
      Result.cost, Cell.fresh, Kind.cost]
  | @keeps a frame b r x ending found kept _ =>
    have le := touched x
    have cost := here.ending_cost ending
    rw [kept] at le
    simp only [Store.subject?, ending.subject, Option.bind_some, found, Option.elim_some,
      ending.made, Option.elim_none, load_nil, panicCost, Result.cost] at le ⊢
    omega
  | @settles _ frame r x state reply about found settles terminal form =>
    have le := touched x
    rw [settles.cell] at le
    obtain ⟨cost, made⟩ : 3 ≤ frame.cost ∧ frame.made? result = none := by
      rcases form with ending | ⟨index, o, rfl, rfl⟩ | rfl
      · exact ⟨here.ending_cost ending, ending.made⟩
      · exact ⟨Nat.le_refl 3, rfl⟩
      · exact here.elim
    -- the queue goes to the frame that delivers it, at the same cost
    have delivers : load Frame.cost [.deliver r x.cell.queue none reply] =
        2 + 8 * x.cell.queue.length := by simp [Frame.cost]
    have calm : panicCost (.ok .unit : Return V) = 0 := rfl
    simp only [Store.subject?, about, Option.bind_some, found, Option.elim_some, made,
      Option.elim_none, delivers, calm, List.length_nil] at le ⊢
    simp only [Result.cost] at le ⊢
    omega
  | sweeps found pending =>
    simp [Store.subject?, Frame.subject?, found, Result.touch, Result.cancel, Cell.transition,
      pending, Frame.made?, Frame.cost, Result.cost, Kind.cost, Gathering.release, panicCost]
    omega
  | serves _ found foreign => rw [plain.own found] at foreign; cases foreign
  | queues found own waiting =>
    simp [Store.subject?, Frame.subject?, found, Result.touch, Result.register, own, Cell.enqueue,
      waiting, Frame.made?, Frame.cost, Result.cost, panicCost]
    omega
  | performs found own drained =>
    simp [Store.subject?, Frame.subject?, found, Result.touch, Result.register, own, Cell.enqueue,
      drained, Frame.made?, Frame.cost, Result.cost, panicCost]
  | builds =>
    simp [Store.subject?, Frame.subject?, Frame.made?, Frame.cost, Result.cost, Kind.cost,
      Cell.fresh, Gathering.start, panicCost]
    omega
  | opens form =>
    rcases form with ⟨f, p, -, -, rfl, rfl⟩ | ⟨f, o, -, -, rfl, rfl⟩ | ⟨f, code, -, -⟩
    · simp [Store.subject?, Frame.subject?, Frame.made?, Frame.cost, Result.cost, Kind.cost,
        Cell.fresh, Gathering.start, panicCost]
    · simp [Store.subject?, Frame.subject?, Frame.made?, Frame.cost, Result.cost, Kind.cost,
        Cell.fresh, Gathering.start, panicCost]
    · obtain ⟨g, other⟩ := here.1
      cases code.symm.trans other
  | spawns => obtain ⟨merge, index, size, task, -⟩ := here; cases task
  | joins => obtain ⟨merge, index, size, task, -⟩ := here; cases task
  | refuses => obtain ⟨merge, index, size, task, -⟩ := here; cases task
  | inquires found foreign => rw [plain.own found] at foreign; cases foreign
  | @records o merge index cell m found arrival =>
    have kept : (Result.touch ⟨cell, .merge m⟩ (.ok (.outcome o)) (.commit merge index)).cell =
        cell := by
      rcases arrival with arrival | ⟨g, arrival⟩ <;> simp [Result.touch, Result.commit, arrival]
    exact commits found kept (by simp [panicCost])
  | @rejects o merge index cell m p found arrival =>
    have kept : (Result.touch ⟨cell, .merge m⟩ (.ok (.outcome o)) (.commit merge index)).cell =
        cell := by
      rcases arrival with arrival | arrival <;> simp [Result.touch, Result.commit, arrival]
    exact commits found kept (by simp [panicCost])
  | @breaks o merge index cell m values g p f found arrival merger panics =>
    have kept : (Result.touch ⟨cell, .merge m⟩ (.ok (.outcome o)) (.commit merge index)).cell =
        cell := by simp [Result.touch, Result.commit, arrival, merger, panics]
    exact commits found kept (by simp [panicCost])
  | merges found _ _ code =>
    obtain ⟨g, other⟩ := (plain _ _ found).1.1
    cases code.symm.trans other
  | @notifies a r first reply x found =>
    have kept : x.notify.cost = x.cost := rfl
    cases first <;>
      simp [Store.subject?, Frame.subject?, found, Result.touch, kept, Frame.made?, Frame.cost,
        panicCost]
  | @unwinds p frame through =>
    have cost := here.cost_pos
    cases subject : s.subject? frame with
    | none => simpa [made_error] using cost
    | some x =>
      have le := touched x
      rw [Result.touch_error_cell] at le
      simp only [made_error, Option.elim_none, Option.elim_some, load_nil]
      simp only [Result.cost] at le ⊢
      omega
  | @survives p r tasks first reply =>
    have still (x : Result V κ) : x.touch (.error p) (.deliver r tasks first reply) = x :=
      Result.touch_error (by simp)
    simp [still, made_error, Frame.cost, panicCost]
  | catches form => rcases form with rfl | rfl <;> exact here.elim
  | calls => exact here.elim
  | attempts => exact here.elim
  | polls => exact here.elim
  | overtaken => exact here.elim
  | poisons => exact here.elim
  | discards => exact here.elim
  | _ =>
    simp [Store.subject?, Frame.subject?, Frame.made?, Frame.cost, panicCost]
    try omega

end

def Thread.cost (thread : Thread V κ) : Nat :=
  load Frame.cost thread.frames + panicCost thread.result

def System.cost (s : System V κ σ) : Nat :=
  (s.threads.map Thread.cost).sum + (s.store.results.map Result.cost).sum

/-- A system without client code, in which every frame gets the answers that it can go on with. -/
structure System.Ready (s : System V κ σ) : Prop where
  plain : s.Plain
  fits : ∀ thread ∈ s.threads, thread.Fits
  sound : s.Sound
  orderly : s.Orderly

theorem System.ready_empty (client : σ) : (System.mk (.empty client) [] : System V κ σ).Ready :=
  ⟨plain_empty client, (fun _ member => by cases member), sound_empty client, orderly_empty client⟩

section

variable {client : Client V κ σ} {s s₁ : System V κ σ} {t : Nat} {μ : Moment V κ σ}
  {e : Effect V κ σ} {calls : List (Call V κ)} {h : List (Moment V κ σ)}

theorem System.Ready.step (ready : s.Ready) (found : s.moment? t = some μ)
    (yields : μ.Yields client e calls) : (s.after t μ.below e calls).Ready := by
  obtain ⟨plain, fits, sound, orderly⟩ := ready
  obtain ⟨rfl, effect⟩ := plain.resumed found yields
  refine ⟨plain.step found yields, ?_, sound.step found ?_ yields, orderly.step sound found yields⟩
  · have here := (plain.frames.moment found).1
    have selected := List.mem_of_getElem? (moment?_eq_some found).2.2
    exact threads_after ((fits _ selected).step (plain.store.leaves here effect)) fits
      fun c _ => Thread.fits_ofCall c
  · intro c made
    rw [plain.call? found] at made
    cases made

theorem Run.ready (run : Run client Call.Plain s h s₁) (ready : s.Ready) : s₁.Ready := by
  have fair := run.fair
  refine ⟨run.plain ready.plain, ?_, fair.sound ready.sound, fair.orderly ready.sound ready.orderly⟩
  clear fair
  induction run with
  | start => exact ready.fits
  | @step h s₁ s₂ t μ run found step _ ih =>
    obtain ⟨μ', e, calls, moment, yields, rfl⟩ := System.step_yields step
    have fair := run.fair
    have before : s₁.Ready := ⟨run.plain ready.plain, ih, fair.sound ready.sound,
      fair.orderly ready.sound ready.orderly⟩
    exact (before.step moment yields).fits
  | begin c _ _ ih => exact System.threads_begin ih (Thread.fits_ofCall c)
  | pass now _ _ ih => exact ih

/-- No lock is held where no merger is client code. -/
theorem System.Ready.free (ready : s.Ready) {r : ResultId} {x : Result V κ}
    (found : s.store.results[r]? = some x) : x.isHeld = false := by
  have none : s.weight (Frame.merges r) = 0 := by
    apply weight_eq_zero_iff.mpr
    intro thread member frame included
    have plain := ready.plain.frames thread member frame included
    cases frame with
    | merging merge => exact plain.elim
    | _ => rfl
  have lock := (ready.orderly.there r x found).lock
  rw [none] at lock
  cases held : x.isHeld with
  | false => rfl
  | true => simp [held] at lock

/-- As long as a frame is left, some thread can take a step. -/
theorem System.Ready.moves (ready : s.Ready) (busy : ¬ s.Quiet) :
    ∃ t s', s.step client t = some s' := by
  obtain ⟨thread, member, some⟩ : ∃ thread ∈ s.threads, thread.frames ≠ [] := by
    simpa [Quiet] using busy
  obtain ⟨t, selected⟩ := List.mem_iff_getElem?.mp member
  obtain ⟨result, frames⟩ := thread
  cases frames with
  | nil => exact absurd rfl some
  | cons frame below =>
    have found : s.moment? t = Option.some ⟨s.store, t, result, frame, below⟩ := by
      simp [moment?, selected]
    have here : frame.Plain s.store := (ready.plain.frames.moment found).1
    obtain ⟨e, effect⟩ : ∃ e, s.store.resume client result frame = Option.some e :=
      ready.plain.store.progress (fun r x => ready.free) here ((ready.fits _ member).top frame rfl)
    exact ⟨t, _, step_of_resume selected effect⟩

/-- With every step less is left to be done. -/
theorem System.Ready.pays (ready : s.Ready) (found : s.moment? t = some μ)
    (yields : μ.Yields client e calls) : (s.after t μ.below e calls).cost < s.cost := by
  obtain ⟨rfl, effect⟩ := ready.plain.resumed found yields
  have selected := (moment?_eq_some found).2.2
  have pays := ready.plain.store.pays (ready.plain.frames.moment found).1 effect
  -- only the touched result, a new one, and the thread that steps have another cost than before
  have stored := (Store.resume_touches effect).sum Result.cost
  have moved := sum_set Thread.cost ⟨e.result, e.frames ++ μ.below⟩ selected
  simp only [Thread.cost, load_cons, load_append] at moved
  simp only [System.cost, System.after, List.map_nil, List.append_nil]
  omega

/-- If nothing else is called, the threads take a bounded number of steps in whatever order, and
some thread can go on until all of them have ended. -/
def System.Ends (client : Client V κ σ) (s : System V κ σ) : Prop :=
  ∃ bound, ∀ h s₁, Run client (fun _ _ => False) s h s₁ →
    h.length ≤ bound ∧ (¬ s₁.Quiet → ∃ t s₂, s₁.step client t = some s₂)

theorem Run.cost_le (run : Run client (fun _ _ => False) s h s₁) (ready : s.Ready) :
    h.length + s₁.cost ≤ s.cost := by
  induction run with
  | start => simp
  | step run found step _ ih =>
    obtain ⟨μ, e, calls, moment, yields, rfl⟩ := System.step_yields step
    cases found.symm.trans moment
    have plain : Run client Call.Plain s _ _ := run.mono fun _ _ => False.elim
    have pays := (plain.ready ready).pays found yields
    rw [List.length_append, List.length_singleton]
    omega
  | begin c _ obeyed => exact obeyed.elim
  | pass now _ _ ih => exact ih

theorem System.Ready.ends (ready : s.Ready) : s.Ends client := by
  refine ⟨s.cost, fun h s₁ run => ⟨?_, ?_⟩⟩
  · have spent := run.cost_le ready
    omega
  · have plain : Run client Call.Plain s h s₁ := run.mono fun _ _ => False.elim
    exact (plain.ready ready).moves

end

end Quorate
