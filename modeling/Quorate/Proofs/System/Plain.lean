import Quorate.Proofs.System.Orderly
import Quorate.Proofs.System.Queue

/-! Systems without client code: settable results, and merges with plain mergers. In such a system
every frame is part of a call on a result that is there, and every callback lets a merge look at a
source. -/

set_option autoImplicit false

namespace Quorate

variable {V κ σ : Type}

def Merger.Plain (merger : Merger V κ) : Prop := ∃ f, merger = .plain f

/-- A callback by which a merge looks at a source, inline. -/
def Task.Plain (s : Store V κ σ) (task : Task κ) : Prop :=
  ∃ merge index size, task = ⟨.observe merge index, .inline⟩ ∧ s.IsMerge merge size

def Kind.Plain (s : Store V κ σ) : Kind V κ → Prop
  | .settable | .latch _ => True
  | .merge m => m.merger.Plain ∧ ∀ r ∈ m.gathering.sources, r < s.results.length
  | .foreign .. => False

def Store.Plain (s : Store V κ σ) : Prop :=
  ∀ (r : ResultId) (x : Result V κ), s.results[r]? = some x →
    x.kind.Plain s ∧ ∀ task ∈ x.cell.queue, task.Plain s

/-- A call from outside: by a producer, by an observer, or to make a merge. -/
def Call.Plain (s : Store V κ σ) : Call V κ → Prop
  | .create .settable => True
  | .complete r state => s.Takes r state
  | .cancel r => r < s.results.length
  | .build merger sources => merger.Plain ∧ ∀ r ∈ sources, r < s.results.length
  | _ => False

def Frame.Plain (s : Store V κ σ) : Frame V κ → Prop
  | .call (.create .settable) => True
  | .call (.complete r _) | .call (.cancel r) => r < s.results.length
  | .call (.build merger sources) => merger.Plain ∧ ∀ r ∈ sources, r < s.results.length
  | .call (.register r task) => r < s.results.length ∧ task.Plain s
  | .call (.perform task) => task.Plain s
  | .start (.observe merge _) | .lookup merge _ | .commit merge _ | .opening merge =>
    ∃ size, s.IsMerge merge size
  | .query merge _ source => (∃ size, s.IsMerge merge size) ∧ source < s.results.length
  | .deliver r tasks _ _ => r < s.results.length ∧ ∀ task ∈ tasks, task.Plain s
  | .sweep merge sources _ drained => merge < s.results.length ∧
      (∀ r ∈ sources, r < s.results.length) ∧ ∀ task ∈ drained, task.Plain s
  | .attach merge sources _ =>
    (∃ size, s.IsMerge merge size) ∧ ∀ r ∈ sources, r < s.results.length
  | _ => False

theorem Store.IsMerge.there {s : Store V κ σ} {r : ResultId} {size : Nat}
    (merge : s.IsMerge r size) : r < s.results.length := by
  obtain ⟨cell, m, found, -⟩ := merge
  exact (List.getElem?_eq_some_iff.mp found).1

theorem Store.Takes.there {s : Store V κ σ} {r : ResultId} {state : State V}
    (takes : s.Takes r state) : r < s.results.length := by
  obtain ⟨x, found, -⟩ := takes
  exact (List.getElem?_eq_some_iff.mp found).1

theorem Call.Plain.frame {s : Store V κ σ} {c : Call V κ} (plain : c.Plain s) :
    (Frame.call c).Plain s := by
  cases c with
  | create seed => cases seed <;> trivial
  | complete r state => exact plain.there
  | register r task => exact plain.elim
  | perform task => exact plain.elim
  | _ => exact plain

theorem Call.Plain.fair {s : Store V κ σ} {c : Call V κ} (plain : c.Plain s) : c.Fair s := by
  cases c with
  | complete r state => exact plain
  | fork c => exact plain.elim
  | _ => trivial

namespace Store.Later

variable {s s' : Store V κ σ} (later : s.Later s')
include later

theorem there {r : ResultId} (here : r < s.results.length) : r < s'.results.length := by
  obtain ⟨x', found, -⟩ := later r _ (List.getElem?_eq_getElem here)
  exact (List.getElem?_eq_some_iff.mp found).1

theorem task_plain {task : Task κ} (plain : task.Plain s) : task.Plain s' := by
  obtain ⟨merge, index, size, same, isMerge⟩ := plain
  exact ⟨merge, index, size, same, later.isMerge isMerge⟩

theorem kind_plain {kind : Kind V κ} (plain : kind.Plain s) : kind.Plain s' := by
  cases kind with
  | merge m => exact ⟨plain.1, fun r member => later.there (plain.2 r member)⟩
  | _ => exact plain

theorem frame_plain {frame : Frame V κ} (plain : frame.Plain s) : frame.Plain s' := by
  have merges {merge : ResultId} (isMerge : ∃ size, s.IsMerge merge size) :
      ∃ size, s'.IsMerge merge size := by
    obtain ⟨size, isMerge⟩ := isMerge
    exact ⟨size, later.isMerge isMerge⟩
  cases frame with
  | call c =>
    cases c with
    | create seed => cases seed <;> trivial
    | complete r state => exact later.there plain
    | cancel r => exact later.there plain
    | build merger sources => exact ⟨plain.1, fun r member => later.there (plain.2 r member)⟩
    | register r task => exact ⟨later.there plain.1, later.task_plain plain.2⟩
    | perform task => exact later.task_plain plain
    | _ => exact plain.elim
  | start callback =>
    cases callback with
    | observe merge index => exact merges plain
    | _ => exact plain.elim
  | lookup merge index => exact merges plain
  | commit merge index => exact merges plain
  | query merge index source => exact ⟨merges plain.1, later.there plain.2⟩
  | deliver r tasks first reply =>
    exact ⟨later.there plain.1, fun task member => later.task_plain (plain.2 task member)⟩
  | sweep merge sources all drained =>
    exact ⟨later.there plain.1, fun r member => later.there (plain.2.1 r member),
      fun task member => later.task_plain (plain.2.2 task member)⟩
  | attach merge sources index =>
    exact ⟨merges plain.1, fun r member => later.there (plain.2 r member)⟩
  | opening merge => exact merges plain
  | _ => exact plain.elim

end Store.Later

section

variable {client : Client V κ σ} {s : Store V κ σ} {result : Return V} {frame : Frame V κ}
  {e : Effect V κ σ}

theorem Store.Plain.own (plain : s.Plain) {r : ResultId} {x : Result V κ}
    (found : s.results[r]? = some x) : x.isForeign = false := by
  obtain ⟨cell, kind⟩ := x
  cases kind with
  | foreign done cancelled => exact (plain r _ found).1.elim
  | _ => rfl

/-- A plain frame that carries no callback makes a result. -/
theorem Frame.Plain.passive (plain : frame.Plain s) (passive : frame.Passive) :
    frame = .call (.create .settable) := by
  cases frame with
  | call c =>
    cases c with
    | create seed => cases seed <;> first | rfl | exact plain.elim
    | _ => first | exact plain.elim | exact passive.elim
  | start callback => cases callback <;> first | exact plain.elim | exact passive.elim
  | _ => first | exact plain.elim | exact passive.elim

theorem resume_create {a : Answer V}
    (effect : s.resume client (.ok a) (.call (.create .settable)) = some e) :
    e.frames = [] ∧ e.result = .ok (.result s.results.length) := by
  cases effect
  exact ⟨rfl, rfl⟩

/-- The frames that a plain frame leaves are plain. -/
theorem Store.Plain.frames (plain : s.Plain) (here : frame.Plain s)
    (effect : s.resume client result frame = some e) : ∀ f ∈ e.frames, f.Plain e.store := by
  have touches := resume_touches effect
  have later := touches.later
  have emits := resume_emits effect
  have built {merger : Merger V κ} {sources : List ResultId} {a : Answer V}
      (answered : result = .ok a) (builds : frame = .call (.build merger sources)) :
      ∃ size, e.store.IsMerge s.results.length size := by
    have made := touches.made
    rw [answered, builds] at made
    exact ⟨sources.length, _, _, made, rfl⟩
  have merging {merge : ResultId} (isMerge : ∃ size, s.IsMerge merge size) :
      ∃ size, e.store.IsMerge merge size := by
    obtain ⟨size, isMerge⟩ := isMerge
    exact ⟨size, later.isMerge isMerge⟩
  generalize same : e.result = result' at emits
  generalize up : e.frames = frames at emits
  intro f member
  cases emits with
  | passive passive _ _ =>
    cases here.passive passive
    rw [← up, (resume_create effect).1] at member
    cases member
  | settles about found settles _ _ =>
    rw [List.mem_singleton.mp member]
    refine ⟨later.there (List.getElem?_eq_some_iff.mp found).1, fun task queued => ?_⟩
    exact later.task_plain ((plain _ _ found).2 task queued)
  | sweeps found _ =>
    rw [List.mem_singleton.mp member]
    refine ⟨later.there (List.getElem?_eq_some_iff.mp found).1, fun r included => ?_,
      fun task queued => later.task_plain ((plain _ _ found).2 task queued)⟩
    exact later.there ((plain _ _ found).1.2 r included)
  | serves _ found foreign => rw [plain.own found] at foreign; cases foreign
  | performs =>
    rw [List.mem_singleton.mp member]
    exact later.task_plain here.2
  | builds =>
    rw [List.mem_singleton.mp member]
    exact ⟨built rfl rfl, fun r included => later.there (here.2 r included)⟩
  | opens form =>
    rcases form with ⟨f, p, -, -, -, rfl⟩ | ⟨f, o, -, -, -, rfl⟩ | ⟨f, code, -, -⟩
    · cases member
    · rw [List.mem_singleton.mp member]
      exact built rfl rfl
    · obtain ⟨g, other⟩ := here.1
      cases code.symm.trans other
  | completes =>
    simp only [List.mem_cons, List.not_mem_nil, or_false] at member
    rcases member with rfl | rfl
    · obtain ⟨size, isMerge⟩ := here
      exact later.there isMerge.there
    · exact ⟨merging here, by simp⟩
  | inline =>
    rw [List.mem_singleton.mp member]
    obtain ⟨merge, index, size, task, isMerge⟩ := here
    cases task
    exact ⟨size, later.isMerge isMerge⟩
  | spawns => obtain ⟨merge, index, size, task, -⟩ := here; cases task
  | joins => obtain ⟨merge, index, size, task, -⟩ := here; cases task
  | observes =>
    rw [List.mem_singleton.mp member]
    exact merging here
  | finds found selected =>
    rw [List.mem_singleton.mp member]
    exact ⟨merging here, later.there ((plain _ _ found).1.2 _ (List.mem_of_getElem? selected))⟩
  | inquires found foreign => rw [plain.own found] at foreign; cases foreign
  | reads =>
    rw [List.mem_singleton.mp member]
    exact merging here.1
  | merges found _ _ code =>
    obtain ⟨g, other⟩ := (plain _ _ found).1.1
    cases code.symm.trans other
  | registers =>
    simp only [List.mem_cons, List.not_mem_nil, or_false] at member
    rcases member with rfl | rfl
    · obtain ⟨size, isMerge⟩ := merging here.1
      exact ⟨later.there (here.2 _ (by simp)), _, _, size, rfl, isMerge⟩
    · exact ⟨merging here.1, fun r included => later.there (here.2 r (by simp [included]))⟩
  | asks =>
    simp only [List.mem_cons, List.not_mem_nil, or_false] at member
    rcases member with rfl | rfl
    · exact later.there (here.2.1 _ (by simp))
    · exact ⟨later.there here.1, fun r included => later.there (here.2.1 r (by simp [included])),
        fun task queued => later.task_plain (here.2.2 task queued)⟩
  | swept =>
    rw [List.mem_singleton.mp member]
    exact ⟨later.there here.1, fun task queued => later.task_plain (here.2.2 task queued)⟩
  | delivers =>
    simp only [List.mem_cons, List.not_mem_nil, or_false] at member
    rcases member with rfl | rfl
    · exact later.task_plain (here.2 _ (by simp))
    · exact ⟨later.there here.1, fun task queued =>
        later.task_plain (here.2 task (by simp [queued]))⟩
  | survives =>
    rw [List.mem_singleton.mp member]
    exact ⟨later.there here.1, fun task queued => later.task_plain (here.2 task queued)⟩
  | calls => exact here.elim
  | attempts => exact here.elim
  | polls => exact here.elim
  | _ => cases member

/-- A step leaves a plain store. -/
theorem Store.Plain.step (plain : s.Plain) (here : frame.Plain s)
    (touches : s.Touches result frame e) : e.store.Plain := by
  have later := touches.later
  intro r x' after
  cases before : s.results[r]? with
  | some x =>
    obtain ⟨kind, queue⟩ := plain r x before
    have moved := touches.there r x before
    cases after.symm.trans moved
    have kept : x.Later (if frame.subject? = some r then x.touch result frame else x) := by
      split
      next => exact Result.touch_later _ _
      next => exact .refl x
    refine ⟨?_, fun task member => ?_⟩
    · -- a merge keeps its merger, and its sources as long as it has any
      have kinds := kept.kind
      cases old : x.kind with
      | foreign done cancelled => rw [old] at kind; exact kind.elim
      | merge m =>
        rw [old] at kind kinds
        cases new : (if frame.subject? = some r then x.touch result frame else x).kind with
        | merge m' =>
          rw [new] at kinds
          obtain ⟨-, merger, sources⟩ := kinds
          refine ⟨by rw [merger]; exact kind.1, fun source member => ?_⟩
          rcases sources with same | none
          · rw [same] at member
            exact later.there (kind.2 source member)
          · rw [none] at member
            cases member
        | _ => rw [new] at kinds; exact kinds.elim
      | _ =>
        rw [old] at kinds
        cases new : (if frame.subject? = some r then x.touch result frame else x).kind <;>
          rw [new] at kinds <;> trivial
    · split at member
      next about =>
        rcases Result.touch_queue member with member | ⟨r', rfl⟩
        · exact later.task_plain (queue task member)
        · exact later.task_plain here.2
      next => exact later.task_plain (queue task member)
  | none =>
    obtain ⟨-, made⟩ := touches.new before after
    refine ⟨?_, fun task member => ?_⟩
    · unfold Frame.made? at made
      split at made
      next seed =>
        cases made
        cases seed <;> trivial
      next merger sources =>
        cases made
        exact ⟨here.1, fun source member => later.there (here.2 source member)⟩
      next => cases made
    · rw [Frame.made?_queue made] at member
      cases member

end

/-- A system without client code. -/
structure System.Plain (s : System V κ σ) : Prop where
  store : s.store.Plain
  frames : s.Each (Frame.Plain s.store)

theorem System.plain_empty (client : σ) : (System.mk (.empty client) [] : System V κ σ).Plain :=
  ⟨fun _ _ found => by simp [Store.empty] at found, fun _ member => by cases member⟩

section

variable {client : Client V κ σ} {s s₁ : System V κ σ} {t : Nat} {μ : Moment V κ σ}
  {e : Effect V κ σ} {calls : List (Call V κ)} {h : List (Moment V κ σ)}

/-- Plain frames take steps of their own, and make no calls on new threads. -/
theorem System.Plain.resumed (plain : s.Plain) (found : s.moment? t = some μ)
    (yields : μ.Yields client e calls) :
    calls = [] ∧ s.store.resume client μ.result μ.frame = some e := by
  have here := (plain.frames.moment found).1
  rw [← (moment?_eq_some found).1]
  cases yields with
  | resumed effect => exact ⟨rfl, effect⟩
  | forked t answered frame => rw [frame] at here; exact here.elim
  | joined b answered frame => rw [frame] at here; exact here.elim

theorem System.Plain.step (plain : s.Plain) (found : s.moment? t = some μ)
    (yields : μ.Yields client e calls) : (s.after t μ.below e calls).Plain := by
  obtain ⟨rfl, effect⟩ := plain.resumed found yields
  have here := (plain.frames.moment found).1
  have touches := Store.resume_touches effect
  refine ⟨plain.store.step here touches, ?_⟩
  exact (plain.frames.mono fun _ => touches.later.frame_plain).after found
    (plain.store.frames here effect) (by simp)

/-- No plain frame is client code. -/
theorem System.Plain.call? (plain : s.Plain) (found : s.moment? t = some μ) :
    μ.call? client = none := by
  have here := (plain.frames.moment found).1
  unfold Moment.call?
  split
  next frame => rw [frame] at here; exact here.elim
  next => rfl

theorem Run.fair (run : Run client Call.Plain s h s₁) : Run client Call.Fair s h s₁ :=
  run.mono fun _ _ => Call.Plain.fair

theorem Run.plain (run : Run client Call.Plain s h s₁) (plain : s.Plain) : s₁.Plain := by
  induction run with
  | start => exact plain
  | step _ found step _ ih =>
    obtain ⟨μ, e, calls, moment, yields, rfl⟩ := System.step_yields step
    exact ih.step moment yields
  | begin c _ obeyed ih => exact ⟨ih.store, ih.frames.begin obeyed.frame⟩
  | @pass h s₁ now _ _ ih =>
    have later : s₁.store.Later (s₁.pass now).store := Store.later_of_results rfl
    refine ⟨fun r x found => ?_, ih.frames.mono fun _ => later.frame_plain⟩
    obtain ⟨kind, queue⟩ := ih.store r x found
    exact ⟨later.kind_plain kind, fun task member => later.task_plain (queue task member)⟩

end

end Quorate
