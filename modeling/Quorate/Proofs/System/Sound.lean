import Quorate.Proofs.System.Emit

/-! Calls that a client can make. A result is completed only by its producer: a settable result with
any terminal state, a latch with a failure. A merge is completed from outside only if it has no
sources, by the construction that made it. -/

set_option autoImplicit false

namespace Quorate

variable {V κ σ : Type}

/-- Whether a producer of a result can give it a state. -/
def Result.Takes (x : Result V κ) (state : State V) : Prop :=
  match x.kind with
  | .settable => state.isPending = false
  | .latch _ => ∃ e, state = .failed e
  | _ => False

namespace Store

def Takes (s : Store V κ σ) (r : ResultId) (state : State V) : Prop :=
  ∃ x, s.results[r]? = some x ∧ x.Takes state

def IsMerge (s : Store V κ σ) (r : ResultId) (size : Nat) : Prop :=
  ∃ cell m, s.results[r]? = some ⟨cell, .merge m⟩ ∧ m.size = size

/-- No merge holds more sources than it has positions. -/
def Sized (s : Store V κ σ) : Prop :=
  ∀ (r : ResultId) (cell : Cell V (Task κ)) (m : Merge V κ),
    s.results[r]? = some ⟨cell, .merge m⟩ → m.gathering.sources.length ≤ m.size

end Store

/-- A call that respects what producers hold. -/
def Call.Fair (s : Store V κ σ) : Call V κ → Prop
  | .complete r state => s.Takes r state
  | .fork c => c.Fair s
  | _ => True

/-- The same for a call on a stack, where the construction of a merge without sources completes
it. -/
def Call.Sound (s : Store V κ σ) : Call V κ → Prop
  | .complete r state => s.Takes r state ∨ s.IsMerge r 0 ∧ ∃ o, state = .ofOutcome o
  | .fork c => c.Sound s
  | _ => True

/-- What a frame takes for granted about the merge it is about. -/
def Frame.Sound (s : Store V κ σ) : Frame V κ → Prop
  | .call c => c.Sound s
  | .opening merge => s.IsMerge merge 0
  | .query merge index _ | .commit merge index => ∃ size, s.IsMerge merge size ∧ index < size
  | .merging merge => ∃ size, s.IsMerge merge size
  | _ => True

theorem Call.Fair.sound {s : Store V κ σ} {c : Call V κ} (fair : c.Fair s) : c.Sound s := by
  induction c with
  | complete r state => exact .inl fair
  | fork c ih => exact ih fair
  | _ => trivial

theorem Frame.Passive.sound {s : Store V κ σ} {frame : Frame V κ} (passive : frame.Passive) :
    frame.Sound s := by
  cases frame with
  | call c => cases c <;> trivial
  | _ => trivial

namespace Store.Later

variable {s s' : Store V κ σ} (later : s.Later s')
include later

theorem takes {r : ResultId} {state : State V} (takes : s.Takes r state) : s'.Takes r state := by
  obtain ⟨⟨cell, kind⟩, found, takes⟩ := takes
  obtain ⟨⟨cell', kind'⟩, found', ⟨kinds, -, -⟩⟩ := later r _ found
  refine ⟨_, found', ?_⟩
  cases kind <;> cases kind' <;> first | exact takes | exact kinds.elim

theorem isMerge {r : ResultId} {size : Nat} (merge : s.IsMerge r size) : s'.IsMerge r size := by
  obtain ⟨cell, m, found, same⟩ := merge
  obtain ⟨⟨cell', kind'⟩, found', ⟨kinds, -, -⟩⟩ := later r _ found
  cases kind' with
  | merge m' => exact ⟨cell', m', found', kinds.1.trans same⟩
  | _ => exact kinds.elim

theorem call_sound {c : Call V κ} (sound : c.Sound s) : c.Sound s' := by
  induction c with
  | complete r state =>
    rcases sound with takes | ⟨merge, outcome⟩
    · exact .inl (later.takes takes)
    · exact .inr ⟨later.isMerge merge, outcome⟩
  | fork c ih => exact ih sound
  | _ => trivial

theorem frame_sound {frame : Frame V κ} (sound : frame.Sound s) : frame.Sound s' := by
  cases frame with
  | call c => exact later.call_sound sound
  | opening merge => exact later.isMerge sound
  | query merge index source =>
    obtain ⟨size, merge, bound⟩ := sound
    exact ⟨size, later.isMerge merge, bound⟩
  | commit merge index =>
    obtain ⟨size, merge, bound⟩ := sound
    exact ⟨size, later.isMerge merge, bound⟩
  | merging merge =>
    obtain ⟨size, merge⟩ := sound
    exact ⟨size, later.isMerge merge⟩
  | _ => trivial

end Store.Later

/-- Every frame of every thread is as `P` says. -/
def System.Each (P : Frame V κ → Prop) (s : System V κ σ) : Prop :=
  ∀ thread ∈ s.threads, ∀ frame ∈ thread.frames, P frame

namespace System

variable {s : System V κ σ} {t : Nat} {μ : Moment V κ σ} {P : Frame V κ → Prop}

theorem Each.moment (each : s.Each P) (found : s.moment? t = some μ) :
    P μ.frame ∧ ∀ frame ∈ μ.below, P frame := by
  have selected := (moment?_eq_some found).2.2
  have frames := each _ (List.mem_of_getElem? selected)
  exact ⟨frames _ (by simp), fun frame member => frames frame (by simp [member])⟩

theorem Each.after {e : Effect V κ σ} {calls : List (Call V κ)} (each : s.Each P)
    (found : s.moment? t = some μ) (frames : ∀ frame ∈ e.frames, P frame)
    (begun : ∀ c ∈ calls, P (.call c)) : (s.after t μ.below e calls).Each P := by
  intro thread member frame included
  simp only [System.after, List.mem_append, List.mem_map] at member
  rcases member with member | ⟨c, member, rfl⟩
  · rcases List.mem_or_eq_of_mem_set member with member | rfl
    · exact each _ member _ included
    · rcases List.mem_append.mp included with included | included
      · exact frames _ included
      · exact (each.moment found).2 _ included
  · simp only [Thread.ofCall, List.mem_singleton] at included
    exact included ▸ begun c member

theorem Each.begin {c : Call V κ} (each : s.Each P) (call : P (.call c)) :
    (s.begin c).Each P := by
  apply threads_begin each
  intro frame included
  simp only [Thread.ofCall, List.mem_singleton] at included
  exact included ▸ call

theorem Each.mono {P' : Frame V κ → Prop} (each : s.Each P) (weaker : ∀ frame, P frame → P' frame) :
    s.Each P' :=
  fun thread member frame included => weaker _ (each thread member frame included)

end System

namespace Store

variable {client : Client V κ σ} {s : Store V κ σ} {e : Effect V κ σ}

theorem Touches.sized {result : Return V} {frame : Frame V κ} (touches : s.Touches result frame e)
    (sized : s.Sized) : e.store.Sized := by
  intro r cell m found
  rcases Nat.lt_or_ge r s.results.length with there | beyond
  · -- a merge that was there holds the sources it had, or none
    obtain ⟨⟨cell₀, kind₀⟩, before⟩ : ∃ x, s.results[r]? = some x :=
      ⟨_, List.getElem?_eq_getElem there⟩
    obtain ⟨x', after, ⟨kinds, -, -⟩⟩ := touches.later r _ before
    cases after.symm.trans found
    cases kind₀ with
    | merge m₀ =>
      obtain ⟨size, -, sources⟩ := kinds
      have fits := sized r cell₀ m₀ before
      rcases sources with same | none
      · rw [size, same]; exact fits
      · simp [none]
    | _ => exact kinds.elim
  · have made := (touches.new (List.getElem?_eq_none_iff.mpr beyond) found).2
    unfold Frame.made? at made
    split at made
    next seed => cases seed <;> cases made
    next => cases made; simp [Gathering.start]
    next => cases made

/-- What a step puts in the place of its frame takes for granted only what holds after the step. -/
theorem resume_sound {result : Return V} {frame : Frame V κ} (sized : s.Sized)
    (sound : frame.Sound s)
    (fair : ∀ c, (Moment.mk s 0 result frame []).call? client = some c → c.Fair s)
    (effect : s.resume client result frame = some e) : ∀ f ∈ e.frames, f.Sound e.store := by
  have touches := resume_touches effect
  have later := touches.later
  have made := touches.made
  have emits := resume_emits effect
  generalize e.result = result' at emits
  generalize e.frames = frames at emits ⊢
  cases emits with
  | passive _ passes _ => exact fun f member => (passes f member).sound
  | @calls _ _ _ c action =>
    have sound := (fair c (by simp [Moment.call?, action])).sound
    simpa [Frame.Sound] using later.call_sound sound
  | @attempts _ _ _ c action =>
    have sound := (fair c (by simp [Moment.call?, action])).sound
    simpa [Frame.Sound] using later.call_sound sound
  | opens form =>
    have built : e.store.IsMerge s.results.length 0 := ⟨_, _, made, rfl⟩
    rcases form with ⟨f, p, -, -, -, rfl⟩ | ⟨f, o, -, -, -, rfl⟩ | ⟨f, -, -, rfl⟩ <;>
      simp [Frame.Sound, built]
  | @completes merge o =>
    have takes : (Call.complete merge (.ofOutcome o)).Sound e.store :=
      .inr ⟨later.isMerge sound, o, rfl⟩
    simpa [Frame.Sound] using takes
  | @finds a merge index cell m source found selected =>
    -- a merge is as large as every position at which it holds a source calls for
    have bound := (List.getElem?_eq_some_iff.mp selected).1
    have fits := sized merge cell m found
    have built : e.store.IsMerge merge m.size := later.isMerge ⟨cell, m, found, rfl⟩
    simpa [Frame.Sound] using ⟨m.size, built, by omega⟩
  | inquires | reads =>
    obtain ⟨size, merge, bound⟩ := sound
    simpa [Frame.Sound] using ⟨size, later.isMerge merge, bound⟩
  | @merges o merge index cell m values g f found =>
    have built : e.store.IsMerge merge m.size := later.isMerge ⟨cell, m, found, rfl⟩
    simpa [Frame.Sound] using ⟨m.size, built⟩
  | _ => simp [Frame.Sound, Call.Sound]

end Store

/-- Frames take for granted what holds, and merges have room for their sources. -/
structure System.Sound (s : System V κ σ) : Prop where
  frames : s.Each (Frame.Sound s.store)
  sized : s.store.Sized

theorem System.sound_empty (client : σ) : (System.mk (.empty client) [] : System V κ σ).Sound :=
  ⟨fun _ member => by simp at member, fun _ _ _ found => by simp [Store.empty] at found⟩

theorem System.Sound.step {client : Client V κ σ} {s : System V κ σ} {t : Nat} {μ : Moment V κ σ}
    {e : Effect V κ σ} {calls : List (Call V κ)} (sound : s.Sound) (found : s.moment? t = some μ)
    (fair : ∀ c, μ.call? client = some c → c.Fair μ.store) (yields : μ.Yields client e calls) :
    (s.after t μ.below e calls).Sound := by
  have touches := yields.touches
  have same := (moment?_eq_some found).1
  have sized := sound.sized
  have here := (sound.frames.moment found).1
  have frames := sound.frames
  rw [← same] at sized here frames
  have later := touches.later
  refine ⟨?_, touches.sized sized⟩
  refine (frames.mono fun frame => later.frame_sound).after found ?_ ?_
  · cases yields with
    | resumed effect => exact Store.resume_sound sized here fair effect
    | forked _ _ _ => simp
    | joined _ _ _ => simp
  · intro c member
    cases yields with
    | resumed _ => simp at member
    | forked _ _ frame =>
      rw [List.mem_singleton.mp member]
      rw [frame] at here
      exact later.call_sound here
    | joined _ _ _ => simp at member

theorem Run.sound {client : Client V κ σ} {s s₁ : System V κ σ} {h : List (Moment V κ σ)}
    (run : Run client Call.Fair s h s₁) (sound : s.Sound) : s₁.Sound := by
  induction run with
  | start => exact sound
  | step _ found step fair ih =>
    obtain ⟨μ, e, calls, moment, yields, rfl⟩ := System.step_yields step
    cases found.symm.trans moment
    exact ih.step moment fair yields
  | begin c _ fair ih => exact ⟨ih.frames.begin fair.sound, ih.sized⟩
  | @pass _ s₁ now _ _ ih =>
    have later : s₁.store.Later (s₁.pass now).store := Store.later_of_results rfl
    exact ⟨ih.frames.mono fun _ => later.frame_sound, ih.sized⟩

section

/-- Decides whether a producer of a result can give it a state. -/
def Result.takes (x : Result V κ) (state : State V) : Bool :=
  match x.kind, state with
  | .settable, state => !state.isPending
  | .latch _, .failed _ => true
  | _, _ => false

theorem Result.takes_iff (x : Result V κ) (state : State V) :
    x.takes state = true ↔ x.Takes state := by
  obtain ⟨cell, kind⟩ := x
  cases kind <;> cases state <;> simp [takes, Takes, State.isPending]

def Call.isFair (s : Store V κ σ) : Call V κ → Bool
  | .complete r state => (s.results[r]?).any fun x => x.takes state
  | .fork c => c.isFair s
  | _ => true

theorem Call.isFair_iff (s : Store V κ σ) (c : Call V κ) : c.isFair s = true ↔ c.Fair s := by
  induction c with
  | complete r state =>
    simp only [isFair, Fair, Option.any_eq_true, Store.Takes]
    exact exists_congr fun x => and_congr Option.mem_def (x.takes_iff state)
  | fork c ih => exact ih
  | _ => simp [isFair, Fair]

variable (client : Client V κ σ)

/-- Begin calls one after the other, each with the number of steps it takes on its thread. A call
that is not fair is left out. -/
def System.perform (s : System V κ σ) :
    List (Call V κ × Nat) → List (Moment V κ σ) × System V κ σ
  | [] => ([], s)
  | (c, count) :: calls =>
    if c.isFair s.store then
      let (h, s) := s.call client c count
      let (h', s) := s.perform calls
      (h ++ h', s)
    else s.perform calls

variable {client}

theorem Run.perform (silent : ∀ μ c, Moment.call? client μ = some c → c.Fair μ.store)
    (s : System V κ σ) (calls : List (Call V κ × Nat)) :
    Run client Call.Fair s (s.perform client calls).1 (s.perform client calls).2 := by
  induction calls generalizing s with
  | nil => exact .start
  | cons call calls ih =>
    obtain ⟨c, count⟩ := call
    unfold System.perform
    split
    next fair =>
      exact (Run.call silent s ((c.isFair_iff _).mp fair) count).trans (ih _)
    next => exact ih s

end

theorem Client.panicking_fair {V : Type} {p : Panic} (μ : Moment V Unit Unit) (c : Call V Unit)
    (made : μ.call? (.panicking V p) = some c) : c.Fair μ.store := by
  rw [Client.panicking_call?] at made
  cases made

end Quorate
