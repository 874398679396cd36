import Mathlib.Algebra.GroupWithZero.Nat
import Quorate.Proofs.System.Emit

/-! Frames counted with weights over all threads, and results over a store. A step takes the weight
of its frame and its subject away and adds the weight of what it puts there. -/

set_option autoImplicit false

namespace Quorate

variable {V κ σ : Type}

/-- The sum of the weights of some frames. -/
def load (w : Frame V κ → Nat) (frames : List (Frame V κ)) : Nat := (frames.map w).sum

section

variable (w : Frame V κ → Nat)

@[simp] theorem load_nil : load w [] = 0 := rfl

@[simp] theorem load_cons (frame : Frame V κ) (frames : List (Frame V κ)) :
    load w (frame :: frames) = w frame + load w frames := by simp [load]

@[simp] theorem load_append (frames frames' : List (Frame V κ)) :
    load w (frames ++ frames') = load w frames + load w frames' := by simp [load]

theorem load_calls (weightless : ∀ c, w (.call c) = 0) (calls : List (Call V κ)) :
    load w (calls.map .call) = 0 := by
  induction calls with
  | nil => rfl
  | cons c calls ih => rw [List.map_cons, load_cons, weightless, ih]

end

namespace System

/-- The weight of all frames of all threads. -/
def weight (w : Frame V κ → Nat) (s : System V κ σ) : Nat :=
  (s.threads.map fun thread => load w thread.frames).sum

variable {w : Frame V κ → Nat} {s : System V κ σ} {t : Nat} {μ : Moment V κ σ}

theorem sum_set (f : Thread V κ → Nat) {threads : List (Thread V κ)} {thread : Thread V κ}
    (thread' : Thread V κ) (found : threads[t]? = some thread) :
    ((threads.set t thread').map f).sum + f thread = (threads.map f).sum + f thread' := by
  induction threads generalizing t with
  | nil => simp at found
  | cons first threads ih =>
    cases t with
    | zero =>
      cases found
      simp only [List.set_cons_zero, List.map_cons, List.sum_cons]
      omega
    | succ t =>
      have rest := ih (by simpa using found)
      simp only [List.set_cons_succ, List.map_cons, List.sum_cons]
      omega

theorem weight_after (w : Frame V κ → Nat) (e : Effect V κ σ) (calls : List (Call V κ))
    (found : s.moment? t = some μ) :
    (s.after t μ.below e calls).weight w + w μ.frame =
      s.weight w + load w e.frames + load w (calls.map .call) := by
  obtain ⟨-, -, selected⟩ := moment?_eq_some found
  have moved := sum_set (fun thread => load w thread.frames) ⟨e.result, e.frames ++ μ.below⟩
    selected
  have begun : ((calls.map Thread.ofCall).map fun thread => load w thread.frames).sum =
      load w (calls.map .call) := by
    simp [load, Thread.ofCall, Function.comp_def]
  simp only [load_cons, load_append] at moved
  simp only [weight, after, List.map_append, List.sum_append, begun]
  omega

/-- A thread weighs no more than all of them. -/
theorem load_le {thread : Thread V κ} (there : s.threads[t]? = some thread) :
    load w thread.frames ≤ s.weight w := by
  have moved := sum_set (fun thread => load w thread.frames) ⟨thread.result, []⟩ there
  simp only [load_nil] at moved
  simp only [weight]
  omega

theorem weight_le (found : s.moment? t = some μ) : w μ.frame + load w μ.below ≤ s.weight w := by
  have own := load_le (w := w) (moment?_eq_some found).2.2
  rwa [load_cons] at own

/-- Two threads weigh no more than all of them. -/
theorem weight_pair {t' : Nat} {thread thread' : Thread V κ} (there : s.threads[t]? = some thread)
    (there' : s.threads[t']? = some thread') (other : t ≠ t') :
    load w thread.frames + load w thread'.frames ≤ s.weight w := by
  have first := sum_set (fun thread => load w thread.frames) ⟨thread.result, []⟩ there
  have kept : (s.threads.set t ⟨thread.result, []⟩)[t']? = some thread' := by
    rw [List.getElem?_set_ne other, there']
  have second := sum_set (fun thread => load w thread.frames) ⟨thread'.result, []⟩ kept
  simp only [load_nil] at first second
  simp only [weight]
  omega

@[simp] theorem weight_begin (c : Call V κ) : (s.begin c).weight w = s.weight w + w (.call c) := by
  simp [weight, begin, Thread.ofCall]

theorem weight_eq_zero_iff :
    s.weight w = 0 ↔ ∀ thread ∈ s.threads, ∀ frame ∈ thread.frames, w frame = 0 := by
  simp [weight, load, List.sum_eq_zero_iff_forall_eq_nat]

end System

/-- What a step of a system emits; a fork leaves a call to a new thread. -/
theorem Moment.Yields.emits {client : Client V κ σ} {μ : Moment V κ σ} {e : Effect V κ σ}
    {calls : List (Call V κ)} (yields : μ.Yields client e calls) :
    calls = [] ∧ Emits client μ.store μ.result μ.frame e.result e.frames ∨
      ∃ a b c, μ.result = .ok a ∧ μ.frame = .call (.fork c) ∧ e.result = .ok b ∧ e.frames = [] ∧
        calls = [c] := by
  cases yields with
  | resumed effect => exact .inl ⟨rfl, Store.resume_emits effect⟩
  | @forked a c t answered frame => exact .inr ⟨a, _, c, answered, frame, rfl, rfl, rfl⟩
  | joined b answered frame =>
    rw [answered, frame]
    exact .inl ⟨rfl, .ends trivial⟩

/-- All results of a store after a step. -/
theorem Store.Touches.results {s : Store V κ σ} {e : Effect V κ σ} {result : Return V}
    {frame : Frame V κ} (touches : s.Touches result frame e) :
    e.store.results =
      (frame.subject?.elim s.results fun r => s.results.modify r fun x => x.touch result frame) ++
        (frame.made? result).toList := by
  refine List.ext_getElem? fun (r : ResultId) => ?_
  have length : (frame.subject?.elim s.results fun r =>
      s.results.modify r fun x => x.touch result frame).length = s.results.length := by
    cases frame.subject? <;> simp
  rcases Nat.lt_or_ge r s.results.length with there | beyond
  · have found := List.getElem?_eq_getElem there
    rw [touches.there r _ found, List.getElem?_append_left (by rw [length]; exact there)]
    cases about : frame.subject? with
    | none => simp [found]
    | some r' => simp [List.getElem?_modify, found]
  · -- behind the results that were there, there is at most the one that was made
    rw [List.getElem?_append_right (by rw [length]; exact beyond), length]
    cases found : e.store.results[r]? with
    | some x =>
      obtain ⟨rfl, made⟩ := touches.new (List.getElem?_eq_none_iff.mpr beyond) found
      simp [made]
    | none =>
      have outside := List.getElem?_eq_none_iff.mp found
      rw [touches.length] at outside
      exact (List.getElem?_eq_none_iff.mpr (by omega)).symm

theorem sum_modify (w : Result V κ → Nat) (f : Result V κ → Result V κ) (r : ResultId)
    (xs : List (Result V κ)) :
    ((xs.modify r f).map w).sum + xs[r]?.elim 0 w =
      (xs.map w).sum + xs[r]?.elim 0 fun x => w (f x) := by
  induction xs generalizing r with
  | nil => simp
  | cons first xs ih =>
    cases r with
    | zero =>
      simp only [List.modify_zero_cons, List.map_cons, List.sum_cons, List.getElem?_cons_zero,
        Option.elim_some]
      omega
    | succ r =>
      have rest := ih r
      simp only [List.modify_succ_cons, List.map_cons, List.sum_cons, List.getElem?_cons_succ]
      omega

/-- The result that a frame is about, if it is there. -/
def Store.subject? (s : Store V κ σ) (frame : Frame V κ) : Option (Result V κ) :=
  frame.subject?.bind fun r => s.results[r]?

theorem Store.Touches.sum {s : Store V κ σ} {e : Effect V κ σ} {result : Return V}
    {frame : Frame V κ} (touches : s.Touches result frame e) (w : Result V κ → Nat) :
    (e.store.results.map w).sum + (s.subject? frame).elim 0 w =
      (s.results.map w).sum + ((s.subject? frame).elim 0 fun x => w (x.touch result frame)) +
        (frame.made? result).elim 0 w := by
  have made : ((frame.made? result).toList.map w).sum = (frame.made? result).elim 0 w := by
    cases frame.made? result <;> simp
  simp only [touches.results, List.map_append, List.sum_append, made, Store.subject?]
  cases frame.subject? with
  | none => simp
  | some r =>
    have moved := sum_modify w (fun x => x.touch result frame) r s.results
    simp only [Option.elim_some, Option.bind_some]
    omega

end Quorate
