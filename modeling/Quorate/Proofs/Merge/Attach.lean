import Quorate.Proofs.Merge.Place
import Quorate.Proofs.Merge.Simulation

/-! A merge attaches itself to its sources one by one, and while it gathers no panic gets in the
way. Frames that hand a callback on take their step at once, so none of them is ever unwound. -/

set_option autoImplicit false

namespace Quorate

variable {V κ σ : Type}

/-- A frame that takes its step before anything else happens on its thread. -/
def Frame.Momentary (m : ResultId) : Frame V κ → Prop
  | .call _ | .start _ | .lookup _ _ | .query _ _ _ => True
  | .commit merge _ => merge = m
  | _ => False

/-- A momentary frame that carries a callback of `m`. -/
def Frame.Watching (m : ResultId) (frame : Frame V κ) : Prop :=
  frame.Momentary m ∧ ∃ i, 0 < frame.watches m i

/-- Momentary frames are on top and are not unwound. As long as the merge is `live` and has sources
left to attach to, the frame that attaches it has at most one frame above it, which hands the
callback for one source on. -/
structure Thread.Tidy (m : ResultId) (live : Prop) (thread : Thread V κ) : Prop where
  tail : ∀ f ∈ thread.frames.tail, ¬ f.Momentary m
  answered : ∀ p, thread.result = .error p → ∀ f ∈ thread.frames, ¬ f.Momentary m
  attaching : live → ∀ above rest index below, rest ≠ [] →
    thread.frames = above ++ .attach m rest index :: below →
    (∃ a, thread.result = .ok a) ∧ (above = [] ∨ ∃ f, above = [f] ∧ f.Watching m)

theorem Thread.tidy_ofCall {m : ResultId} {live : Prop} (c : Call V κ) :
    (Thread.ofCall c).Tidy m live := by
  refine ⟨by simp [ofCall], by simp [ofCall], fun _ above rest index below _ same => ?_⟩
  cases above with
  | nil => cases same
  | cons f above => cases above <;> cases same

section

variable {client : Client V κ σ} {s : Store V κ σ} {result result' : Return V} {frame : Frame V κ}
  {frames : List (Frame V κ)} {m : ResultId} {sources : List ResultId}

/-- A step puts a momentary frame on top only, and only if it has not panicked. -/
theorem Emits.tidy (emits : Emits client s result frame result' frames)
    (own : ∀ (index : Nat) (source : ResultId) (x : Result V κ), frame = .query m index source →
      s.results[source]? = some x → x.isForeign = false) :
    (∀ f ∈ frames.tail, ¬ f.Momentary m) ∧
      ∀ p, result' = .error p → ∀ f ∈ frames, ¬ f.Momentary m := by
  cases emits with
  | passive _ _ form =>
    rcases form with rfl | ⟨⟨f, rfl, -⟩, rfl⟩
    · simp
    · exact ⟨by simp, nofun⟩
  | opens form =>
    rcases form with ⟨f, p, -, -, rfl, rfl⟩ | ⟨f, o, -, -, rfl, rfl⟩ | ⟨f, -, rfl, rfl⟩
    · simp
    · exact ⟨by simp, nofun⟩
    · exact ⟨by simp [Frame.Momentary], nofun⟩
  | @inquires a merge source index x code found foreign =>
    refine ⟨?_, nofun⟩
    intro f member
    rw [List.mem_singleton.mp member]
    rintro rfl
    exact absurd foreign (by simp [own index source x rfl found])
  | _ => simp [Frame.Momentary]

/-- Only the frame that attaches a merge leaves such a frame. -/
theorem Emits.attach (emits : Emits client s result frame result' frames) (some : sources ≠ [])
    (hosts : s.Hosts m sources) (sound : frame.Sound s) {rest : List ResultId} {index : Nat}
    (member : .attach m rest index ∈ frames) :
    ∃ source index', frame = .attach m (source :: rest) index' ∧ result' = .ok .unit ∧
      frames = [.call (.register source ⟨.observe m index', .inline⟩), .attach m rest index] := by
  cases emits with
  | passive _ passives _ => exact absurd (passives _ member) id
  | @builds =>
    cases List.mem_singleton.mp member
    obtain ⟨cell, merge, found, -⟩ := hosts.record
    exact absurd (List.getElem?_eq_some_iff.mp found).1 (Nat.lt_irrefl _)
  | opens form =>
    rcases form with ⟨f, p, -, -, -, rfl⟩ | ⟨f, o, -, -, -, rfl⟩ | ⟨f, -, -, rfl⟩ <;>
      simp at member
  | @completes merge o =>
    simp only [List.mem_cons, reduceCtorEq, List.not_mem_nil, or_false, false_or] at member
    cases member
    obtain ⟨cell, gathering, found, size⟩ := sound
    obtain ⟨cell', gathering', found', size', -⟩ := hosts.record
    cases found.symm.trans found'
    exact absurd (List.eq_nil_of_length_eq_zero (size'.symm.trans size)) some
  | @registers a merge source rest' index' =>
    simp only [List.mem_cons, reduceCtorEq, List.not_mem_nil, or_false, false_or] at member
    cases member
    exact ⟨source, index', rfl, rfl, rfl⟩
  | _ => simp at member

theorem Task.watches_pos {task : Task κ} {i : Nat} (some : 0 < task.watches m i) :
    task.callback = .observe m i := by
  obtain ⟨callback, executor⟩ := task
  cases callback with
  | observe merge index =>
    simp only [Task.watches, Callback.watches] at some
    split at some
    next same => rw [same.1, same.2]
    next => cases some
  | _ => cases some

theorem position_of_pos {merge : ResultId} {index i : Nat}
    (some : 0 < if merge = m ∧ index = i then 1 else 0) : merge = m ∧ index = i := by
  split at some
  next same => exact same
  next => cases some

/-- A source that has ended is done. -/
theorem Store.Ended.done {i : Nat} (ended : s.Ended sources i) {r : ResultId} {x : Result V κ}
    (position : sources[i]? = some r) (found : s.results[r]? = some x) :
    x.isForeign = false ∧ x.isDone = true := by
  obtain ⟨r', x', position', found', own, terminal⟩ := ended
  cases position.symm.trans position'
  cases found.symm.trans found'
  exact ⟨own, by rw [Result.isDone_eq own, terminal]; rfl⟩

theorem Progress.Shows.gathering_free {merger : Merger V κ} {values : List (Option V)}
    {cell : Cell V (Task κ)} {merge : Merge V κ}
    (shows : (Progress.gathering values).Shows merger sources ⟨cell, .merge merge⟩) :
    merge.lock = .free := by
  cases shows
  rfl

/-- The first value of a source is taken in. -/
theorem Progress.Shows.takes {merger : Merger V κ} {values : List (Option V)}
    {cell : Cell V (Task κ)} {merge : Merge V κ} {index : Nat}
    (shows : (Progress.gathering values).Shows merger sources ⟨cell, .merge merge⟩)
    (missing : values[index]? = some none) (o : Outcome V) :
    Gathering.arrive cell merge.gathering merge.size index o ≠ .outside ∧
      Gathering.arrive cell merge.gathering merge.size index o ≠ .twice := by
  cases shows with
  | gathering pending holds length _ =>
    cases o with
    | error e =>
      rw [Gathering.arrive_error (by rw [pending]; rfl)]
      exact ⟨nofun, nofun⟩
    | ok v =>
      obtain ⟨completed', -, arrival⟩ := arrive_missing pending holds length missing v
      rw [arrival]
      split <;> exact ⟨nofun, nofun⟩

/-- While the merge gathers, a callback is handed on until it is through. -/
theorem Emits.watching {e : Effect V κ σ} {merger : Merger V κ} {values values' : List (Option V)}
    {x x' : Result V κ} {a : Answer V} (emits : Emits client s (.ok a) frame e.result e.frames)
    (touches : s.Touches (.ok a) frame e) (hosts : s.Hosts m sources)
    (placed : frame.Placed m sources s) (watching : frame.Watching m)
    (there : s.results[m]? = some x) (shows : (Progress.gathering values).Shows merger sources x)
    (there' : e.store.results[m]? = some x')
    (shows' : (Progress.gathering values').Shows merger sources x')
    (fresh : ∀ index, frame = .commit m index → values[index]? = some none) :
    (∃ b, e.result = .ok b) ∧ (e.frames = [] ∨ ∃ f, e.frames = [f] ∧ f.Watching m) := by
  obtain ⟨momentary, i, carries⟩ := watching
  have moved := touches.there m x there
  generalize same : e.result = result' at emits
  generalize up : e.frames = frames at emits
  cases emits with
  | passive passive _ _ => rw [passive.watches] at carries; cases carries
  | calls => exact momentary.elim
  | attempts => exact momentary.elim
  | keeps ending => rw [ending.watches] at carries; cases carries
  | @settles _ _ r x₀ state reply about found settles terminal form =>
    rcases form with ending | ⟨index, o, rfl, -⟩ | rfl
    · rw [ending.watches] at carries
      cases carries
    · cases momentary
      cases there.symm.trans found
      cases there'.symm.trans moved
      -- this commit has ended the merge, which was said to gather on
      have pending := shows'.state
      rw [if_pos about, settles.cell] at pending
      have ended := terminal.resolve_right (by simp)
      rw [show state = .pending from pending] at ended
      cases ended
    · exact momentary.elim
  | @serves a c code r x₀ form found foreign =>
    rcases form with rfl | ⟨task, rfl⟩
    · cases carries
    · obtain ⟨x₁, found₁, own⟩ := hosts.of_position (placed i (Task.watches_pos carries)).2
      cases found.symm.trans found₁
      exact absurd foreign (by simp [own])
  | queues => exact ⟨⟨_, rfl⟩, .inl rfl⟩
  | performs => exact ⟨⟨_, rfl⟩, .inr ⟨_, rfl, trivial, i, carries⟩⟩
  | inline => exact ⟨⟨_, rfl⟩, .inr ⟨_, rfl, trivial, i, carries⟩⟩
  | spawns => cases (placed i (Task.watches_pos carries)).1
  | joins => cases (placed i (Task.watches_pos carries)).1
  | refuses => cases (placed i (Task.watches_pos carries)).1
  | discards => exact (placed i (Task.watches_pos carries)).2.elim
  | observes => exact ⟨⟨_, rfl⟩, .inr ⟨_, rfl, trivial, i, carries⟩⟩
  | misses found missing =>
    obtain ⟨rfl, rfl⟩ := position_of_pos carries
    obtain ⟨r, -, position, -⟩ := placed rfl
    cases there.symm.trans found
    cases shows
    cases missing.symm.trans position
  | finds => exact ⟨⟨_, rfl⟩, .inr ⟨_, rfl, trivial, i, carries⟩⟩
  | early found undone =>
    obtain ⟨rfl, rfl⟩ := position_of_pos carries
    obtain ⟨ended, position⟩ := placed rfl
    exact absurd (ended.done position found).2 (by simp [undone])
  | skips => exact ⟨⟨_, rfl⟩, .inl rfl⟩
  | inquires found foreign =>
    obtain ⟨rfl, rfl⟩ := position_of_pos carries
    obtain ⟨ended, position⟩ := placed rfl
    exact absurd (ended.done position found).1 (by simp [foreign])
  | reads => exact ⟨⟨_, rfl⟩, .inr ⟨_, rfl, (position_of_pos carries).1, i, carries⟩⟩
  | records => exact ⟨⟨_, rfl⟩, .inl rfl⟩
  | @rejects o _ _ _ _ _ found arrival =>
    cases momentary
    cases there.symm.trans found
    have taken := shows.takes (fresh _ rfl) o
    rcases arrival with arrival | arrival
    · exact absurd arrival taken.1
    · exact absurd arrival taken.2
  | breaks found arrival plain panics =>
    cases momentary
    cases there.symm.trans found
    cases there'.symm.trans moved
    simp only [Frame.subject?, if_true, Result.touch, Result.commit, arrival, plain,
      panics] at shows'
    cases shows'.gathering_free
  | merges found unlocked arrival code =>
    cases momentary
    cases there.symm.trans found
    cases there'.symm.trans moved
    simp only [Frame.subject?, if_true, Result.touch, Result.commit, arrival, code] at shows'
    cases shows'.gathering_free
  | builds => cases carries
  | opens => cases carries
  | polls => cases carries
  | sweeps => cases carries
  | _ => exact momentary.elim

end

end Quorate
