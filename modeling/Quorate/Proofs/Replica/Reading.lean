import Quorate.Proofs.Merge.Count
import Quorate.Proofs.Replica.Reader

/-! A reading through every schedule. The reader, the replicas and the threads that were begun from
outside each stand at one of their stages, whichever of them takes the next step. -/

set_option autoImplicit false

namespace Quorate

/-- A step that starts no thread leaves the others where they are. -/
theorem System.after_nil {V κ σ : Type} {s : System V κ σ} {t t' : Nat} (other : t ≠ t')
    (below : List (Frame V κ)) (e : Effect V κ σ) :
    (s.after t below e []).threads[t']? = s.threads[t']? := by
  simp [after, List.getElem?_set_ne other]

namespace Replica

variable {V : Type} {merge : List (Option V) → Outcome (Option V)} {members : List (Member V)}
  {cancels : Nat → Prop} {asked : ResultId → Prop} {started made t : Nat} {s : Reading V}
  {μ : Moment (Option V) (Work V) Unit} {e : Effect (Option V) (Work V) Unit}
  {calls : List (Call (Option V) (Work V))}

/-- How the threads of a reading stand whose reader has started some replicas. The threads of
`cancels` may ask results to cancel, and have asked those of `asked`. -/
structure Stage (merge : List (Option V) → Outcome (Option V)) (members : List (Member V))
    (cancels : Nat → Prop) (asked : ResultId → Prop) (started : Nat) (s : Reading V) : Prop where
  answers : Answers members asked s.store
  reader : ∃ thread, s.threads[0]? = some thread ∧
    Reads merge members s.store started s.store.results.length thread ∧
    (thread.frames ≠ [] → s.threads.length = started + 1)
  replicas : ∀ i < started, ∃ member thread, members[i]? = some member ∧
    s.threads[i + 1]? = some thread ∧ Replies members.length i member s.store thread
  others : ∀ t thread, started < t → s.threads[t]? = some thread →
    (∃ a, thread.result = .ok a) ∧ ∀ f ∈ thread.frames, Outside members.length (cancels t) f

theorem Reads.bounds {s : Records V} {thread : Thread (Option V) (Work V)}
    (reads : Reads merge members s started made thread) :
    started ≤ made ∧ made ≤ members.length + 1 ∧ started ≤ members.length := by
  cases reads with
  | begins => simp
  | gathers bound => omega
  | creates position | starts position | forks position =>
    have bound := (List.getElem?_eq_some_iff.mp position).1
    omega
  | _ => omega

theorem Stage.result {i : Nat} (stage : Stage merge members cancels asked started s)
    (bound : i < started) : i < s.store.results.length := by
  obtain ⟨thread, -, reads, -⟩ := stage.reader
  exact Nat.lt_of_lt_of_le bound reads.bounds.1

/-- The thread of a moment is the reader, a replica, or was begun from outside. -/
theorem Stage.cases (stage : Stage merge members cancels asked started s)
    (found : s.moment? t = some μ) :
    (t = 0 ∧ s.threads.length = started + 1 ∧
        Reads merge members μ.store started μ.store.results.length
          ⟨μ.result, μ.frame :: μ.below⟩) ∨
      (∃ i member, i < started ∧ t = i + 1 ∧ members[i]? = some member ∧
        Replies members.length i member μ.store ⟨μ.result, μ.frame :: μ.below⟩ ∧
        (∀ asked', Behaves members asked' μ) ∧ μ.frame.Modest) ∨
      started < t ∧ (∃ a, μ.result = .ok a) ∧
        ∀ f ∈ μ.frame :: μ.below, Outside members.length (cancels t) f := by
  obtain ⟨store, -, selected⟩ := System.moment?_eq_some found
  rcases Nat.lt_or_ge started t with outside | inside
  · exact .inr (.inr ⟨outside, stage.others t _ outside selected⟩)
  · cases t with
    | zero =>
      obtain ⟨thread, here, reads, alone⟩ := stage.reader
      cases here.symm.trans selected
      exact .inl ⟨rfl, alone (by simp), store ▸ reads⟩
    | succ i =>
      obtain ⟨member, thread, position, here, replies⟩ := stage.replicas i inside
      cases here.symm.trans selected
      have bound := (List.getElem?_eq_some_iff.mp position).1
      have there := stage.result inside
      have settable := fun x found => stage.answers.own i x found bound
      rw [← store] at replies there settable
      have behaves := fun asked' => replies.behaves asked' position there settable
      exact .inr (.inl ⟨i, member, inside, rfl, position, replies, fun asked' => (behaves asked').1,
        (behaves asked).2⟩)

theorem Stage.behaves (stage : Stage merge members cancels asked started s)
    (found : s.moment? t = some μ) (asked' : ResultId → Prop)
    (noted : ∀ r, μ.frame = .call (.cancel r) → asked' r) :
    Behaves members asked' μ ∧ ∀ r, μ.frame = .call (.cancel r) → cancels t := by
  rcases stage.cases found with
    ⟨-, -, reads⟩ | ⟨i, member, -, -, -, -, behaves, modest⟩ | ⟨-, -, outside⟩
  · obtain ⟨behaves, apart⟩ := reads.behaves asked'
    exact ⟨behaves, fun r same => absurd same (apart.1 r)⟩
  · exact ⟨behaves asked', fun r same => absurd same (modest.1.1 r)⟩
  · obtain ⟨behaves, -, may⟩ := (outside _ List.mem_cons_self).behaves asked' noted
    exact ⟨behaves, fun r same => may ⟨r, same⟩⟩

theorem Stage.step (stage : Stage merge members cancels asked started s)
    (found : s.moment? t = some μ) (yields : μ.Yields client e calls) (asked' : ResultId → Prop)
    (weaker : ∀ r, asked r → asked' r) (noted : ∀ r, μ.frame = .call (.cancel r) → asked' r)
    (looksOn : μ.LooksOn members.length e)
    (own : ∀ (r : ResultId) x, μ.store.results[r]? = some x → x.isForeign = false)
    (record : cancels t → ∀ cell merge,
      μ.store.results[members.length]? = some ⟨cell, .merge merge⟩ →
        ∀ i ∈ merge.gathering.sources, i < members.length) :
    ∃ started', Stage merge members cancels asked' started' (s.after t μ.below e calls) := by
  have touches := yields.touches
  have heeds := (stage.behaves found asked' noted).1.heeds
  have answers : Answers members asked' e.store := (stage.answers.mono weaker).step
    ((System.moment?_eq_some found).1 ▸ heeds) ((System.moment?_eq_some found).1 ▸ touches)
  have later := touches.later
  have grown := touches.length
  have store := (System.moment?_eq_some found).1
  have before : Answers members asked μ.store := store ▸ stage.answers
  have cases := stage.cases found
  rw [store] at later grown
  rcases cases with
    ⟨rfl, alone, reads⟩ | ⟨i, member, bound, rfl, position, replies, -, modest⟩ |
    ⟨outside, ⟨a, answered⟩, all⟩
  · obtain ⟨started', reads, next⟩ := reads.step yields looksOn fun x => before.empty
    have count : (s.after 0 μ.below e calls).threads.length = started' + 1 := by
      simp only [System.after, List.length_append, List.length_set, List.length_map, alone]
      rcases next with ⟨rfl, rfl⟩ | ⟨member, -, rfl, rfl⟩ <;> rfl
    refine ⟨started', answers, ⟨_, System.after_self found e calls, reads, fun _ => count⟩, ?_, ?_⟩
    · intro i bound
      by_cases old : i < started
      · obtain ⟨member, thread, position, here, replies⟩ := stage.replicas i old
        exact ⟨member, thread, position, System.after_other here (by simp) _ _ _,
          replies.later later⟩
      · rcases next with ⟨rfl, rfl⟩ | ⟨member, position, rfl, rfl⟩
        · exact absurd bound old
        · obtain rfl := Nat.le_antisymm (Nat.le_of_lt_succ bound) (Nat.le_of_not_lt old)
          refine ⟨member, _, position, ?_, .begins⟩
          rw [← alone]
          simp [System.after, Thread.ofCall]
    · intro t thread beyond here
      have inside := (List.getElem?_eq_some_iff.mp here).1
      omega
  · have queued (x : Result (Option V) (Work V)) (found : μ.store.results[i]? = some x) :=
      before.queued i x found
    obtain ⟨rfl, replies⟩ := replies.step yields looksOn queued
    refine ⟨started, answers, ?_, ?_, ?_⟩
    · obtain ⟨thread, here, reads, alone⟩ := stage.reader
      refine ⟨thread, System.after_other here (by simp) _ _ _, ?_,
        by simpa [System.after] using alone⟩
      rw [modest.2] at grown
      have some : members ≠ [] := List.ne_nil_of_length_pos
        (Nat.zero_lt_of_lt (List.getElem?_eq_some_iff.mp position).1)
      have same : (s.after (i + 1) μ.below e []).store.results.length = s.store.results.length :=
        grown
      rw [same]
      exact reads.later later (.inl some)
    · intro j inside
      by_cases same : i = j
      · subst same
        exact ⟨member, _, position, System.after_self found e [], replies⟩
      · obtain ⟨member', thread, position', here, replies'⟩ := stage.replicas j inside
        have other : i + 1 ≠ j + 1 := fun equal => same (Nat.succ.inj equal)
        exact ⟨member', thread, position', System.after_other here other _ _ _,
          replies'.later later⟩
    · intro t thread beyond here
      rw [System.after_nil (by omega)] at here
      exact stage.others t thread beyond here
  · obtain ⟨-, modest, -⟩ := (all _ List.mem_cons_self).behaves asked' noted
    obtain ⟨rfl, answered', frames⟩ :=
      (all _ List.mem_cons_self).step answered yields looksOn before own record
    refine ⟨started, answers, ?_, ?_, ?_⟩
    · obtain ⟨thread, here, reads, alone⟩ := stage.reader
      refine ⟨thread, System.after_other here (by omega) _ _ _, ?_,
        by simpa [System.after] using alone⟩
      rw [modest] at grown
      have same : (s.after t μ.below e []).store.results.length = s.store.results.length := grown
      rw [same]
      refine reads.later later (.inr (.inl ?_))
      -- while the reader is at work, nothing has been begun from outside
      apply Decidable.byContradiction
      intro busy
      have bound := (List.getElem?_eq_some_iff.mp (System.moment?_eq_some found).2.2).1
      have count := alone busy
      omega
    · intro j inside
      obtain ⟨member, thread, position, here, replies⟩ := stage.replicas j inside
      exact ⟨member, thread, position, System.after_other here (by omega) _ _ _,
        replies.later later⟩
    · intro t' thread beyond here
      by_cases same : t = t'
      · subst same
        cases (System.after_self found e []).symm.trans here
        refine ⟨answered', fun f member => ?_⟩
        rcases List.mem_append.mp member with member | member
        · exact frames f member
        · exact all f (List.mem_cons_of_mem _ member)
      · rw [System.after_nil same] at here
        exact stage.others t' thread beyond here

/-- The reader makes the last result of a reading by merging the others. -/
theorem Reads.merges
    (reads : Reads merge members μ.store started members.length
      ⟨μ.result, μ.frame :: μ.below⟩) {x : Result (Option V) (Work V)}
    (makes : μ.frame.made? μ.result = some x) :
    μ.result = .ok .unit ∧
      μ.frame = .call (.build (merger merge) (List.range members.length)) := by
  obtain ⟨s, t, result, frame, below⟩ := μ
  dsimp only at *
  generalize same : Thread.mk result (frame :: below) = thread at reads
  generalize last : members.length = made at reads
  cases reads with
  | builds => cases same; exact ⟨rfl, by rw [last]⟩
  | creates position =>
    exact absurd (List.getElem?_eq_some_iff.mp position).1 (by omega)
  | begins | gathers | starts | forks => cases same; cases makes
  | opens | completes | attaches | turns | ended => omega

/-- How a reading has unfolded from nothing, when the threads of `cancels` may ask results to
cancel. -/
structure Unfolds (merge : List (Option V) → Outcome (Option V)) (members : List (Member V))
    (cancels : Nat → Prop) (h : List (Moment (Option V) (Work V) Unit)) (s : Reading V) :
    Prop where
  run : Run client (fun s c => c.Layered s ∧ c.Blind members.length s) ⟨.empty (), []⟩ h s
  stage : ∃ started,
    Stage merge members cancels (fun r => ∃ μ ∈ h, μ.frame = .call (.cancel r)) started s
  /-- The part of the history since the merge was made. -/
  since : members.length < s.store.results.length → ∃ s₀ h',
    Built client (Call.Blind members.length) (merger merge) (List.range members.length)
      members.length s₀ ∧
    (∀ r ∈ List.range members.length, ∃ x, s₀.store.results[r]? = some x ∧ x.isForeign = false) ∧
    Run client (Call.Blind members.length) s₀ h' s ∧ h' <:+ h
  only : ∀ μ ∈ h, ∀ r, μ.frame = .call (.cancel r) → cancels μ.thread
  somebody : ∀ t, cancels t → members ≠ []

theorem Stage.merges (stage : Stage merge members cancels asked started s)
    (found : s.moment? t = some μ) (last : members.length = s.store.results.length)
    {x : Result (Option V) (Work V)} (makes : μ.frame.made? μ.result = some x) :
    μ.result = .ok .unit ∧
      μ.frame = .call (.build (merger merge) (List.range members.length)) := by
  have store := (System.moment?_eq_some found).1
  rcases stage.cases found with
    ⟨-, -, reads⟩ | ⟨i, member, -, -, -, -, -, modest⟩ | ⟨-, -, outside⟩
  · have last : members.length = μ.store.results.length := store ▸ last
    rw [← last] at reads
    exact reads.merges makes
  · cases (modest.2 _).symm.trans makes
  · obtain ⟨-, modest, -⟩ :=
      (outside _ List.mem_cons_self).behaves (fun _ => True) fun _ _ => trivial
    cases (modest _).symm.trans makes

variable {h : List (Moment (Option V) (Work V) Unit)}

theorem Unfolds.layered (unfolds : Unfolds merge members cancels h s) : s.Layered :=
  (unfolds.run.mono fun _ _ => And.left).layered (System.layered_empty ())

theorem Unfolds.follows (unfolds : Unfolds merge members cancels h s) (some : members ≠ [])
    (made : members.length < s.store.results.length) :
    ∃ h' p, h' <:+ h ∧
      s.Follows members.length (merger merge) (List.range members.length) h' p ∧
      ∀ x, s.store.results[members.length]? = Option.some x →
        h'.filterMap (Moment.merged? members.length) ≠ [] →
        x.completed? = Option.some members.length := by
  obtain ⟨s₀, h', built, own, run, part⟩ := unfolds.since made
  have some : List.range members.length ≠ [] := by simpa using some
  obtain ⟨p, follows⟩ := built.follows some own run
  have before : Built client Call.Fair _ _ _ s₀ := built.mono fun _ _ => And.left
  have fair : Run client Call.Fair s₀ h' s := run.mono fun _ _ => And.left
  refine ⟨h', p, part, follows, fun x there called => ?_⟩
  rw [fair.counted some before.sound before.orderly before.shows called there, List.length_range]

theorem Unfolds.looksOn (unfolds : Unfolds merge members cancels h s)
    (found : s.moment? t = some μ) (yields : μ.Yields client e calls) :
    μ.LooksOn members.length e := by
  intro i a looks answered
  obtain ⟨-, effect⟩ := yields.effect looks.apart.1 looks.apart.2
  have store := (System.moment?_eq_some found).1
  have layered := (unfolds.layered.frames.moment found).1
  rcases looks.after layered with ⟨bound, made⟩ | ⟨r, reply, frame⟩
  · have some : members ≠ [] := List.ne_nil_of_length_pos (Nat.zero_lt_of_lt bound)
    obtain ⟨h', p, -, follows, -⟩ := unfolds.follows some made
    obtain ⟨started, stage⟩ := unfolds.stage
    rw [store] at effect
    exact follows.looks found answered looks (fun x => stage.answers.empty) effect
  · rw [answered, frame] at effect
    simp only [Store.resume, Store.proceed] at effect
    split at effect
    next => cases effect
    next => split at effect <;> cases effect; exact ⟨⟨_, rfl⟩, by simp⟩

theorem Unfolds.step (unfolds : Unfolds merge members cancels h s)
    (found : s.moment? t = some μ) {s' : Reading V} (step : s.step client t = some s') :
    Unfolds merge members cancels (h ++ [μ]) s' := by
  obtain ⟨μ', e, calls, moment, yields, rfl⟩ := System.step_yields step
  cases found.symm.trans moment
  obtain ⟨started, stage⟩ := unfolds.stage
  have store := (System.moment?_eq_some found).1
  have layered := unfolds.layered
  obtain ⟨behaves, only⟩ := stage.behaves found
    (fun r => ∃ μ' ∈ h ++ [μ], μ'.frame = .call (.cancel r))
    fun r same => ⟨μ, by simp, same⟩
  have own (r : ResultId) (x : Result (Option V) (Work V))
      (found : μ.store.results[r]? = some x) : x.isForeign = false := by
    rw [store] at found
    exact layered.store.own found
  have record (may : cancels t) (cell : Cell (Option V) (Task (Work V)))
      (gathering : Merge (Option V) (Work V))
      (there : μ.store.results[members.length]? = some ⟨cell, .merge gathering⟩) :
      ∀ i ∈ gathering.gathering.sources, i < members.length := by
    rw [store] at there
    obtain ⟨h', p, -, follows, -⟩ := unfolds.follows (unfolds.somebody t may)
      (List.getElem?_eq_some_iff.mp there).1
    obtain ⟨cell', record, there', -, held⟩ := follows.watched.hosts.record
    cases there.symm.trans there'
    rcases held with all | none
    · rw [all]
      exact fun i => List.mem_range.mp
    · simp [none]
  have next := stage.step found yields
    (fun r => ∃ μ' ∈ h ++ [μ], μ'.frame = .call (.cancel r))
    (fun r ⟨μ', member, same⟩ => ⟨μ', List.mem_append_left _ member, same⟩)
    (fun r same => ⟨μ, by simp, same⟩) (unfolds.looksOn found yields) own record
  refine ⟨unfolds.run.step found step behaves.rule, next, ?_, ?_, unfolds.somebody⟩
  · intro made
    by_cases before : members.length < s.store.results.length
    · obtain ⟨s₀, h', built, own, run, part⟩ := unfolds.since before
      refine ⟨s₀, h' ++ [μ], built, own, ?_, ?_⟩
      · exact run.step found step fun c called => (behaves.rule c called).2
      · obtain ⟨before, rfl⟩ := part
        exact ⟨before, by simp⟩
    · -- the reader has just made the merge
      have grown := yields.touches.length
      rw [store] at grown
      have made : members.length < e.store.results.length := made
      have few : (μ.frame.made? μ.result).toList.length ≤ 1 := by
        cases μ.frame.made? μ.result <;> simp
      have last : members.length = s.store.results.length := by omega
      obtain ⟨x, makes⟩ : ∃ x, μ.frame.made? μ.result = some x := by
        cases makes : μ.frame.made? μ.result with
        | none => simp [makes] at grown; omega
        | some x => exact ⟨x, rfl⟩
      obtain ⟨answered, frame⟩ := stage.merges found last makes
      have built : Built client (Call.Blind members.length) (merger merge)
          (List.range members.length) members.length (s.after t μ.below e calls) :=
        .intro (unfolds.run.mono fun _ _ => And.right) found answered frame step last
      refine ⟨_, [], built, fun r member => ?_, .start, by simp⟩
      obtain ⟨started', stage'⟩ := next
      have bound := List.mem_range.mp member
      have there := List.getElem?_eq_getElem (Nat.lt_trans bound made)
      refine ⟨_, there, ?_⟩
      rw [Result.isForeign, stage'.answers.own r _ there bound]
  · intro μ' member r frame
    rcases List.mem_append.mp member with member | member
    · exact unfolds.only μ' member r frame
    · rw [List.mem_singleton.mp member] at frame ⊢
      rw [(System.moment?_eq_some found).2.1]
      exact only r frame

theorem Unfolds.start (merge : List (Option V) → Outcome (Option V)) (members : List (Member V)) :
    Unfolds merge members (fun _ => False) [] (reading (plan merge) members) := by
  refine ⟨.begin _ .start ⟨.inr trivial, trivial, fun _ => rfl⟩, ⟨0, ?_⟩,
    fun made => absurd made (Nat.not_lt_zero _), by simp, fun _ => False.elim⟩
  have nothing (r : ResultId) (x : Result (Option V) (Work V)) :
      (reading (plan merge) members).store.results[r]? ≠ some x := by
    simp [reading, System.start, Store.empty]
  have answers (asked : ResultId → Prop) :
      Answers members asked (reading (plan merge) members).store :=
    ⟨fun r x found => absurd found (nothing r x), fun r x found => absurd found (nothing r x),
      fun r x _ found => absurd found (nothing r x), fun _ x found => absurd found (nothing _ x)⟩
  refine ⟨answers _, ⟨_, rfl, .begins, fun _ => rfl⟩,
    fun i bound => absurd bound (Nat.not_lt_zero i), fun t thread beyond here => ?_⟩
  have inside : t < 1 := (List.getElem?_eq_some_iff.mp here).1
  omega

/-- A reader that is over has made the merge. -/
theorem Unfolds.over (unfolds : Unfolds merge members cancels h s) {answer : Return (Option V)}
    (finished : s.answer? 0 = some answer) :
    answer = .ok (.result members.length) ∧ s.store.results.length = members.length + 1 ∧
      Settled merge members s.store ∧ members.length < s.threads.length := by
  obtain ⟨started, stage⟩ := unfolds.stage
  obtain ⟨thread, here, reads, -⟩ := stage.reader
  cases here.symm.trans (System.answer?_eq_some_iff.mp finished)
  have count : started < s.threads.length := by
    cases started with
    | zero => exact (List.getElem?_eq_some_iff.mp here).1
    | succ i =>
      obtain ⟨-, thread, -, here, -⟩ := stage.replicas i (Nat.lt_succ_self i)
      exact (List.getElem?_eq_some_iff.mp here).1
  generalize s.store.results.length = made at reads
  generalize same : Thread.mk answer [] = thread at reads
  cases reads with
  | ended settled => cases same; exact ⟨rfl, rfl, settled, count⟩
  | attaches => simp at same
  | _ => cases same

theorem Outside.mono {m : ResultId} {cancelling cancelling' : Prop}
    {frame : Frame (Option V) (Work V)} (weaker : cancelling → cancelling')
    (outside : Outside m cancelling frame) : Outside m cancelling' frame := by
  cases frame with
  | call c =>
    cases c with
    | get => exact outside
    | _ => exact ⟨weaker outside.1, outside.2⟩
  | read | wait => exact outside
  | _ => exact ⟨weaker outside.1, outside.2⟩

/-- Once the reader is over, a call may begin that reads the merge or cancels it. -/
theorem Unfolds.begin (unfolds : Unfolds merge members cancels h s) {answer : Return (Option V)}
    (finished : s.answer? 0 = some answer) {cancels' : Nat → Prop}
    (weaker : ∀ t, cancels t → cancels' t) (somebody : ∀ t, cancels' t → members ≠ [])
    {c : Call (Option V) (Work V)}
    (outside : Outside members.length (cancels' s.threads.length) (.call c))
    (obeyed : c.Layered s.store ∧ c.Blind members.length s.store) :
    Unfolds merge members cancels' h (s.begin c) := by
  obtain ⟨started, stage⟩ := unfolds.stage
  refine ⟨unfolds.run.begin c obeyed, ⟨started, stage.answers, ?_, ?_, ?_⟩, ?_,
    fun μ member r frame => weaker _ (unfolds.only μ member r frame), somebody⟩
  · obtain ⟨thread, here, reads, -⟩ := stage.reader
    refine ⟨thread, System.begin_other here c, reads, fun busy => ?_⟩
    cases here.symm.trans (System.answer?_eq_some_iff.mp finished)
    exact absurd rfl busy
  · intro i bound
    obtain ⟨member, thread, position, here, replies⟩ := stage.replicas i bound
    exact ⟨member, thread, position, System.begin_other here c, replies⟩
  · intro t thread beyond here
    rcases Nat.lt_or_ge t s.threads.length with old | new
    · rw [System.begin, List.getElem?_append_left old] at here
      obtain ⟨answered, frames⟩ := stage.others t thread beyond here
      exact ⟨answered, fun f member => (frames f member).mono (weaker t)⟩
    · have inside := (List.getElem?_eq_some_iff.mp here).1
      simp only [System.begin, List.length_append, List.length_singleton] at inside
      obtain rfl : t = s.threads.length := by omega
      rw [System.begin, List.getElem?_concat_length] at here
      cases here
      refine ⟨⟨_, rfl⟩, fun f member => ?_⟩
      rw [List.mem_singleton.mp member]
      exact outside
  · intro made
    obtain ⟨s₀, h', built, own, run, part⟩ := unfolds.since made
    exact ⟨s₀, h', built, own, run.begin c obeyed.2, part⟩

theorem Unfolds.pass (unfolds : Unfolds merge members cancels h s) {now : Nat}
    (past : s.store.now ≤ now) : Unfolds merge members cancels h (s.pass now) := by
  obtain ⟨started, stage⟩ := unfolds.stage
  have later : s.store.Later (s.pass now).store := Store.later_of_results rfl
  refine ⟨unfolds.run.pass now past, ⟨started, ?_, ?_, ?_, stage.others⟩, ?_, unfolds.only,
    unfolds.somebody⟩
  · exact ⟨stage.answers.queued, stage.answers.own, stage.answers.states, stage.answers.uncounted⟩
  · obtain ⟨thread, here, reads, alone⟩ := stage.reader
    exact ⟨thread, here, reads.later later (.inr (.inr rfl)), alone⟩
  · intro i bound
    obtain ⟨member, thread, position, here, replies⟩ := stage.replicas i bound
    exact ⟨member, thread, position, here, replies.later later⟩
  · intro made
    obtain ⟨s₀, h', built, own, run, part⟩ := unfolds.since made
    exact ⟨s₀, h', built, own, run.pass now past, part⟩

theorem Unfolds.consult (unfolds : Unfolds merge members cancels h s) {answer : Return (Option V)}
    (finished : s.answer? 0 = some answer) (timeout : Option Duration) :
    Unfolds merge members cancels h (s.begin (.get members.length timeout)) := by
  obtain ⟨-, length, -⟩ := unfolds.over finished
  refine unfolds.begin finished (fun _ => id) unfolds.somebody rfl ⟨.inr ?_, trivial, fun _ => rfl⟩
  show members.length < _
  omega

/-- A call that reads the merge, once the reader has made it. -/
def Consults (s : Reading V) (c : Call (Option V) (Work V)) : Prop :=
  ∃ m timeout, s.answer? 0 = some (.ok (.result m)) ∧ c = .get m timeout

theorem Unfolds.schedule (unfolds : Unfolds merge members cancels h s) {s' : Reading V}
    {h' : List (Moment (Option V) (Work V) Unit)} (schedule : Schedule client Consults s h' s') :
    Unfolds merge members cancels (h ++ h') s' := by
  induction schedule with
  | start => simpa using unfolds
  | step _ found step ih => simpa [List.append_assoc] using ih.step found step
  | begin c _ consults ih =>
    obtain ⟨m, timeout, finished, rfl⟩ := consults
    cases (ih.over finished).1
    exact ih.consult finished timeout
  | pass now _ past ih => exact ih.pass past

end Replica

end Quorate
