import Quorate.Proofs.Merge.Attach

/-! While a merge gathers, every source that has given no value has its callback on the way, unless
it was cancelled, and never more than one. So the merge cannot be left waiting for a source that
has ended. -/

set_option autoImplicit false

namespace Quorate

variable {V κ σ : Type}

/-- Whether the source at a position has given its value. -/
def arrived (values : List (Option V)) (i : Nat) : Nat := if (values[i]?.join).isSome then 1 else 0

theorem arrived_eq_zero {values : List (Option V)} {i : Nat} (bound : i < values.length)
    (zero : arrived values i = 0) : values[i]? = some none := by
  cases slot : values[i] with
  | none => simp [bound, slot]
  | some v => simp [arrived, bound, slot] at zero

theorem arrived_set {values : List (Option V)} {i : Nat} (bound : i < values.length) (v : V)
    (j : Nat) :
    arrived (values.set i (some v)) j = if i = j then 1 else arrived values j := by
  unfold arrived
  by_cases same : i = j
  · subst same
    simp [bound]
  · simp [same]

theorem Progress.gathered_eq_gathering {merger : Merger V κ} {values values' : List (Option V)}
    (same : gathered merger values = .gathering values') : values' = values := by
  unfold gathered at same
  split at same
  next =>
    unfold handed at same
    split at same
    next => split at same <;> cases same
    next => cases same
  next => cases same; rfl

/-- A merge goes on gathering with one more value or with the values it had. -/
theorem Progress.next_gathering {merger : Merger V κ} {p : Progress V} {event : Event V}
    {values' : List (Option V)} (next : p.next merger event = .gathering values') :
    ∃ values, p = .gathering values ∧
      ((∀ index o, event ≠ .arrived index o) → values' = values) ∧
      ∀ index o, event = .arrived index o → values[index]? = some none →
        ∃ v, o = .ok v ∧ values' = values.set index (some v) := by
  cases p with
  | gathering values =>
    refine ⟨values, rfl, ?_⟩
    cases event with
    | arrived index o =>
      refine ⟨fun apart => absurd rfl (apart index o), ?_⟩
      rintro index' o' same missing
      cases same
      cases o with
      | ok v =>
        simp only [Progress.next, missing] at next
        exact ⟨v, rfl, gathered_eq_gathering next⟩
      | error e => cases next
    | cancelled => cases next
    | answered o => cases next; exact ⟨fun _ => rfl, by simp⟩
    | panicked => cases next; exact ⟨fun _ => rfl, by simp⟩
  | opening =>
    cases event with
    | arrived index o => cases o <;> cases next
    | _ => cases next
  | merging values =>
    cases event with
    | arrived index o => cases o <;> cases next
    | _ => cases next
  | broken =>
    cases event with
    | arrived index o => cases o <;> cases next
    | _ => cases next
  | decided state =>
    cases event with
    | arrived index o => cases o <;> cases next
    | _ => cases next

def Progress.Gathers (p : Progress V) : Prop := ∃ values, p = .gathering values

/-- Progress made by at most one event. -/
theorem Progress.run_gathering {merger : Merger V κ} {p : Progress V} {event? : Option (Event V)}
    {values' : List (Option V)} (next : p.run merger event?.toList = .gathering values') :
    ∃ values, p = .gathering values ∧
      ((∀ index o, event? ≠ some (.arrived index o)) → values' = values) ∧
      ∀ index o, event? = some (.arrived index o) → values[index]? = some none →
        ∃ v, o = .ok v ∧ values' = values.set index (some v) := by
  cases event? with
  | none => cases next; exact ⟨values', rfl, fun _ => rfl, by simp⟩
  | some event =>
    obtain ⟨values, same, still, more⟩ := next_gathering next
    exact ⟨values, same, fun apart => still fun index o same => apart index o (congrArg some same),
      fun index o same => more index o (Option.some.inj same)⟩

/-- A source speaks through the second critical section only. -/
theorem Moment.event?_arrived {m : ResultId} {μ : Moment V κ σ} {index : Nat} {o : Outcome V}
    (event : μ.event? m = some (.arrived index o)) :
    μ.result = .ok (.outcome o) ∧ μ.frame = .commit m index := by
  obtain ⟨store, thread, result, frame, below⟩ := μ
  simp only [Moment.event?] at event
  unfold Frame.event? at event
  split at event
  next => split at event <;> cases event
  next r state =>
    split at event
    next => cases outcome : state.outcome? <;> rw [outcome] at event <;> cases event
    next => cases event
  next o' r index' =>
    split at event
    next same => cases event; exact ⟨rfl, by rw [same]⟩
    next => cases event
  next => split at event <;> cases event
  next => split at event <;> cases event
  next => cases event

theorem watching_pos {m : ResultId} {i : Nat} {tasks : List (Task κ)}
    (some : 0 < watching m i tasks) : ∃ task ∈ tasks, 0 < task.watches m i := by
  induction tasks with
  | nil => cases some
  | cons task tasks ih =>
    rw [watching_cons] at some
    rcases Nat.eq_zero_or_pos (task.watches m i) with zero | first
    · obtain ⟨task', member, more⟩ := ih (by omega)
      exact ⟨task', List.mem_cons_of_mem _ member, more⟩
    · exact ⟨task, List.mem_cons_self, first⟩

/-- A panic meets a frame with a callback of `m` only where it was delivered or dropped. -/
theorem Thread.Tidy.unwound {m : ResultId} {i : Nat} {p : Panic} {frame : Frame V κ}
    {below : List (Frame V κ)} {live : Prop} (tidy : Thread.Tidy m live ⟨.error p, frame :: below⟩)
    (yes : live) (through : frame.Unwound) : frame.watches m i = 0 := by
  have calm := tidy.answered p rfl frame (by simp)
  rcases Nat.eq_zero_or_pos (frame.watches m i) with zero | carries
  · exact zero
  · cases frame with
    | commit merge index => exact absurd (position_of_pos carries).1 calm
    | attach merge rest index =>
      simp only [Frame.watches] at carries
      split at carries
      next same =>
        obtain ⟨rfl, low, high⟩ := same
        obtain ⟨⟨a, answered⟩, -⟩ := tidy.attaching yes [] rest index below
          (by rintro rfl; simp only [List.length_nil] at high; omega) rfl
        cases answered
      next => cases carries
    | deliver r tasks first reply => exact through.elim
    | sweep r rest all tasks => exact through.elim
    | call c => exact absurd trivial calm
    | start callback => exact absurd trivial calm
    | lookup merge index => exact absurd trivial calm
    | query merge index source => exact absurd trivial calm
    | _ => cases carries

section

variable {s : Store V κ σ} {m : ResultId} {sources : List ResultId} {merger : Merger V κ}
  {values : List (Option V)} {result : Return V} {frame : Frame V κ} {i : Nat}

/-- While the merge gathers, only the callback of a cancelled source is lost on its way. -/
theorem Loses.cancelled {below : List (Frame V κ)} (loses : Loses s result frame)
    (apart : ∀ index o, result = .ok (.outcome o) → frame ≠ .commit m index)
    (carries : 0 < frame.watches m i)
    (hosts : s.Hosts m sources) (placed : frame.Placed m sources s)
    (tidy : Thread.Tidy m True ⟨result, frame :: below⟩)
    (shows : s.Shows m merger sources (.gathering values)) {r : ResultId}
    (position : sources[i]? = some r) : s.IsCancelled r := by
  -- what a frame that gathers takes for granted excludes all losses but two
  cases loses with
  | refused => cases (placed i (Task.watches_pos carries)).1
  | discarded => exact (placed i (Task.watches_pos carries)).2.elim
  | handed found foreign =>
    obtain ⟨x, found', own⟩ := hosts.of_position (placed i (Task.watches_pos carries)).2
    cases found.symm.trans found'
    exact absurd foreign (by simp [own])
  | missed found missing =>
    obtain ⟨rfl, rfl⟩ := position_of_pos carries
    obtain ⟨x, there, shows⟩ := shows
    cases there.symm.trans found
    cases shows
    cases missing.symm.trans position
  | early found undone =>
    obtain ⟨rfl, rfl⟩ := position_of_pos carries
    obtain ⟨ended, position⟩ := placed rfl
    exact absurd (ended.done position found).2 (by simp [undone])
  | skipped found cancelled =>
    obtain ⟨rfl, rfl⟩ := position_of_pos carries
    obtain ⟨ended, position'⟩ := placed rfl
    cases position.symm.trans position'
    exact ⟨_, found, (ended.done position found).1, cancelled⟩
  | committed =>
    obtain ⟨rfl, -⟩ := position_of_pos carries
    exact absurd rfl (apart _ _ rfl)
  | stopped found done =>
    simp only [Frame.watches] at carries
    split at carries
    next same =>
      obtain ⟨rfl, -⟩ := same
      obtain ⟨x, there, shows⟩ := shows
      cases there.symm.trans found
      cases shows with
      | gathering pending => simp [Result.isDone, pending, State.isPending] at done
    next => cases carries
  | dropped =>
    obtain ⟨task, member, carries⟩ := watching_pos carries
    obtain ⟨-, position', cancelled⟩ := placed task member i (Task.watches_pos carries)
    cases position.symm.trans position'
    exact cancelled
  | unwound through => exact absurd (tidy.unwound trivial through) (Nat.ne_of_gt carries)

end

/-- What a reader gets from a result that has ended and is not cancelled. -/
def Store.Gives (s : Store V κ σ) (r : ResultId) (o : Outcome V) : Prop :=
  ∃ x, s.results[r]? = some x ∧ x.isForeign = false ∧ x.isCancelled = false ∧
    x.cell.state.outcome? = some o

theorem Store.Later.gives {s s' : Store V κ σ} (later : s.Later s') {r : ResultId} {o : Outcome V}
    (gives : s.Gives r o) : s'.Gives r o := by
  obtain ⟨x, found, own, kept, outcome⟩ := gives
  obtain ⟨x', found', later⟩ := later r x found
  have same : x'.cell.state = x.cell.state := by
    apply later.state
    cases state : x.cell.state <;> rw [state] at outcome <;> first | rfl | cases outcome
  refine ⟨x', found', later.isForeign.trans own, ?_, by rw [same, outcome]⟩
  obtain ⟨cell, kind⟩ := x
  obtain ⟨cell', kind'⟩ := x'
  have kinds := later.kind
  cases kind <;> cases kind' <;> simp only [Kind.Later] at kinds <;>
    simp_all [Result.isCancelled, Result.isForeign]

/-- What a source tells a merge is what it has ended with. -/
def Thread.Speaks (m : ResultId) (sources : List ResultId) (s : Store V κ σ)
    (thread : Thread V κ) : Prop :=
  ∀ i o below, thread.frames = .commit m i :: below → thread.result = .ok (.outcome o) →
    ∃ r, sources[i]? = some r ∧ s.Gives r o

/-- A source speaks right after it was asked. -/
theorem Emits.speaks {client : Client V κ σ} {s : Store V κ σ} {result result' : Return V}
    {frame : Frame V κ} {frames rest : List (Frame V κ)} {m : ResultId} {i : Nat}
    (emits : Emits client s result frame result' frames) (same : frames = .commit m i :: rest) :
    ∃ source o, frame = .query m i source ∧ result' = .ok (.outcome o) ∧ s.Gives source o := by
  cases emits with
  | passive _ passives _ =>
    subst same
    exact (passives _ List.mem_cons_self).elim
  | opens form =>
    subst same
    rcases form with ⟨f, p, -, -, -, none⟩ | ⟨f, o, -, -, -, none⟩ | ⟨f, -, -, none⟩ <;> cases none
  | reads found own kept outcome =>
    cases same
    exact ⟨_, _, rfl, rfl, _, found, own, kept, outcome⟩
  | _ => cases same

/-- The callbacks of a merge over `sources` and its progress agree. -/
structure System.Watched (m : ResultId) (sources : List ResultId) (s : System V κ σ)
    (p : Progress V) : Prop where
  hosts : s.store.Hosts m sources
  placed : s.Each (Frame.Placed m sources s.store)
  tidy : ∀ thread ∈ s.threads, thread.Tidy m p.Gathers
  speaks : ∀ thread ∈ s.threads, thread.Speaks m sources s.store
  counted : ∀ values, p = .gathering values → ∀ (i : Nat) (r : ResultId), sources[i]? = some r →
    s.watches m i + arrived values i ≤ 1 ∧
      (s.store.IsCancelled r ∨ s.watches m i + arrived values i = 1)

theorem Thread.Tidy.mono {m : ResultId} {live live' : Prop} {thread : Thread V κ}
    (tidy : thread.Tidy m live) (stronger : live' → live) : thread.Tidy m live' :=
  ⟨tidy.tail, tidy.answered, fun yes => tidy.attaching (stronger yes)⟩

/-- A thread that steps stays tidy, if the step hands callbacks on. -/
theorem Thread.Tidy.step {m : ResultId} {live : Prop} {result result' : Return V}
    {frame : Frame V κ} {below frames : List (Frame V κ)}
    (tidy : Thread.Tidy m live ⟨result, frame :: below⟩)
    (top : ∀ f ∈ frames.tail, ¬ f.Momentary m)
    (calm : ∀ p, result' = .error p → ∀ f ∈ frames, ¬ f.Momentary m)
    (attach : live → ∀ rest index, .attach m rest index ∈ frames → ∃ source index',
      result' = .ok .unit ∧ frames =
        [.call (.register source ⟨.observe m index', .inline⟩), .attach m rest index])
    (handed : live → ∀ a, result = .ok a → frame.Watching m →
      (∃ b, result' = .ok b) ∧ (frames = [] ∨ ∃ f, frames = [f] ∧ f.Watching m)) :
    Thread.Tidy m live ⟨result', frames ++ below⟩ := by
  refine ⟨?_, ?_, ?_⟩
  · intro f member
    cases frames with
    | nil => exact tidy.tail f (List.mem_of_mem_tail member)
    | cons first rest =>
      rcases List.mem_append.mp member with member | member
      · exact top f member
      · exact tidy.tail f member
  · intro p panicked f member
    rcases List.mem_append.mp member with member | member
    · exact calm p panicked f member
    · exact tidy.tail f member
  · intro yes above rest index below' left same
    rcases List.append_eq_append_iff.mp same with ⟨above', rfl, old⟩ | ⟨more, new, same⟩
    · -- the merge was being attached below the frame that stepped
      obtain ⟨⟨a, answered⟩, form⟩ := tidy.attaching yes (frame :: above') rest index below' left
        (by rw [List.cons_append, ← old])
      rcases form with none | ⟨f, single, watching⟩
      · cases none
      · cases single
        rw [List.append_nil]
        exact handed yes a answered watching
    · cases more with
      | nil =>
        obtain ⟨⟨a, answered⟩, form⟩ := tidy.attaching yes [frame] rest index below' left
          (by rw [List.nil_append] at same; rw [same, List.cons_append, List.nil_append])
        rcases form with none | ⟨f, single, watching⟩
        · cases none
        · cases single
          rw [List.append_nil] at new
          rw [← new]
          exact handed yes a answered watching
      | cons f more =>
        cases same
        obtain ⟨source, index', answered, form⟩ := attach yes rest index (by simp [new])
        rw [form] at new
        have single : above = [.call (.register source ⟨.observe m index', .inline⟩)] := by
          cases above with
          | nil => cases new
          | cons first above =>
            cases above with
            | nil => cases new; rfl
            | cons second above => simp at new
        refine ⟨⟨_, answered⟩, .inr ⟨_, single, trivial, index', ?_⟩⟩
        simp [Frame.watches, Call.watches, Task.watches, Callback.watches]

section

variable {client : Client V κ σ} {s s₁ : System V κ σ} {m : ResultId} {sources : List ResultId}
  {t : Nat} {μ : Moment V κ σ} {e : Effect V κ σ} {calls : List (Call V κ)} {p : Progress V}
  {merger : Merger V κ}

theorem System.Watched.apart (watched : s.Watched m sources p) : s.store.results.length ≠ m := by
  rintro rfl
  obtain ⟨cell, merge, found, -⟩ := watched.hosts.record
  exact absurd (List.getElem?_eq_some_iff.mp found).1 (Nat.lt_irrefl _)

theorem System.Watched.moment (watched : s.Watched m sources p) (found : s.moment? t = some μ) :
    μ.frame.Placed m sources s.store ∧ Thread.Tidy m p.Gathers ⟨μ.result, μ.frame :: μ.below⟩ :=
  ⟨(watched.placed.moment found).1,
    watched.tidy _ (List.mem_of_getElem? (moment?_eq_some found).2.2)⟩

/-- A source that is about to speak has not spoken yet. -/
theorem System.Watched.fresh {values : List (Option V)}
    (watched : s.Watched m sources (.gathering values)) (found : s.moment? t = some μ)
    (shows : s.store.Shows m merger sources (.gathering values)) {index : Nat}
    (frame : μ.frame = .commit m index) :
    s.watches m index = 1 ∧ values[index]? = some none := by
  have placed := (watched.moment found).1
  rw [frame] at placed
  obtain ⟨r, -, position, -⟩ := placed rfl
  have bound : index < values.length := by
    obtain ⟨x, -, shows⟩ := shows
    cases shows with
    | gathering _ _ length => rw [length]; exact (List.getElem?_eq_some_iff.mp position).1
  -- the frame that commits carries the one callback there is for this position
  have carries := weight_le (w := Frame.watches m index) found
  have one : Frame.watches m index μ.frame = 1 := by rw [frame]; simp [Frame.watches]
  have count := (watched.counted values rfl index r position).1
  simp only [System.watches] at count ⊢
  exact ⟨by omega, arrived_eq_zero bound (by omega)⟩

theorem System.Watched.handed {values values' : List (Option V)} {a : Answer V}
    (watched : s.Watched m sources (.gathering values)) (found : s.moment? t = some μ)
    (yields : μ.Yields client e calls)
    (shows : s.store.Shows m merger sources (.gathering values))
    (shows' : e.store.Shows m merger sources (.gathering values')) (answered : μ.result = .ok a)
    (watching : μ.frame.Watching m) :
    (∃ b, e.result = .ok b) ∧ (e.frames = [] ∨ ∃ f, e.frames = [f] ∧ f.Watching m) := by
  have touches := yields.touches
  have fresh (index : Nat) (frame : μ.frame = .commit m index) : values[index]? = some none :=
    (watched.fresh found shows frame).2
  rw [(moment?_eq_some found).1] at touches
  obtain ⟨x, there, shows⟩ := shows
  obtain ⟨x', there', shows'⟩ := shows'
  rcases yields.emits with ⟨-, emits⟩ | ⟨a', b, c, -, -, answered', none, -⟩
  · rw [(moment?_eq_some found).1, answered] at emits
    rw [answered] at touches
    exact emits.watching touches watched.hosts (watched.moment found).1 watching there shows there'
      shows' fresh
  · exact ⟨⟨b, answered'⟩, .inl none⟩

theorem System.Watched.counted_step {values values' : List (Option V)}
    (watched : s.Watched m sources (.gathering values)) (found : s.moment? t = some μ)
    (yields : μ.Yields client e calls)
    (blind : ∀ c, μ.call? client = some c → c.Blind m μ.store)
    (shows : s.store.Shows m merger sources (.gathering values))
    (still : (∀ index o, μ.event? m ≠ some (.arrived index o)) → values' = values)
    (more : ∀ index o, μ.event? m = some (.arrived index o) → values[index]? = some none →
      ∃ v, o = .ok v ∧ values' = values.set index (some v))
    {i : Nat} {r : ResultId} (position : sources[i]? = some r) :
    (s.after t μ.below e calls).watches m i + arrived values' i ≤ 1 ∧
      (e.store.IsCancelled r ∨
        (s.after t μ.below e calls).watches m i + arrived values' i = 1) := by
  have store := (moment?_eq_some found).1
  have later := yields.touches.later
  rw [store] at later
  obtain ⟨once, spoken⟩ := watched.counted values rfl i r position
  by_cases commits : ∃ index o, μ.event? m = some (.arrived index o)
  · -- the source at `index` gives its value
    obtain ⟨index, o, event⟩ := commits
    obtain ⟨answered, frame⟩ := Moment.event?_arrived event
    obtain ⟨one, missing⟩ := watched.fresh found shows frame
    obtain ⟨v, -, rfl⟩ := more index o event missing
    have bound := (List.getElem?_eq_some_iff.mp missing).1
    have moved : (s.after t μ.below e calls).watches m i + μ.frame.watches m i =
        s.watches m i := by
      rcases yields.watches found blind (fun _ _ _ _ _ => watched.apart) i with ⟨apart, -⟩ | lost
      · exact absurd frame (apart m index)
      · exact lost.2
    rw [arrived_set bound v i]
    simp only [frame, Frame.watches, true_and] at moved
    by_cases same : index = i
    · subst same
      simp only [if_true] at moved ⊢
      omega
    · simp only [same, if_false] at moved ⊢
      exact ⟨by omega, spoken.imp later.isCancelled fun _ => by omega⟩
  · -- the values stay, so a callback that is lost must be of a cancelled source
    have commits : ∀ index o, μ.event? m ≠ some (.arrived index o) :=
      fun index o event => commits ⟨index, o, event⟩
    rw [still commits]
    rcases yields.watches found blind (fun _ _ _ _ _ => watched.apart) i with
      ⟨-, same⟩ | ⟨loses, lost⟩
    · rw [same]
      exact ⟨once, spoken.imp later.isCancelled id⟩
    · rcases Nat.eq_zero_or_pos (μ.frame.watches m i) with zero | carries
      · have same : (s.after t μ.below e calls).watches m i = s.watches m i := by omega
        rw [same]
        exact ⟨once, spoken.imp later.isCancelled id⟩
      · refine ⟨by omega, .inl (later.isCancelled ?_)⟩
        obtain ⟨placed, tidy⟩ := watched.moment found
        refine loses.cancelled ?_ carries watched.hosts placed
          (tidy.mono fun _ => ⟨values, rfl⟩) shows position
        intro index o answered frame
        apply commits index o
        simp [Moment.event?, answered, frame, Frame.event?]

/-- A step keeps the callbacks of a merge and its progress in agreement. -/
theorem System.Watched.step (watched : s.Watched m sources p) (some : sources ≠ [])
    (sound : s.Sound) (orderly : s.Orderly) (found : s.moment? t = Option.some μ)
    (yields : μ.Yields client e calls)
    (blind : ∀ c, μ.call? client = Option.some c → c.Blind m μ.store)
    (shows : s.store.Shows m merger sources p) :
    (s.after t μ.below e calls).Watched m sources (p.run merger (μ.event? m).toList) := by
  have store := (moment?_eq_some found).1
  have touches := yields.touches
  have emits := yields.emits
  have shows' := System.shows_step sound orderly found yields shows
  rw [store] at touches emits
  obtain ⟨placed, tidy⟩ := watched.moment found
  -- a merge never gathers again, so what holds of `p` may be used for its successor
  have still (gathers : (p.run merger (μ.event? m).toList).Gathers) : p.Gathers := by
    obtain ⟨values', same⟩ := gathers
    obtain ⟨values, same, -⟩ := Progress.run_gathering same
    exact ⟨values, same⟩
  refine ⟨watched.hosts.step touches placed, ?_, ?_, ?_, ?_⟩
  · refine (watched.placed.mono fun frame => touches.later.placed).after found ?_ ?_
    · rcases emits with ⟨-, emits⟩ | ⟨a, b, c, -, -, -, none, -⟩
      · refine emits.placed touches watched.hosts some (sound.frames.moment found).1 placed ?_ ?_
        · intro r x there drained
          cases pending : x.cell.state.isPending with
          | false => rfl
          | true => rw [((orderly.there r x there).waiting pending).1] at drained; cases drained
        · intro c made
          rw [← store] at made ⊢
          exact blind c (by rw [← made]; rfl)
      · simp [none]
    · intro c member
      rcases emits with ⟨rfl, -⟩ | ⟨a, b, c', -, frame, -, -, rfl⟩
      · cases member
      · rw [List.mem_singleton.mp member]
        rw [frame] at placed
        exact Call.placed placed
  · refine threads_after ?_ (fun thread member => (watched.tidy thread member).mono still)
      fun c _ => Thread.tidy_ofCall c
    rcases emits with ⟨-, emits⟩ | ⟨a, b, c, -, -, answered, none, -⟩
    · obtain ⟨top, calm⟩ := emits.tidy fun index source x frame there => by
        rw [frame] at placed
        obtain ⟨x', there', own⟩ := watched.hosts.of_position (placed rfl).2
        cases there.symm.trans there'
        exact own
      refine (tidy.mono still).step top calm ?_ ?_
      · intro _ rest index member
        obtain ⟨source, index', -, answered, form⟩ :=
          emits.attach some watched.hosts (sound.frames.moment found).1 member
        exact ⟨source, index', answered, form⟩
      · rintro ⟨values', same⟩ a answered watching
        obtain ⟨values, rfl, -⟩ := Progress.run_gathering same
        rw [same] at shows'
        exact watched.handed found yields shows shows' answered watching
    · refine (tidy.mono still).step ?_ ?_ ?_ ?_
      · simp [none]
      · simp [none]
      · simp [none]
      · exact fun _ _ _ _ => ⟨⟨b, answered⟩, .inl none⟩
  · refine threads_after ?_ ?_ fun c _ i o below same => by cases same
    · -- a frame that commits is never left below another one
      intro i o below same answered
      rcases List.append_eq_cons_iff.mp same with ⟨-, old⟩ | ⟨rest, new, -⟩
      · exact absurd rfl (tidy.tail (.commit m i) (by rw [List.tail_cons, old]; simp))
      · rcases emits with ⟨-, emits⟩ | ⟨a, b, c, -, -, -, none, -⟩
        · obtain ⟨source, o', frame, answered', gives⟩ := emits.speaks new
          cases answered.symm.trans answered'
          rw [frame] at placed
          exact ⟨source, (placed rfl).2, touches.later.gives gives⟩
        · cases none.symm.trans new
    · intro thread member i o below same answered
      obtain ⟨r, position, gives⟩ := watched.speaks thread member i o below same answered
      exact ⟨r, position, touches.later.gives gives⟩
  · intro values' same i r position
    obtain ⟨values, rfl, still, more⟩ := Progress.run_gathering same
    exact watched.counted_step found yields blind shows still more position

end

end Quorate
