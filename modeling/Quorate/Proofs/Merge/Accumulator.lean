import Quorate.Proofs.Merge.Growth

/-! What a merge keeps under its lock while its sources come in: the bits, the values and the count
agree with one another and with the sources in every state of a run. So the merger gets the values
of all sources, and no callback of the merge finds anything but what it expects. -/

set_option autoImplicit false

namespace Quorate

variable {V κ σ : Type}

/-- What a merge over `sources` has gathered: the values of some of them, each at its position. -/
structure Store.Gathered (s : Store V κ σ) (sources : List ResultId) (g : Gathering V) : Prop where
  length : g.slots.length = sources.length
  /-- A bit is set exactly where there is a value. -/
  bits : ∀ i : Nat, g.completed.contains i = true ↔ ∃ v, g.slots[i]? = some (some v)
  /-- It is the value that the source at this position succeeded with. -/
  values : ∀ (i : Nat) (v : V), g.slots[i]? = some (some v) →
    ∃ r, sources[i]? = some r ∧ s.Gives r (.ok v)
  count : g.completed.cardinality = g.slots.countP Option.isSome
  missing : g.completed.cardinality < sources.length

/-- The frames by which the merge `m` takes in its source at position `i`. -/
def Frame.Observes (m : ResultId) (i : Nat) : Frame V κ → Prop
  | .lookup merge index | .query merge index _ | .commit merge index => merge = m ∧ index = i
  | _ => False

section

variable {client : Client V κ σ} {s s₁ : System V κ σ} {m : ResultId} {merger : Merger V κ}
  {sources : List ResultId} {p : Progress V} {t i : Nat} {μ : Moment V κ σ} {e : Effect V κ σ}
  {calls : List (Call V κ)} {h : List (Moment V κ σ)} {cell : Cell V (Task κ)} {merge : Merge V κ}
  {members : Finset Nat}

/-- Bits that are flags for values are set nowhere else. -/
theorem BitSet.Refines.contains_iff {b : BitSet} {values : List (Option V)}
    (refines : b.Refines values.length members) (holds : b.Holds (values.map Option.isSome))
    (i : Nat) : b.contains i = true ↔ ∃ v, values[i]? = some (some v) := by
  by_cases bound : i < values.length
  · rw [holds.contains i (by simpa using bound)]
    simp [bound, Option.isSome_iff_exists]
  · have beyond : b.contains i ≠ true := by
      rw [Ne, refines.contains]
      exact fun member => bound (refines.below i member)
    simp [beyond, bound]

theorem Progress.count_isSome (values : List (Option V)) :
    (values.map Option.isSome).count true = values.countP Option.isSome := by
  rw [List.count, List.countP_map]
  exact List.countP_congr fun slot _ => by simp

namespace Emits

variable {store : Store V κ σ} {a : Answer V} {r : ResultId} {result : Return V}
  {frames : List (Frame V κ)}

theorem lookup_ok (emits : Emits client store (.ok a) (.lookup m i) result frames) :
    ∃ b, result = .ok b := by
  cases emits with
  | misses | finds => exact ⟨_, rfl⟩
  | passive passive => exact passive.elim
  | keeps ending => exact ending.elim
  | settles about => cases about

/-- A source that is done can be asked. -/
theorem query_ok (emits : Emits client store (.ok a) (.query m i r) result frames)
    (done : ∃ x, store.results[r]? = some x ∧ x.isDone = true) : ∃ b, result = .ok b := by
  cases emits with
  | early there undone =>
    obtain ⟨x, there', done⟩ := done
    cases there.symm.trans there'
    cases undone.symm.trans done
  | skips | inquires | reads => exact ⟨_, rfl⟩
  | passive passive => exact passive.elim
  | keeps ending => exact ending.elim
  | settles about => cases about

/-- A source that has its place and did not speak before can speak, if the merger returns. -/
theorem commit_ok (emits : Emits client store (.ok a) (.commit m i) result frames)
    (there : store.results[m]? = some ⟨cell, .merge merge⟩)
    (accepts : ∀ o, Gathering.arrive cell merge.gathering merge.size i o ≠ .outside ∧
      Gathering.arrive cell merge.gathering merge.size i o ≠ .twice)
    (returns : ∀ f, merge.merger = .plain f → ∀ values p, f values ≠ .error p) :
    ∃ b, result = .ok b := by
  cases emits with
  | settles | records | merges => exact ⟨_, rfl⟩
  | @rejects o _ _ _ _ _ there' arrival =>
    cases there.symm.trans there'
    rcases arrival with outside | twice
    · exact absurd outside (accepts o).1
    · exact absurd twice (accepts o).2
  | @breaks _ _ _ _ _ values _ p f there' _ plain panics =>
    cases there.symm.trans there'
    exact absurd panics (returns f plain values p)
  | passive passive => exact passive.elim
  | keeps ending => exact ending.elim

end Emits

namespace System.Follows

variable (follows : s.Follows m merger sources h p)
include follows

/-- Where a merge stands whose merger returns. -/
theorem gathers_or_ended (returns : merger.Returns (h.filterMap (Moment.event? m)))
    (there : s.store.results[m]? = some ⟨cell, .merge merge⟩) (free : merge.lock ≠ .held) :
    (∃ values, p = .gathering values ∧
      Progress.Open sources.length (h.filterMap (Moment.event? m)) values) ∨
      p.state.isPending = false := by
  rcases follows.verdict.settles returns with
    gathers | ⟨values, rfl⟩ | ⟨state, rfl, terminal, -⟩
  · exact .inl gathers
  · obtain ⟨x, there', shows⟩ := follows.shows
    cases there.symm.trans there'
    cases shows
    exact absurd rfl free
  · exact .inr terminal

/-- A merge that is pending gathers, unless its merger runs. -/
theorem gathers (returns : merger.Returns (h.filterMap (Moment.event? m)))
    (there : s.store.results[m]? = some ⟨cell, .merge merge⟩) (pending : cell.state = .pending)
    (free : merge.lock ≠ .held) :
    ∃ values, p = .gathering values ∧
      Progress.Open sources.length (h.filterMap (Moment.event? m)) values := by
  refine (follows.gathers_or_ended returns there free).resolve_right fun ended => ?_
  obtain ⟨x, there', shows⟩ := follows.shows
  cases there.symm.trans there'
  rw [← shows.state, pending] at ended
  cases ended

theorem gathered_values (returns : merger.Returns (h.filterMap (Moment.event? m)))
    (there : s.store.results[m]? = some ⟨cell, .merge merge⟩)
    (counts : s.store.Counts m sources.length members) (pending : cell.state = .pending)
    (free : merge.lock ≠ .held) : s.store.Gathered sources merge.gathering := by
  obtain ⟨values, rfl, gathers⟩ := follows.gathers returns there pending free
  obtain ⟨x, there', shows⟩ := follows.shows
  cases there.symm.trans there'
  have refines := counts.refines there
  cases shows with
  | gathering _ holds length missing =>
    -- the slots are the values of the progress, and the bits are their flags
    have count := holds.cardinality
    rw [Progress.count_isSome] at count
    rw [← length] at refines
    refine ⟨length, refines.contains_iff holds, fun i v there => ?_, count, ?_⟩
    · exact follows.spoken i _ (gathers.collected.arrived i v there)
    · have fewer : values.countP Option.isSome < values.length :=
        List.countP_lt_length_iff.mpr ⟨none, missing, by simp⟩
      rw [count, ← length]
      exact fewer

/-- The merger that runs under the lock was called with all values. -/
theorem runs (there : s.store.results[m]? = some ⟨cell, .merge merge⟩) (held : merge.lock = .held) :
    cell.state = .pending ∧ merge.gathering.completed.cardinality = sources.length ∧
      ∃ values, h.filterMap (Moment.merged? m) = [values] := by
  obtain ⟨x, there', shows⟩ := follows.shows
  cases there.symm.trans there'
  cases shows with
  | merging pending _ _ holds =>
    refine ⟨pending, by simpa using holds.cardinality, ?_⟩
    -- only the last value leads to a running merger, and it is handed over once
    have verdict := follows.verdict
    generalize h.filterMap (Moment.merged? m) = merged at verdict
    generalize same : Progress.merging _ = p at verdict
    cases verdict with
    | «open» | ended => cases same
    | full => exact ⟨_, rfl⟩
  | opening | gathering | broken => cases held
  | decided _ _ _ lock => exact absurd held lock

/-- A source that is asked has ended. -/
theorem asked (found : s.moment? t = some μ) {r : ResultId} (frame : μ.frame = .query m i r) :
    sources[i]? = some r ∧ ∃ x, s.store.results[r]? = some x ∧ x.isDone = true := by
  have placed := (follows.watched.moment found).1
  rw [frame] at placed
  obtain ⟨ended, position⟩ := placed rfl
  obtain ⟨x, there, -⟩ := follows.watched.hosts.of_position position
  exact ⟨position, x, there, (ended.done position there).2⟩

/-- A source that speaks is taken in, or comes too late. -/
theorem taken_in (returns : merger.Returns (h.filterMap (Moment.event? m)))
    (found : s.moment? t = some μ) (yields : μ.Yields client e calls) {a : Answer V}
    (answered : μ.result = .ok a) (frame : μ.frame = .commit m i)
    (there : s.store.results[m]? = some ⟨cell, .merge merge⟩) (o : Outcome V) :
    Gathering.arrive cell merge.gathering merge.size i o ≠ .outside ∧
      Gathering.arrive cell merge.gathering merge.size i o ≠ .twice := by
  -- while the lock is held, nothing but the merger steps
  have free : merge.lock ≠ .held := by
    intro held
    have about : μ.frame.subject? = some m := by rw [frame]; rfl
    have here : μ.store.results[m]? = some ⟨cell, .merge merge⟩ := by
      rw [(System.moment?_eq_some found).1, there]
    have running := yields.touches.locked m _ a answered about here (by simp [Result.isHeld, held])
    cases frame.symm.trans running
  refine follows.accepts found frame there ?_ o
  rcases follows.gathers_or_ended returns there free with ⟨values, same, -⟩ | ended
  · exact .inl ⟨values, same⟩
  · exact .inr ended

/-- A callback of the merge goes on without a panic, if the merger does. -/
theorem goes_on (returns : merger.Returns (h.filterMap (Moment.event? m)))
    (found : s.moment? t = some μ) (yields : μ.Yields client e calls) {a : Answer V}
    (answered : μ.result = .ok a) (observes : μ.frame.Observes m i) :
    ∃ b, e.result = .ok b := by
  rcases yields.emits with ⟨-, emits⟩ | ⟨a', b, c, -, -, answered', -⟩
  · rw [answered, (System.moment?_eq_some found).1] at emits
    cases frame : μ.frame with
    | lookup merge index =>
      rw [frame] at emits
      exact emits.lookup_ok
    | query merge index r =>
      rw [frame] at observes emits
      obtain ⟨rfl, rfl⟩ := observes
      exact emits.query_ok (follows.asked found frame).2
    | commit merge index =>
      rw [frame] at observes emits
      obtain ⟨rfl, rfl⟩ := observes
      obtain ⟨x, there, shows⟩ := follows.shows
      obtain ⟨cell, gathering, lock, rfl⟩ := shows.isMerge
      refine emits.commit_ok there (follows.taken_in returns found yields answered frame there) ?_
      rintro f rfl
      exact returns
    | _ => rw [frame] at observes; exact observes.elim
  · exact ⟨b, answered'⟩

/-- A source that speaks has a word for its bit. While the merge is pending, its slot is empty and
its bit is not set. -/
theorem heard (returns : merger.Returns (h.filterMap (Moment.event? m)))
    (there : s.store.results[m]? = some ⟨cell, .merge merge⟩)
    (counts : s.store.Counts m sources.length members) (found : s.moment? t = some μ)
    (frame : μ.frame = .commit m i) :
    i < sources.length ∧ i / 64 < merge.gathering.completed.words.length ∧
      (cell.state = .pending → merge.lock ≠ .held →
        merge.gathering.slots[i]? = some none ∧ merge.gathering.completed.contains i = false) := by
  have placed := (follows.watched.moment found).1
  rw [frame] at placed
  obtain ⟨r, -, position, -⟩ := placed rfl
  have bound := (List.getElem?_eq_some_iff.mp position).1
  have room := (counts.refines there).room bound
  refine ⟨bound, by omega, fun pending free => ?_⟩
  obtain ⟨values, rfl, -⟩ := follows.gathers returns there pending free
  obtain ⟨x, there', shows⟩ := follows.shows
  cases there.symm.trans there'
  have fresh := (follows.watched.fresh found follows.shows frame).2
  have gathered := follows.gathered_values returns there counts pending free
  cases shows with
  | gathering =>
    refine ⟨fresh, Bool.eq_false_iff.mpr fun set => ?_⟩
    obtain ⟨v, filled⟩ := (gathered.bits i).mp set
    cases fresh.symm.trans filled

end System.Follows

/-- The accumulator of a merge over `sources` in a state of a run. -/
structure AccumulatorInvariant (client : Client V κ σ) (m : ResultId) (sources : List ResultId)
    (h : List (Moment V κ σ)) (s : System V κ σ) (cell : Cell V (Task κ)) (merge : Merge V κ) :
    Prop where
  size : merge.size = sources.length
  /-- While the merge is pending and its merger does not run, its bits, values and count agree. -/
  gathered : cell.state = .pending → merge.lock ≠ .held →
    s.store.Gathered sources merge.gathering
  /-- While its merger runs under the lock, that one call has taken all values. -/
  running : merge.lock = .held → cell.state = .pending ∧
    merge.gathering.completed.cardinality = merge.size ∧
      ∃ values, h.filterMap (Moment.merged? m) = [values]
  /-- The merger gets the value of every source at the position of the source. -/
  called : ∀ values ∈ h.filterMap (Moment.merged? m),
    List.Forall₂ (fun r v => s.store.Gives r (.ok v)) sources values
  bounded : merge.gathering.completed.cardinality ≤ merge.size
  /-- The count never falls, and stays once the merge has ended. -/
  grows : ∀ h' s', Run client (Call.Blind m) s h' s' → ∃ cell' merge',
    s'.store.results[m]? = some ⟨cell', .merge merge'⟩ ∧ merge'.size = merge.size ∧
      merge.gathering.completed.cardinality ≤ merge'.gathering.completed.cardinality ∧
      merge'.gathering.completed.cardinality ≤ merge'.size ∧
      (cell.state ≠ .pending → cell'.state = cell.state ∧
        merge'.gathering.completed.cardinality = merge.gathering.completed.cardinality)
  /-- A source that is asked is done. -/
  asked : ∀ t μ i r, s.moment? t = some μ → μ.frame = .query m i r →
    sources[i]? = some r ∧ ∃ x, s.store.results[r]? = some x ∧ x.isDone = true
  /-- A source that speaks finds the word of its bit, and while the merge is pending, its slot, and
  has not spoken before. -/
  heard : ∀ t μ i, s.moment? t = some μ → μ.frame = .commit m i →
    i < sources.length ∧ i / 64 < merge.gathering.completed.words.length ∧
      (cell.state = .pending → merge.lock ≠ .held →
        merge.gathering.slots[i]? = some none ∧ merge.gathering.completed.contains i = false)
  /-- No callback of the merge panics while it takes in its source. -/
  calm : ∀ t μ e calls i a, s.moment? t = some μ → μ.Yields client e calls →
    μ.result = .ok a → μ.frame.Observes m i → ∃ b, e.result = .ok b

/-- The count of a merge grows through every run, and no further than its size. -/
theorem Store.Counts.grows (counts : s.store.Counts m sources.length members) (sound : s.Sound)
    (there : s.store.results[m]? = some ⟨cell, .merge merge⟩)
    (size : merge.size = sources.length) (run : Run client Call.Fair s h s₁) :
    ∃ cell' merge', s₁.store.results[m]? = some ⟨cell', .merge merge'⟩ ∧
      merge'.size = merge.size ∧
      merge.gathering.completed.cardinality ≤ merge'.gathering.completed.cardinality ∧
      merge'.gathering.completed.cardinality ≤ merge'.size ∧
      (cell.state ≠ .pending → cell'.state = cell.state ∧
        merge'.gathering.completed.cardinality = merge.gathering.completed.cardinality) := by
  have isMerge : s.store.IsMerge m sources.length := ⟨cell, merge, there, size⟩
  obtain ⟨members', grown, counts'⟩ := run.counts sound isMerge counts
  obtain ⟨cell', merge', there', size'⟩ := run.store_later.isMerge isMerge
  have before := counts.refines there
  have after := counts'.refines there'
  refine ⟨cell', merge', there', size'.trans size.symm, ?_, ?_, fun ended => ?_⟩
  · rw [before.cardinality, after.cardinality]
    exact Finset.card_le_card grown
  · rw [size']
    exact after.cardinality_le
  · have terminal := (State.isPending_eq_false_iff cell.state).mpr ended
    obtain ⟨x, there₁, later⟩ := run.store_later m _ there
    cases there'.symm.trans there₁
    obtain ⟨x, there₂, same⟩ := run.completedSet?_ended there terminal
    cases there'.symm.trans there₂
    exact ⟨later.state terminal, congrArg BitSet.cardinality (Option.some.inj same)⟩

/-- In every state that completions and cancels of its sources can lead a merge to, its bits, values
and count agree with one another and with the sources, if its merger returns. -/
theorem accumulator_invariant (built : Built client (Call.Blind m) merger sources m s)
    (some : sources ≠ [])
    (own : ∀ r ∈ sources, ∃ x, s.store.results[r]? = Option.some x ∧ x.isForeign = false)
    (run : Run client (Call.Blind m) s h s₁)
    (returns : merger.Returns (h.filterMap (Moment.event? m))) :
    ∃ cell merge, s₁.store.results[m]? = Option.some ⟨cell, .merge merge⟩ ∧
      AccumulatorInvariant client m sources h s₁ cell merge := by
  obtain ⟨p, follows⟩ := built.follows some own run
  have fair : Run client Call.Fair s h s₁ := run.mono fun _ _ => And.left
  have before : Built client Call.Fair merger sources m s := built.mono fun _ _ => And.left
  obtain ⟨cell₀, merge₀, there₀, size₀, -⟩ := (built.watched some own).hosts.record
  have isMerge : s.store.IsMerge m sources.length := ⟨cell₀, merge₀, there₀, size₀⟩
  obtain ⟨members, -, counts⟩ := fair.counts before.sound isMerge before.counts
  obtain ⟨cell, merge, there, size⟩ := fair.store_later.isMerge isMerge
  refine ⟨cell, merge, there, size, follows.gathered_values returns there counts, ?_,
    fun values => follows.given, ?_, ?_, fun t μ i r found => follows.asked found,
    fun t μ i => follows.heard returns there counts,
    fun t μ e calls i a found yields => follows.goes_on returns found yields⟩
  · intro held
    rw [size]
    exact follows.runs there held
  · rw [size]
    exact (counts.refines there).cardinality_le
  · intro h' s' rest
    exact counts.grows (fair.sound before.sound) there size (rest.mono fun _ _ => And.left)

end

namespace Ordered

/-- A merge that reads its first source twice. -/
def doubled : System Nat Unit Unit := ((created.begin (.build digits [0, 1, 0])).drive client [2]).2

/-- Its second source succeeds. -/
def partly : List (Moment Nat Unit Unit) × System Nat Unit Unit :=
  let attached := doubled.drive client (List.replicate 7 2)
  let succeeded := attached.2.call client (.complete 1 (.succeeded 2)) 8
  (attached.1 ++ succeeded.1, succeeded.2)

theorem second_bit_set :
    Built client (Call.Blind 2) digits [0, 1, 0] 2 doubled ∧ ([0, 1, 0] : List ResultId) ≠ [] ∧
      (∀ r ∈ [0, 1, 0], ∃ x, doubled.store.results[r]? = some x ∧ x.isForeign = false) ∧
      Run client (Call.Blind 2) doubled partly.1 partly.2 ∧
      digits.Returns (partly.1.filterMap (Moment.event? 2)) ∧
      ∃ cell merge, partly.2.store.results[2]? = some ⟨cell, .merge merge⟩ ∧
        AccumulatorInvariant client 2 [0, 1, 0] partly.1 partly.2 cell merge ∧
        merge.gathering.slots = [none, some 2, none] ∧
        merge.gathering.completed.contains 1 = true ∧
        merge.gathering.completed.contains 2 = false := by
  have silent (μ : Moment Nat Unit Unit) (c : Call Nat Unit) (made : μ.call? client = some c) :
      c.Blind 2 μ.store := by
    rw [client, Client.panicking_call?] at made
    cases made
  have create (s : System Nat Unit Unit) :=
    Run.call silent s (c := .create .settable) ⟨trivial, fun _ => rfl⟩ 1
  have reached : Run client (Call.Blind 2) ⟨.empty (), []⟩ _
      (created.begin (.build digits [0, 1, 0])) :=
    ((create _).trans (create _)).begin _ ⟨trivial, fun _ => rfl⟩
  have built : Built client (Call.Blind 2) digits [0, 1, 0] 2 doubled :=
    .intro reached (t := 2) rfl rfl rfl rfl rfl
  have own : ∀ r ∈ [0, 1, 0], ∃ x, doubled.store.results[r]? = some x ∧ x.isForeign = false := by
    intro r member
    simp only [List.mem_cons, List.not_mem_nil, or_false] at member
    rcases member with rfl | rfl | rfl <;> exact ⟨_, rfl, rfl⟩
  have run : Run client (Call.Blind 2) doubled partly.1 partly.2 :=
    (Run.drive silent doubled _).trans
      (Run.call silent _ ⟨(Call.isFair_iff _ _).mp rfl, fun _ => rfl⟩ 8)
  have returns : digits.Returns (partly.1.filterMap (Moment.event? 2)) := by
    intro values p panics
    cases panics
  obtain ⟨cell, merge, there, invariant⟩ := accumulator_invariant built (by simp) own run returns
  refine ⟨built, by simp, own, run, returns, cell, merge, there, invariant, ?_⟩
  cases there
  have gathered := invariant.gathered rfl (by simp)
  have unset : ¬ ∃ v, [none, some 2, none][2]? = some (some v) := by simp
  exact ⟨rfl, (gathered.bits 1).mpr ⟨2, rfl⟩,
    Bool.eq_false_iff.mpr fun set => unset ((gathered.bits 2).mp set)⟩

end Ordered

end Quorate
