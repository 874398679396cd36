import Quorate.Proofs.Merge.Network
import Quorate.Proofs.Merge.Outcome

/-! The network that a run constructs. It is read off the history, together with the calls of the
mergers. Every merge in it was built by one step of the run, and the rest of the run followed. -/

set_option autoImplicit false

namespace Quorate

variable {V κ σ : Type}

/-- A plain merger that never panics. -/
def Merger.Total (merger : Merger V κ) : Prop :=
  ∃ merge : List V → Outcome V, merger = .plain fun values => .ok (merge values)

/-- A frame that constructs a merge only if its merger returns. -/
def Frame.Returning : Frame V κ → Prop
  | .call (.build merger _) => merger.Total
  | _ => True

/-- A call from outside that makes, completes or cancels a result, or merges results by a merger
that returns. -/
def Call.Returning (s : Store V κ σ) (c : Call V κ) : Prop :=
  c.Plain s ∧ (Frame.call c).Returning

/-- A call from outside that makes or completes a leaf, or merges results by a merger that
returns. -/
def Call.Steady (s : Store V κ σ) : Call V κ → Prop
  | .create .settable => True
  | .complete r state => s.Takes r state
  | .build merger sources => merger.Total ∧ ∀ r ∈ sources, r < s.results.length
  | _ => False

theorem Call.Steady.plain {s : Store V κ σ} {c : Call V κ} (steady : c.Steady s) : c.Plain s := by
  cases c with
  | create seed => cases seed <;> exact steady
  | complete r state => exact steady
  | build merger sources =>
    obtain ⟨⟨merge, total⟩, there⟩ := steady
    exact ⟨⟨_, total⟩, there⟩
  | _ => exact steady.elim

theorem Call.Steady.returning {s : Store V κ σ} {c : Call V κ} (steady : c.Steady s) :
    c.Returning s := by
  refine ⟨steady.plain, ?_⟩
  cases c with
  | build merger sources => exact steady.1
  | _ => trivial

theorem Frame.Passive.returning {frame : Frame V κ} (passive : frame.Passive) :
    frame.Returning := by
  cases frame with
  | call c => cases c <;> trivial
  | _ => trivial

theorem Emits.returning {client : Client V κ σ} {s : Store V κ σ} {result result' : Return V}
    {frame : Frame V κ} {frames : List (Frame V κ)}
    (emits : Emits client s result frame result' frames) (plain : frame.Plain s) :
    ∀ f ∈ frames, f.Returning := by
  intro f member
  cases emits with
  | passive _ passes => exact (passes f member).returning
  | calls | attempts | polls => exact plain.elim
  | opens form =>
    rcases form with ⟨g, p, -, -, -, rfl⟩ | ⟨g, o, -, -, -, rfl⟩ | ⟨g, -, -, rfl⟩
    · cases member
    · cases List.mem_singleton.mp member
      trivial
    · simp only [List.mem_cons, List.not_mem_nil, or_false] at member
      rcases member with rfl | rfl <;> trivial
  | _ =>
    simp only [List.mem_cons, List.not_mem_nil, or_false] at member <;>
      rcases member with rfl | rfl <;> trivial

/-- A frame that cancels nothing, and constructs a merge only if its merger returns. -/
def Frame.Steady : Frame V κ → Prop
  | .call (.cancel _) | .sweep _ _ _ _ => False
  | .call (.build merger _) => merger.Total
  | _ => True

theorem Call.Steady.frame {s : Store V κ σ} {c : Call V κ} (steady : c.Steady s) :
    (Frame.call c).Steady := by
  cases c with
  | cancel r => exact steady
  | build merger sources => exact steady.1
  | _ => trivial

theorem Frame.Passive.steady {frame : Frame V κ} (passive : frame.Passive) : frame.Steady := by
  cases frame with
  | call c => cases c <;> trivial
  | _ => trivial

theorem Emits.steady {client : Client V κ σ} {s : Store V κ σ} {result result' : Return V}
    {frame : Frame V κ} {frames : List (Frame V κ)}
    (emits : Emits client s result frame result' frames) (plain : frame.Plain s)
    (steady : frame.Steady) : ∀ f ∈ frames, f.Steady := by
  intro f member
  cases emits with
  | passive _ passes => exact (passes f member).steady
  | calls | attempts | polls => exact plain.elim
  | sweeps | asks | swept => exact steady.elim
  | opens form =>
    rcases form with ⟨g, p, -, -, -, rfl⟩ | ⟨g, o, -, -, -, rfl⟩ | ⟨g, -, -, rfl⟩
    · cases member
    · cases List.mem_singleton.mp member
      trivial
    · simp only [List.mem_cons, List.not_mem_nil, or_false] at member
      rcases member with rfl | rfl <;> trivial
  | _ =>
    simp only [List.mem_cons, List.not_mem_nil, or_false] at member <;>
      rcases member with rfl | rfl <;> trivial

namespace Moment

/-- The node that a step adds to the network. -/
def node? (μ : Moment V κ σ) : Option (Node V κ) :=
  match μ.result, μ.frame with
  | .ok _, .call (.create .settable) => some .leaf
  | .ok _, .call (.build merger sources) => some (.merge merger sources)
  | _, _ => none

/-- The values that a step calls the merger of `m` with; without sources its construction does. -/
def invoked? (m : ResultId) (μ : Moment V κ σ) : Option (List V) :=
  if m = μ.store.results.length then
    μ.node?.bind fun node =>
      match node with
      | .merge _ sources => atOnce sources
      | .leaf => none
  else μ.merged? m

variable {m : ResultId} {μ : Moment V κ σ}

theorem merged?_missing (missing : μ.store.results[m]? = none) : μ.merged? m = none := by
  unfold merged?
  split
  next r index cell merge _ _ found => cases missing.symm.trans found
  next => rfl

/-- A step adds a node to the network when it adds a result. -/
theorem length_node? (plain : μ.frame.Plain μ.store) :
    μ.node?.toList.length = (μ.frame.made? μ.result).toList.length := by
  obtain ⟨store, t, result, frame, below⟩ := μ
  cases result with
  | error p => rfl
  | ok a =>
    cases frame with
    | call c =>
      cases c with
      | create seed => cases seed <;> first | rfl | exact plain.elim
      | _ => rfl
    | _ => rfl

theorem node?_merge {merger : Merger V κ} {sources : List ResultId}
    (node : μ.node? = some (.merge merger sources)) :
    ∃ a, μ.result = .ok a ∧ μ.frame = .call (.build merger sources) := by
  unfold node? at node
  split at node
  next => cases node
  next a merger sources result frame => cases node; exact ⟨a, result, frame⟩
  next => cases node

theorem node?_leaf (node : μ.node? = some .leaf) :
    ∃ a, μ.result = .ok a ∧ μ.frame = .call (.create .settable) := by
  unfold node? at node
  split at node
  next a result frame => exact ⟨a, result, frame⟩
  next => cases node
  next => cases node

theorem invoked?_there (there : m < μ.store.results.length) : μ.invoked? m = μ.merged? m :=
  if_neg (Nat.ne_of_lt there)

theorem invoked?_beyond (beyond : μ.store.results.length < m) : μ.invoked? m = none := by
  rw [invoked?, if_neg (Nat.ne_of_gt beyond)]
  exact merged?_missing (List.getElem?_eq_none_iff.mpr (Nat.le_of_lt beyond))

end Moment

/-- The results that were made, in the order of their names. -/
def network (h : List (Moment V κ σ)) : List (Node V κ) := h.filterMap Moment.node?

/-- What the merger of `m` was called with. -/
def called (m : ResultId) (h : List (Moment V κ σ)) : List (List V) :=
  h.filterMap (Moment.invoked? m)

/-- A run from nothing, split where it has built the merge `m`. -/
inductive Since (client : Client V κ σ) (merger : Merger V κ) (sources : List ResultId)
    (m : ResultId) (h : List (Moment V κ σ)) (s : System V κ σ) : Prop where
  | intro {h' : List (Moment V κ σ)} {s' : System V κ σ} :
      Built client Call.Plain merger sources m s' → Run client Call.Plain s' h' s → h' <:+ h →
      called m h = (atOnce sources).toList ++ h'.filterMap (Moment.merged? m) →
      Since client merger sources m h s

/-- The history of a run tells the network that the results of `s` form. -/
structure System.Laid (client : Client V κ σ) (h : List (Moment V κ σ)) (s : System V κ σ) :
    Prop where
  returning : s.Each Frame.Returning
  length : (network h).length = s.store.results.length
  beyond : ∀ m, s.store.results.length ≤ m → called m h = []
  first : SourcesFirst (network h)
  leaf : ∀ r : ResultId, (network h)[r]? = some .leaf →
    ∃ cell : Cell V (Task κ), s.store.results[r]? = some ⟨cell, .settable⟩
  since : ∀ m merger sources, (network h)[m]? = some (.merge merger sources) →
    merger.Total ∧ Since client merger sources m h s

/-- The history of a steady run tells the network that the results of `s` form. -/
structure System.Networked (client : Client V κ σ) (h : List (Moment V κ σ)) (s : System V κ σ) :
    Prop where
  steady : s.Each Frame.Steady
  calm : ∀ m, .cancelled ∉ h.filterMap (Moment.event? m)
  length : (network h).length = s.store.results.length
  beyond : ∀ m, s.store.results.length ≤ m → called m h = []
  first : SourcesFirst (network h)
  since : ∀ m merger sources, (network h)[m]? = some (.merge merger sources) →
    merger.Total ∧ Since client merger sources m h s

section

variable {client : Client V κ σ} {s s' : System V κ σ} {h : List (Moment V κ σ)} {t m : Nat}
  {μ : Moment V κ σ} {e : Effect V κ σ} {merger : Merger V κ} {sources : List ResultId}

theorem Moment.event?_not_cancelled (steady : μ.frame.Steady) : μ.event? m ≠ some .cancelled := by
  intro event
  unfold Moment.event? Frame.event? at event
  split at event
  next frame =>
    rw [frame] at steady
    exact steady
  next =>
    split at event
    next =>
      obtain ⟨o, -, other⟩ := Option.map_eq_some_iff.mp event
      cases other
    next => cases event
  next => split at event <;> cases event
  next => split at event <;> cases event
  next => split at event <;> cases event
  next => cases event

theorem network_concat (h : List (Moment V κ σ)) (μ : Moment V κ σ) :
    network (h ++ [μ]) = network h ++ μ.node?.toList :=
  filterMap_concat _ h μ

/-- A node of a longer network is an old one, or the one of the last step. -/
theorem network_cases {node : Node V κ} (there : (network (h ++ [μ]))[m]? = some node) :
    m < (network h).length ∧ (network h)[m]? = some node ∨
      m = (network h).length ∧ μ.node? = some node := by
  rw [network_concat] at there
  by_cases old : m < (network h).length
  · rw [List.getElem?_append_left old] at there
    exact .inl ⟨old, there⟩
  · rw [List.getElem?_append_right (Nat.le_of_not_lt old)] at there
    have only : m - (network h).length < 1 := by
      have bound := (List.getElem?_eq_some_iff.mp there).1
      have few : μ.node?.toList.length ≤ 1 := by cases μ.node? <;> simp
      exact Nat.lt_of_lt_of_le bound few
    have last : m = (network h).length := by omega
    subst last
    rw [Nat.sub_self] at there
    refine .inr ⟨rfl, ?_⟩
    cases new : μ.node? with
    | none => simp [new] at there
    | some node' => simpa [new] using there

theorem called_concat (m : ResultId) (h : List (Moment V κ σ)) (μ : Moment V κ σ) :
    called m (h ++ [μ]) = called m h ++ (μ.invoked? m).toList :=
  filterMap_concat _ h μ

theorem Since.step {memory : σ} (since : Since client merger sources m h s)
    (run : Run client Call.Plain ⟨.empty memory, []⟩ h s) (found : s.moment? t = some μ)
    (step : s.step client t = some s') (there : m < s.store.results.length) :
    Since client merger sources m (h ++ [μ]) s' := by
  obtain ⟨built, later, ⟨before, rfl⟩, calls⟩ := since
  have silent : μ.call? client = none := (run.plain (System.plain_empty memory)).call? found
  refine .intro built (later.step found step (by simp [silent])) ⟨before, by simp⟩ ?_
  have same := (System.moment?_eq_some found).1
  rw [called_concat, calls, filterMap_concat, List.append_assoc,
    Moment.invoked?_there (by rw [same]; exact there)]

theorem System.Laid.step {memory : σ} (laid : s.Laid client h)
    (run : Run client Call.Plain ⟨.empty memory, []⟩ h s) (found : s.moment? t = some μ)
    (step : s.step client t = some s') : s'.Laid client (h ++ [μ]) := by
  obtain ⟨μ', e, calls, moment, yields, rfl⟩ := System.step_yields step
  cases found.symm.trans moment
  have plain := run.plain (plain_empty memory)
  obtain ⟨rfl, effect⟩ := plain.resumed found yields
  have here := (plain.frames.moment found).1
  have returning := (laid.returning.moment found).1
  have touches := Store.resume_touches effect
  have same := (moment?_eq_some found).1
  have added := Moment.length_node? (by rw [same]; exact here)
  have grown : e.store.results.length = s.store.results.length + μ.node?.toList.length := by
    rw [touches.length, added]
  constructor
  · exact laid.returning.after found ((Store.resume_emits effect).returning here) (by simp)
  · rw [network_concat, List.length_append, laid.length]
    exact grown.symm
  · intro m beyond
    have beyond : s.store.results.length + μ.node?.toList.length ≤ m := grown ▸ beyond
    have old : s.store.results.length ≤ m := Nat.le_trans (Nat.le_add_right _ _) beyond
    rw [called_concat, laid.beyond m old]
    rcases Nat.lt_or_eq_of_le old with past | last
    · rw [Moment.invoked?_beyond (by rw [same]; exact past)]
      rfl
    · -- had the step made the next result, there would be one more than `m`
      have none : μ.node? = none := by
        cases node : μ.node? with
        | none => rfl
        | some node' =>
          rw [node, last] at beyond
          exact absurd beyond (Nat.not_succ_le_self m)
      simp [Moment.invoked?, same, last, none]
  · intro m node there
    rcases network_cases there with ⟨-, old⟩ | ⟨rfl, new⟩
    · exact laid.first m node old
    · cases node with
      | leaf => simp [Node.sources]
      | merge merger sources =>
        obtain ⟨a, -, frame⟩ := Moment.node?_merge new
        rw [frame] at here
        rw [laid.length]
        exact here.2
  · intro r there
    rcases network_cases there with ⟨-, old⟩ | ⟨rfl, new⟩
    · obtain ⟨cell, there⟩ := laid.leaf r old
      obtain ⟨⟨cell', kind'⟩, there', later⟩ := touches.later r _ there
      have kinds := later.kind
      cases kind' <;> first | exact ⟨cell', there'⟩ | exact kinds.elim
    · obtain ⟨a, answered, frame⟩ := Moment.node?_leaf new
      have made := touches.made
      rw [answered, frame] at made
      rw [laid.length]
      exact ⟨_, made⟩
  · intro m merger sources there
    rcases network_cases there with ⟨bound, old⟩ | ⟨rfl, new⟩
    · rw [laid.length] at bound
      obtain ⟨total, since⟩ := laid.since m merger sources old
      exact ⟨total, since.step run found step bound⟩
    · obtain ⟨a, answered, frame⟩ := Moment.node?_merge new
      rw [frame] at returning
      rw [laid.length]
      -- the part of the run that follows the construction begins here, and is empty
      have built : Built client Call.Plain merger sources s.store.results.length _ :=
        .intro run found answered frame step rfl
      refine ⟨returning, .intro built .start ⟨h ++ [μ], by simp⟩ ?_⟩
      rw [called_concat, laid.beyond _ (Nat.le_refl _), Moment.invoked?, if_pos (by rw [same]),
        new]
      simp

/-- A run from nothing whose mergers return constructs a network. -/
theorem Run.laid {memory : σ} (run : Run client Call.Returning ⟨.empty memory, []⟩ h s) :
    s.Laid client h := by
  induction run with
  | start =>
    constructor
    · intro thread member
      cases member
    · rfl
    · exact fun m _ => rfl
    · intro m node there
      simp [network] at there
    · intro r there
      simp [network] at there
    · intro m merger sources there
      simp [network] at there
  | step run found step _ ih => exact ih.step (run.mono fun _ _ => And.left) found step
  | begin c _ obeyed ih =>
    obtain ⟨returning, length, beyond, first, leaf, since⟩ := ih
    refine ⟨returning.begin obeyed.2, length, beyond, first, leaf, ?_⟩
    intro m merger sources there
    obtain ⟨total, built, later, part, calls⟩ := since m merger sources there
    exact ⟨total, .intro built (later.begin c obeyed.1) part calls⟩
  | pass now _ past ih =>
    obtain ⟨returning, length, beyond, first, leaf, since⟩ := ih
    refine ⟨returning, length, beyond, first, leaf, ?_⟩
    intro m merger sources there
    obtain ⟨total, built, later, part, calls⟩ := since m merger sources there
    exact ⟨total, .intro built (later.pass now past) part calls⟩

/-- A steady run cancels nothing. -/
theorem Run.calm {s₀ : System V κ σ} (run : Run client Call.Steady s₀ h s) (plain : s₀.Plain)
    (steady : s₀.Each Frame.Steady) :
    s.Each Frame.Steady ∧ ∀ m, .cancelled ∉ h.filterMap (Moment.event? m) := by
  induction run with
  | start => exact ⟨steady, by simp⟩
  | @step h s₁ s₂ t μ run found step _ ih =>
    obtain ⟨μ', e, calls, moment, yields, rfl⟩ := System.step_yields step
    cases found.symm.trans moment
    have plain : s₁.Plain := (run.mono fun _ _ => Call.Steady.plain).plain plain
    obtain ⟨rfl, effect⟩ := plain.resumed found yields
    have here := (plain.frames.moment found).1
    have top := (ih.1.moment found).1
    refine ⟨ih.1.after found ((Store.resume_emits effect).steady here top) (by simp), ?_⟩
    intro m member
    rw [filterMap_concat] at member
    rcases List.mem_append.mp member with member | member
    · exact ih.2 m member
    · exact Moment.event?_not_cancelled top (Option.mem_toList.mp member)
  | begin c _ obeyed ih => exact ⟨ih.1.begin obeyed.frame, ih.2⟩
  | pass now _ _ ih => exact ih

/-- A steady run from nothing constructs a network. -/
theorem Run.networked {memory : σ} (run : Run client Call.Steady ⟨.empty memory, []⟩ h s) :
    s.Networked client h := by
  obtain ⟨-, length, beyond, first, -, since⟩ :=
    (run.mono fun _ _ => Call.Steady.returning).laid
  obtain ⟨steady, calm⟩ := run.calm (System.plain_empty memory) fun _ member => by cases member
  exact ⟨steady, calm, length, beyond, first, since⟩

end

end Quorate
