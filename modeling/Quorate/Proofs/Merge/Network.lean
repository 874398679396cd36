import Mathlib.Data.List.Forall2
import Mathlib.Data.List.Induction
import Quorate.Result.Store

/-! Networks of merges and their evaluation. A network lists its results in the order of their
names; a merge has its sources before it, so that the values of the leaves determine all others. -/

set_option autoImplicit false

namespace Quorate

variable {V κ : Type}

/-- What a plain merger makes of some values, unless it panics. -/
def Merger.outcome? (merger : Merger V κ) (values : List V) : Option (Outcome V) :=
  match merger with
  | .plain f => (f values).toOption
  | .code _ => none

/-- What a result is made of. -/
inductive Node (V κ : Type) where
  | leaf
  | merge (merger : Merger V κ) (sources : List ResultId)

namespace Node

def sources : Node V κ → List ResultId
  | .leaf => []
  | .merge _ sources => sources

/-- The value of a result that is `leaf` if it is a leaf, and else made of the values of its
sources. -/
def value (leaf : Option V) (values : ResultId → Option V) : Node V κ → Option V
  | .leaf => leaf
  | .merge merger sources =>
    match (sources.mapM values).bind merger.outcome? with
    | some (.ok v) => some v
    | _ => none

/-- The same node in a network with other names. -/
def rename (name : ResultId → ResultId) : Node V κ → Node V κ
  | .leaf => .leaf
  | .merge merger sources => .merge merger (sources.map name)

variable {leaf : Option V} {values values' : ResultId → Option V}

theorem mapM_eq_some_iff {sources : List ResultId} {vs : List V} :
    sources.mapM values = some vs ↔ List.Forall₂ (fun r v => values r = some v) sources vs := by
  induction sources generalizing vs with
  | nil => simp [eq_comm]
  | cons r sources ih =>
    rw [List.mapM_cons]
    constructor
    · intro all
      obtain ⟨v, first, all⟩ := Option.bind_eq_some_iff.mp all
      obtain ⟨rest, others, all⟩ := Option.bind_eq_some_iff.mp all
      cases all
      exact .cons first (ih.mp others)
    · rintro (_ | ⟨first, others⟩)
      simp [first, ih.mpr others]

/-- A node looks at its sources only. -/
theorem value_congr {node : Node V κ} (same : ∀ r ∈ node.sources, values r = values' r) :
    node.value leaf values = node.value leaf values' := by
  cases node with
  | leaf => rfl
  | merge merger sources =>
    have given : sources.mapM values = sources.mapM values' := by
      induction sources with
      | nil => rfl
      | cons r sources ih =>
        rw [List.mapM_cons, List.mapM_cons, same r List.mem_cons_self,
          ih fun r member => same r (List.mem_cons_of_mem _ member)]
    rw [value, value, given]

theorem value_rename (node : Node V κ) (name : ResultId → ResultId) :
    (node.rename name).value leaf values = node.value leaf (values ∘ name) := by
  cases node with
  | leaf => rfl
  | merge merger sources => rw [rename, value, value, List.mapM_map]

end Node

/-- Every result has its sources before it. -/
def SourcesFirst (net : List (Node V κ)) : Prop :=
  ∀ (m : ResultId) (node : Node V κ), net[m]? = some node → ∀ r ∈ node.sources, r < m

/-- The values of all results, from first to last, if the leaves have the values `leaf`. -/
def evaluate (leaf : ResultId → Option V) (net : List (Node V κ)) : List (Option V) :=
  net.foldl
    (fun values node => values ++ [node.value (leaf values.length) fun r => values[r]?.join]) []

section

variable {leaf values : ResultId → Option V} {net : List (Node V κ)}

theorem evaluate_concat (leaf : ResultId → Option V) (net : List (Node V κ)) (node : Node V κ) :
    evaluate leaf (net ++ [node]) = evaluate leaf net ++
      [node.value (leaf (evaluate leaf net).length) fun r => (evaluate leaf net)[r]?.join] := by
  simp only [evaluate, List.foldl_append, List.foldl_cons, List.foldl_nil]

/-- The evaluation is the one solution of the equations that the nodes state. -/
theorem evaluate_unique (first : SourcesFirst net)
    (solves : ∀ m node, net[m]? = some node → values m = node.value (leaf m) values) :
    evaluate leaf net = (List.range net.length).map values := by
  induction net using List.reverseRecOn with
  | nil => rfl
  | append_singleton net node ih =>
    have below (m : ResultId) (node' : Node V κ) (there : net[m]? = some node') :
        (net ++ [node])[m]? = some node' := by
      rw [List.getElem?_append_left (List.getElem?_eq_some_iff.mp there).1, there]
    have last : (net ++ [node])[net.length]? = some node := List.getElem?_concat_length
    have before := ih (fun m node' there => first m node' (below m node' there))
      (fun m node' there => solves m node' (below m node' there))
    rw [evaluate_concat, before, List.length_append, List.length_singleton, List.range_succ,
      List.map_append, List.map_singleton, List.length_map, List.length_range, solves _ _ last]
    -- all values that the last node looks at are there
    refine congrArg (fun v => _ ++ [v]) (Node.value_congr fun r member => ?_)
    have earlier := first _ _ last r member
    simp [earlier]

end

end Quorate
