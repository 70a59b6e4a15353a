import Kroker.Editor.Store

/-!
# Renaming a node

`nodeEditCandidate` of `graphEdits.ts`: the inspector's edit of a node.  A rename rewrites the
endpoints of the edges that name the node.  It is refused where another node has the new id, since
"the cascade would merge edge sets irreversibly"; the edges are not looked at.

A graph that is loaded from text may have edges that name no node, and a rename onto such a name
merges edge sets too.  The canvas finds a node by its key, which is its id or, for a duplicate, its
id with a number; an id that is such a key is found at the wrong node.
-/

namespace Kroker.GraphEdits

open Kroker.Editor (EditResult)

/-! ## 1.  The wire graph -/

/-- `NodeWire`, with what no rename reads. -/
structure NodeWire (N : Type) where
  id : String
  rest : N
  deriving DecidableEq

/-- `EdgeWire`, with what no rename reads. -/
structure EdgeWire (E : Type) where
  source : String
  sourcePort : String
  target : String
  targetPort : String
  rest : E
  deriving DecidableEq

structure GraphWire (N E : Type) where
  nodes : List (NodeWire N)
  edges : List (EdgeWire E)
  deriving DecidableEq

section Edits

variable {N E : Type}

/-- The key of the node that is the `count`-th with its id. -/
def keyText (id : String) (count : ℕ) : String :=
  if count = 1 then id else id ++ "~" ++ toString count

/-- The keys of nodes that follow others, of which `seen` says how many have each id. -/
def nodeKeysFrom (seen : Dict ℕ) : List (NodeWire N) → List String
  | [] => []
  | n :: nodes =>
    let count := seen.getD n.id 0 + 1
    keyText n.id count :: nodeKeysFrom (seen.insert n.id count) nodes

def nodeKeys (graph : GraphWire N E) : List String := nodeKeysFrom ∅ graph.nodes

/-- The endpoints that name `old` name `new`. -/
def EdgeWire.rename (old new : String) (e : EdgeWire E) : EdgeWire E :=
  { e with
    source := if e.source = old then new else e.source
    target := if e.target = old then new else e.target }

def nodeEditCandidate (graph : GraphWire N E) (key : String) (next : NodeWire N) :
    EditResult (GraphWire N E) :=
  match (nodeKeys graph).idxOf? key with
  | none => .refused "" "the node is no longer on the canvas"
  | some index =>
    match graph.nodes[index]? with
    | none => .refused "" "the node is no longer on the canvas"  -- there is a node for each key
    | some old =>
      let g := { graph with nodes := graph.nodes.set index next }
      let others := graph.nodes.eraseIdx index
      if next.id = old.id then .ok (some g) none none
      else if others.any fun n => n.id = next.id then
        .refused "id" ("'" ++ next.id ++
          "' is already used by another node, so renaming would merge their edges")
      else if others.any fun n => n.id = old.id then
        .ok (some g) (some (some next.id))
          (some ("edges stay with '" ++ old.id ++ "': the id was ambiguous"))
      else
        .ok (some { g with edges := graph.edges.map (EdgeWire.rename old.id next.id) })
          (some (some next.id)) none

/-! ## 2.  What reversible means -/

/-- The graph that a rename of the node at `index` gives can be renamed back into the graph it was
given, and every endpoint that named another node names it still. -/
structure ReversibleRename (graph graph' : GraphWire N E) (index : ℕ) (old : NodeWire N) :
    Prop where
  back : ∃ key, (nodeKeys graph')[index]? = some key ∧ ∃ select notice,
    nodeEditCandidate graph' key old = .ok (some graph) select notice
  nodes : ∀ (j : ℕ) (n : NodeWire N), j ≠ index → graph.nodes[j]? = some n →
    graph'.nodes[j]? = some n
  edges : ∀ (i : ℕ) (e : EdgeWire E), graph.edges[i]? = some e →
    ∃ e' : EdgeWire E, graph'.edges[i]? = some e' ∧ ∀ (j : ℕ) (n : NodeWire N), j ≠ index → graph.nodes[j]? = some n →
      (e.source = n.id → e'.source = n.id) ∧ (e.target = n.id → e'.target = n.id)

/-! ## 3.  Keys -/

theorem getElem?_nodeKeysFrom (seen : Dict ℕ) (nodes : List (NodeWire N)) (i : ℕ) :
    (nodeKeysFrom seen nodes)[i]? = nodes[i]?.map fun n =>
      keyText n.id (seen.getD n.id 0 + ((nodes.take i).map (·.id)).count n.id + 1) := by
  induction nodes generalizing seen i with
  | nil => rfl
  | cons m nodes ih =>
    rw [nodeKeysFrom]
    cases i with
    | zero => rfl
    | succ i =>
      rw [List.getElem?_cons_succ, List.getElem?_cons_succ, ih]
      refine Option.map_congr fun n _ => ?_
      rw [List.take_succ_cons, List.map_cons, List.count_cons, Dict.getD_insert]
      by_cases hid : m.id = n.id
      · simp only [hid, if_true, beq_self_eq_true]
        congr 1
        omega
      · simp only [hid, if_false, beq_iff_eq, Nat.add_zero]

/-- **The key of a node**, from the nodes before it. -/
theorem getElem?_nodeKeys (graph : GraphWire N E) (i : ℕ) :
    (nodeKeys graph)[i]? = graph.nodes[i]?.map fun n =>
      keyText n.id (((graph.nodes.take i).map (·.id)).count n.id + 1) := by
  rw [nodeKeys, getElem?_nodeKeysFrom]
  simp only [Dict.getD_eq, Dict.get?_empty, Option.getD_none, Nat.zero_add]

theorem length_nodeKeys (graph : GraphWire N E) :
    (nodeKeys graph).length = graph.nodes.length := by
  have hlength : ∀ (seen : Dict ℕ) (nodes : List (NodeWire N)),
      (nodeKeysFrom seen nodes).length = nodes.length := by
    intro seen nodes
    induction nodes generalizing seen with
    | nil => rfl
    | cons n nodes ih => rw [nodeKeysFrom, List.length_cons, ih, List.length_cons]
  exact hlength ∅ graph.nodes

theorem take_nodeKeys_set (graph graph' : GraphWire N E) {index : ℕ} {n : NodeWire N}
    (h : graph'.nodes = graph.nodes.set index n) :
    (nodeKeys graph').take index = (nodeKeys graph).take index := by
  refine List.ext_getElem? fun i => ?_
  rw [List.getElem?_take, List.getElem?_take]
  split_ifs with hi
  · rw [getElem?_nodeKeys, getElem?_nodeKeys, h, List.getElem?_set_ne (by omega),
      List.take_set_of_le (by omega)]
  · rfl

theorem key_of_unique {graph : GraphWire N E} {index : ℕ} {n : NodeWire N}
    (hn : graph.nodes[index]? = some n) (hunique : ∀ m ∈ graph.nodes.eraseIdx index, m.id ≠ n.id) :
    (nodeKeys graph)[index]? = some n.id := by
  have hcount : ((graph.nodes.take index).map (·.id)).count n.id = 0 := by
    rw [List.count_eq_zero]
    intro hmem
    obtain ⟨m, hm, hid⟩ := List.mem_map.mp hmem
    refine hunique m ?_ hid
    rw [List.eraseIdx_eq_take_drop_succ]
    exact List.mem_append_left _ hm
  rw [getElem?_nodeKeys, hn, Option.map_some, hcount]
  rfl

theorem idxOf?_iff_notMem_take {l : List String} {key : String} {index : ℕ}
    (h : l[index]? = some key) : l.idxOf? key = some index ↔ key ∉ l.take index := by
  obtain ⟨hlt, hkey⟩ := List.getElem?_eq_some_iff.mp h
  rw [List.idxOf?_eq_some_iff]
  constructor
  · rintro ⟨_, _, hbefore⟩ hmem
    obtain ⟨j, hj, hget⟩ := List.mem_take_iff_getElem.mp hmem
    exact hbefore j (by omega) hget
  · intro hnot
    refine ⟨hlt, hkey, fun j hj hget => hnot ?_⟩
    exact List.mem_take_iff_getElem.mpr ⟨j, by omega, hget⟩

/-! ## 4.  Endpoints -/

theorem EdgeWire.rename_rename_iff {old new : String} (hne : new ≠ old) (e : EdgeWire E) :
    (e.rename old new).rename new old = e ↔ e.source ≠ new ∧ e.target ≠ new := by
  have hend : ∀ x : String, (if (if x = old then new else x) = new then old
      else if x = old then new else x) = x ↔ x ≠ new := by
    intro x
    by_cases hold : x = old
    · rw [if_pos hold, if_pos rfl, hold]
      exact iff_of_true rfl hne.symm
    · rw [if_neg hold]
      by_cases hnew : x = new
      · rw [if_pos hnew]
        exact iff_of_false (fun h => hold h.symm) (fun h => h hnew)
      · rw [if_neg hnew]
        exact iff_of_true rfl hnew
  rw [← hend e.source, ← hend e.target]
  constructor
  · intro h
    exact ⟨congrArg EdgeWire.source h, congrArg EdgeWire.target h⟩
  · rintro ⟨hsource, htarget⟩
    cases e
    simp only [EdgeWire.rename, EdgeWire.mk.injEq] at hsource htarget ⊢
    exact ⟨hsource, trivial, htarget, trivial, trivial⟩

/-! ## 5.  Renames -/

section Rename

variable {graph graph' : GraphWire N E} {key : String} {index : ℕ} {old next : NodeWire N}

theorem nodeEditCandidate_eq (hkey : (nodeKeys graph).idxOf? key = some index)
    (hold : graph.nodes[index]? = some old) : nodeEditCandidate graph key next =
      if next.id = old.id then .ok (some { graph with nodes := graph.nodes.set index next }) none none
      else if (graph.nodes.eraseIdx index).any fun n => n.id = next.id then
        .refused "id" ("'" ++ next.id ++
          "' is already used by another node, so renaming would merge their edges")
      else if (graph.nodes.eraseIdx index).any fun n => n.id = old.id then
        .ok (some { graph with nodes := graph.nodes.set index next }) (some (some next.id))
          (some ("edges stay with '" ++ old.id ++ "': the id was ambiguous"))
      else
        .ok (some ⟨graph.nodes.set index next, graph.edges.map (EdgeWire.rename old.id next.id)⟩)
          (some (some next.id)) none := by
  rw [nodeEditCandidate, hkey]
  dsimp only
  rw [hold]

variable {select : Option (Option String)}

theorem nodes_of_accepted (hkey : (nodeKeys graph).idxOf? key = some index)
    (hold : graph.nodes[index]? = some old) {notice : Option String}
    (h : nodeEditCandidate graph key next = .ok (some graph') select notice) :
    graph'.nodes = graph.nodes.set index next := by
  rw [nodeEditCandidate_eq hkey hold] at h
  split_ifs at h <;> cases h <;> rfl

/-- **A rename of a node whose id is its own** renames the endpoints that name it, and no other node
has the new id. -/
theorem renamed_of_accepted (hkey : (nodeKeys graph).idxOf? key = some index)
    (hold : graph.nodes[index]? = some old)
    (hunique : ∀ n ∈ graph.nodes.eraseIdx index, n.id ≠ old.id) (hne : next.id ≠ old.id)
    {notice : Option String}
    (h : nodeEditCandidate graph key next = .ok (some graph') select notice) :
    (∀ n ∈ graph.nodes.eraseIdx index, n.id ≠ next.id) ∧
      graph' = ⟨graph.nodes.set index next,
        graph.edges.map (EdgeWire.rename old.id next.id)⟩ := by
  rw [nodeEditCandidate_eq hkey hold, if_neg hne] at h
  split_ifs at h with hused hambiguous
  · obtain ⟨n, hn, hid⟩ := List.any_eq_true.mp hambiguous
    exact absurd (of_decide_eq_true hid) (hunique n hn)
  · cases h
    refine ⟨fun n hn hid => hused ?_, rfl⟩
    exact List.any_eq_true.mpr ⟨n, hn, decide_eq_true hid⟩

theorem nodeEditCandidate_of_unique (hkey : (nodeKeys graph).idxOf? key = some index)
    (hold : graph.nodes[index]? = some old)
    (hunique : ∀ n ∈ graph.nodes.eraseIdx index, n.id ≠ old.id) (hne : next.id ≠ old.id)
    (hfree : ∀ n ∈ graph.nodes.eraseIdx index, n.id ≠ next.id) :
    nodeEditCandidate graph key next =
      .ok (some ⟨graph.nodes.set index next,
        graph.edges.map (EdgeWire.rename old.id next.id)⟩) (some (some next.id)) none := by
  have hany : ∀ id, (∀ n ∈ graph.nodes.eraseIdx index, n.id ≠ id) →
      ((graph.nodes.eraseIdx index).any fun n => n.id = id) = false := by
    intro id h
    rw [List.any_eq_false]
    exact fun n hn heq => h n hn (of_decide_eq_true heq)
  rw [nodeEditCandidate_eq hkey hold, if_neg hne, hany _ hfree, hany _ hunique]
  rfl

theorem EdgeWire.rename_of_ne {new : String} {e : EdgeWire E} {id : String} (h : id ≠ old.id) :
    (e.source = id → (e.rename old.id new).source = id) ∧
      (e.target = id → (e.rename old.id new).target = id) := by
  constructor
  · rintro rfl
    exact if_neg h
  · rintro rfl
    exact if_neg h

theorem set_self {l : List (NodeWire N)} (h : l[index]? = some old) : l.set index old = l := by
  obtain ⟨hlt, rfl⟩ := List.getElem?_eq_some_iff.mp h
  exact List.set_getElem_self hlt

theorem reversible_of_same (hkey : (nodeKeys graph).idxOf? key = some index)
    (hold : graph.nodes[index]? = some old) {notice : Option String}
    (h : nodeEditCandidate graph key old = .ok (some graph') select notice) :
    ReversibleRename graph graph' index old := by
  have hsame : graph' = graph := by
    have heq := h
    rw [nodeEditCandidate_eq hkey hold, if_pos rfl, set_self hold] at heq
    cases heq
    rfl
  subst hsame
  obtain ⟨hlt, hget, -⟩ := List.idxOf?_eq_some_iff.mp hkey
  exact
    { back := ⟨key, List.getElem?_eq_some_iff.mpr ⟨hlt, hget⟩, select, notice, h⟩
      nodes := fun _ _ _ hn => hn
      edges := fun _ e he => ⟨e, he, fun _ _ _ _ => ⟨id, id⟩⟩ }

/-- **A rename can be taken back** exactly where no edge names the new id and no earlier node has it
as its key. -/
theorem rename_reversible_iff (hkey : (nodeKeys graph).idxOf? key = some index)
    (hold : graph.nodes[index]? = some old)
    (hunique : ∀ n ∈ graph.nodes.eraseIdx index, n.id ≠ old.id) {newId : String}
    {select : Option (Option String)} {notice : Option String}
    (haccepted : nodeEditCandidate graph key { old with id := newId } =
      .ok (some graph') select notice) :
    ReversibleRename graph graph' index old ↔ newId = old.id ∨
      ((∀ e ∈ graph.edges, e.source ≠ newId ∧ e.target ≠ newId) ∧
        newId ∉ (nodeKeys graph).take index) := by
  by_cases hne : newId = old.id
  · subst hne
    exact iff_of_true (reversible_of_same hkey hold haccepted) (Or.inl rfl)
  obtain ⟨hfree, rfl⟩ := renamed_of_accepted hkey hold hunique hne haccepted
  rw [or_iff_right hne]
  set renamed : GraphWire N E := ⟨graph.nodes.set index { old with id := newId },
    graph.edges.map (EdgeWire.rename old.id newId)⟩ with hrenamed
  have hothers : renamed.nodes.eraseIdx index = graph.nodes.eraseIdx index :=
    List.eraseIdx_set_eq
  have hnode : renamed.nodes[index]? = some { old with id := newId } := by
    rw [hrenamed, List.getElem?_set_self (List.getElem?_eq_some_iff.mp hold).1]
  have hnewKey : (nodeKeys renamed)[index]? = some newId :=
    key_of_unique hnode (hothers ▸ hfree)
  have htake : (nodeKeys renamed).take index = (nodeKeys graph).take index :=
    take_nodeKeys_set graph renamed rfl
  -- the node is found under its new id, and then the second rename is the first one backwards
  have hback : newId ∉ (nodeKeys graph).take index → nodeEditCandidate renamed newId old =
      .ok (some ⟨renamed.nodes.set index old,
        renamed.edges.map (EdgeWire.rename newId old.id)⟩) (some (some old.id)) none := by
    intro hfirst
    have hfound := (idxOf?_iff_notMem_take hnewKey).mpr (htake ▸ hfirst)
    exact nodeEditCandidate_of_unique hfound hnode (hothers ▸ hfree) (Ne.symm hne)
      (hothers ▸ hunique)
  have hnodes : renamed.nodes.set index old = graph.nodes := by
    rw [hrenamed, List.set_set, set_self hold]
  have hedges : renamed.edges.map (EdgeWire.rename newId old.id) = graph.edges ↔
      ∀ e ∈ graph.edges, e.source ≠ newId ∧ e.target ≠ newId := by
    rw [hrenamed, List.map_map]
    nth_rewrite 2 [← List.map_id graph.edges]
    rw [List.map_inj_left]
    exact forall₂_congr fun e _ => EdgeWire.rename_rename_iff hne e
  constructor
  · rintro ⟨⟨key', hkey', select', notice', hcandidate⟩, -, -⟩
    obtain rfl : newId = key' := Option.some.inj (hnewKey.symm.trans hkey')
    have hfirst : newId ∉ (nodeKeys graph).take index := by
      intro hmem
      obtain ⟨j, hj⟩ := Option.isSome_iff_exists.mp
        (List.isSome_idxOf?.mpr (List.mem_of_getElem? hnewKey))
      have hne' : index ≠ j := by
        rintro rfl
        exact (idxOf?_iff_notMem_take hnewKey).mp hj (htake ▸ hmem)
      obtain ⟨hlt, -, -⟩ := List.idxOf?_eq_some_iff.mp hj
      rw [length_nodeKeys] at hlt
      have hset := nodes_of_accepted hj (List.getElem?_eq_getElem hlt) hcandidate
      have hsame := hold
      rw [hset, List.getElem?_set_ne hne'.symm, hnode] at hsame
      exact hne (congrArg NodeWire.id (Option.some.inj hsame))
    refine ⟨hedges.mp ?_, hfirst⟩
    rw [hback hfirst] at hcandidate
    obtain ⟨hgraph, -, -⟩ := EditResult.ok.inj hcandidate
    exact congrArg GraphWire.edges (Option.some.inj hgraph)
  · rintro ⟨hfreeEdges, hfirst⟩
    refine ⟨⟨newId, hnewKey, some (some old.id), none, ?_⟩, fun j n hj hn => ?_, fun i e he => ?_⟩
    · rw [hback hfirst, hnodes, hedges.mpr hfreeEdges]
    · rw [hrenamed, List.getElem?_set_ne (Ne.symm hj), hn]
    · refine ⟨e.rename old.id newId, by rw [hrenamed, List.getElem?_map, he]; rfl, ?_⟩
      intro j n hj hn
      exact EdgeWire.rename_of_ne (hunique n (List.mem_eraseIdx_iff_getElem?.mpr ⟨j, hj, hn⟩))

def chain (first : String) : GraphWire Unit Unit where
  nodes := [⟨first, ()⟩, ⟨"c", ()⟩]
  edges := [⟨first, "ok", "c", "work", ()⟩]

theorem rename_reversible_iff_sample : ReversibleRename (chain "a") (chain "b") 0 ⟨"a", ()⟩ := by
  have hfound : (nodeKeys (chain "a")).idxOf? "a" = some 0 := by decide +kernel
  have haccepted : nodeEditCandidate (chain "a") "a" { (⟨"a", ()⟩ : NodeWire Unit) with id := "b" } =
      .ok (some (chain "b")) (some (some "b")) none := by
    rw [nodeEditCandidate_eq hfound rfl]
    rfl
  refine (rename_reversible_iff hfound rfl (by decide) haccepted).mpr (Or.inr ⟨?_, ?_⟩)
  · decide
  · exact List.not_mem_nil

/-! ## 6.  A rename that captures an edge -/

/-- `a` has an edge to `b`, which no node has as its id. -/
def dangling : GraphWire Unit Unit where
  nodes := [⟨"a", ()⟩]
  edges := [⟨"a", "ok", "b", "work", ()⟩]

/-- After `a` is renamed to `b`, its edge names it twice. -/
def captured : GraphWire Unit Unit where
  nodes := [⟨"b", ()⟩]
  edges := [⟨"b", "ok", "b", "work", ()⟩]

/-- **A rename that cannot be taken back**: the edge names the node twice still when the node has
its old id again. -/
theorem rename_captures : ¬∀ (graph graph' : GraphWire Unit Unit) (key : String) (index : ℕ)
    (old : NodeWire Unit) (newId : String) (select : Option (Option String))
    (notice : Option String), (nodeKeys graph).idxOf? key = some index →
      graph.nodes[index]? = some old → (∀ n ∈ graph.nodes.eraseIdx index, n.id ≠ old.id) →
        nodeEditCandidate graph key { old with id := newId } = .ok (some graph') select notice →
          ReversibleRename graph graph' index old := by
  intro h
  have hfound : (nodeKeys dangling).idxOf? "a" = some 0 := by decide +kernel
  have haccepted : nodeEditCandidate dangling "a" ⟨"b", ()⟩ =
      .ok (some captured) (some (some "b")) none := by
    rw [nodeEditCandidate_eq hfound rfl]
    rfl
  obtain ⟨key, hkey, select, notice, hback⟩ :=
    (h dangling captured "a" 0 ⟨"a", ()⟩ "b" _ _ hfound rfl nofun haccepted).back
  have hb : (nodeKeys captured)[0]? = some "b" := by decide +kernel
  obtain rfl : "b" = key := Option.some.inj (hb.symm.trans hkey)
  have hfoundAgain : (nodeKeys captured).idxOf? "b" = some 0 := by decide +kernel
  rw [nodeEditCandidate_eq hfoundAgain rfl] at hback
  obtain ⟨hgraph, -, -⟩ := EditResult.ok.inj hback
  exact absurd (Option.some.inj hgraph) (by decide)

end Rename

end Edits

end Kroker.GraphEdits
