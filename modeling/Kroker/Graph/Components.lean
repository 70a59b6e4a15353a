import Kroker.Graph.ForwardReach
import Kroker.Library.Components

/-!
# The report is the strongly connected components

`forward_cycles` is Tarjan's algorithm.  `Graph.ForwardCycles` shows that it ends, and that an empty
report means that there is no cycle; here is the whole of what it computes.

## 1.  The invariant

The stack is cut into stretches, one for each node of the path.  What the nodes of a stretch lead to
is closed, or on the stack at the low link of the stretch or above, save what is still to be scanned
(`Linked`).  A node of the path reaches what stands above it, and every node of the stack reaches
the path at or below its own place.

## 2.  Scanning one successor, 3.  Opening a node, 4.  Finishing a node

The three things an iteration does.  A node that finishes with its own index for a low link is a
root: nothing leads from its stretch to the part of the stack below, so the stretch is its component
(`Rooted.joined_iff`, by the lemma on roots of the library) and is popped.  Any other node hands its
low link, with its stretch, to the node below it on the path.
-/

namespace Kroker

/-- Some node is reached from the other and back, by forward edges. -/
abbrev Joined (adjacency : Adjacency) : String → String → Prop :=
  Connected (Search.Edge adjacency.succs)

/-- A strongly connected component of two nodes or more, or of one with an edge to itself; it is
sorted. -/
def IsCycle (adjacency : Adjacency) (c : List String) : Prop :=
  c.Pairwise (· < ·) ∧ ∃ a, (∀ b, b ∈ c ↔ Joined adjacency a b) ∧
    ((∃ b ∈ c, b ≠ a) ∨ a ∈ adjacency.succs a)

section Cycle

variable {adjacency : Adjacency}

theorem IsCycle.eq {c c' : List String} (hc : IsCycle adjacency c) (hc' : IsCycle adjacency c')
    {x : String} (hx : x ∈ c) (hx' : x ∈ c') : c = c' := by
  obtain ⟨hsorted, a, ha, -⟩ := hc
  obtain ⟨hsorted', a', ha', -⟩ := hc'
  have hjoined : Joined adjacency a a' := ((ha x).mp hx).trans ((ha' x).mp hx').symm
  exact Lists.unique ⟨hsorted, ha⟩ ⟨hsorted', fun b => (ha' b).trans (hjoined.iff b).symm⟩

theorem IsCycle.exists_mem {c : List String} (hc : IsCycle adjacency c) :
    ∃ a ∈ c, (∀ b, b ∈ c ↔ Joined adjacency a b) ∧ ((∃ b ∈ c, b ≠ a) ∨ a ∈ adjacency.succs a) := by
  obtain ⟨-, a, ha, hmany⟩ := hc
  exact ⟨a, (ha a).mpr (.refl a), ha, hmany⟩

end Cycle

namespace CycleScan

variable {adjacency : Adjacency} {s s' : CycleScan}

/-! ## 1.  The invariant -/

/-- The stretch of the stack that belongs to a node of the path: from the node up to the one above
it on the path. -/
def Stretch (s : CycleScan) (above : Option String) (x z : String) : Prop :=
  z ∈ s.stack ∧ s.ix x ≤ s.ix z ∧ ∀ a, above = some a → s.ix z < s.ix a

/-- Of a work list whose top was reached from `above`, every successor of every node of the
stretches is still to be scanned, or the node scanned from it, or closed, or on the stack and no
lower than the low link. -/
def Linked (adjacency : Adjacency) (s : CycleScan) :
    Option String → List (String × List String) → Prop
  | _, [] => True
  | above, (x, rest) :: work =>
    (∀ z, s.Stretch above x z → ∀ y ∈ adjacency.succs z,
      (z = x ∧ (y ∈ rest ∨ above = some y)) ∨ s.Closed y ∨ (y ∈ s.stack ∧ s.lw x ≤ s.ix y)) ∧
      Linked adjacency s (some x) work

def Reported (adjacency : Adjacency) (s : CycleScan) : Prop :=
  s.components.Nodup ∧ ∀ c, c ∈ s.components ↔ IsCycle adjacency c ∧ ∀ x ∈ c, s.Closed x

/-- What the scan keeps of the nodes it has entered. -/
structure Based (adjacency : Adjacency) (s : CycleScan) : Prop where
  consistent : s.Consistent
  iterates : ∀ p ∈ s.work, ∀ y ∈ p.2, y ∈ adjacency.succs p.1
  closed_succs : ∀ x, s.Closed x → ∀ y ∈ adjacency.succs x, s.Closed y
  /-- A node of the path reaches what stands above it on the stack. -/
  reaches : ∀ u ∈ s.path, ∀ v ∈ s.stack, s.ix u ≤ s.ix v → Search.Reach adjacency.succs u v
  /-- A node of the stack reaches the path, no higher. -/
  returns : ∀ z ∈ s.stack, ∃ u ∈ s.path, s.ix u ≤ s.ix z ∧ Search.Reach adjacency.succs z u
  /-- A low link is the index of a node that is reached. -/
  low : ∀ x ∈ s.path, ∃ y ∈ s.stack, s.ix y = s.lw x ∧ Search.Reach adjacency.succs x y
  reported : Reported adjacency s

/-- **The invariant** of the scan. -/
structure Rooted (adjacency : Adjacency) (s : CycleScan) : Prop extends Based adjacency s where
  linked : Linked adjacency s none s.work

theorem Linked.mono
    (hstack : ∀ z ∈ s'.stack, z ∈ s.stack ∨ ∀ x ∈ s.stack, s'.ix x ≤ s'.ix z)
    (hix : ∀ z ∈ s.stack, s'.ix z = s.ix z) (hclosed : ∀ y, s.Closed y → s'.Closed y)
    (hkeep : ∀ y ∈ s.stack, y ∈ s'.stack ∨ s'.Closed y)
    (hlw : ∀ x ∈ s.stack, s'.lw x ≤ s.lw x) :
    ∀ {a : String} {work : List (String × List String)}, a ∈ s.stack →
      (∀ p ∈ work, p.1 ∈ s.stack) → Linked adjacency s (some a) work →
        Linked adjacency s' (some a) work
  | _, [], _, _, _ => trivial
  | a, (x, rest) :: work, ha, hwork, h => by
    have hx : x ∈ s.stack := hwork _ List.mem_cons_self
    refine ⟨fun z hz y hy => ?_, Linked.mono hstack hix hclosed hkeep hlw hx
      (fun p hp => hwork p (List.mem_cons_of_mem _ hp)) h.2⟩
    obtain ⟨hz, hxz, hza⟩ := hz
    have hlt := hza a rfl
    have hold : z ∈ s.stack := by
      rcases hstack z hz with hz | hz
      · exact hz
      · exact absurd (hz a ha) (not_le.mpr hlt)
    rw [hix x hx, hix z hold] at hxz
    rw [hix z hold, hix a ha] at hlt
    have hstretch : s.Stretch (some a) x z := ⟨hold, hxz, fun b hb => Option.some.inj hb ▸ hlt⟩
    rcases h.1 z hstretch y hy with hscan | hcl | ⟨hon, hlow⟩
    · exact .inl hscan
    · exact .inr (.inl (hclosed y hcl))
    · rcases hkeep y hon with hon' | hcl
      · refine .inr (.inr ⟨hon', ?_⟩)
        rw [hix y hon]
        exact (hlw x hx).trans hlow
      · exact .inr (.inl hcl)

/-! ## 2.  Scanning one successor -/

section Scan

variable {node succ : String} {rest : List String} {work : List (String × List String)}

theorem Rooted.afterIndexed (h : Rooted adjacency s) (hw : s.work = (node, succ :: rest) :: work)
    (hsucc : succ ∈ s.index) : Rooted adjacency (afterIndexed s node succ rest work) := by
  obtain ⟨hindex, hstack, hon, hcomponents, -, hwork, hlw⟩ :=
    afterIndexed_frame s node succ rest work
  have hpath := afterIndexed_path hw
  have hix : ∀ x, (CycleScan.afterIndexed s node succ rest work).ix x = s.ix x := fun x => by
    rw [ix, hindex, ix]
  have hclosed : ∀ x, (CycleScan.afterIndexed s node succ rest work).Closed x ↔ s.Closed x := by
    intro x
    rw [Closed, hindex, hstack, Closed]
  have hnode : node ∈ s.path := by
    rw [path, hw]
    exact List.mem_cons_self
  have hedge : succ ∈ adjacency.succs node :=
    h.iterates (node, succ :: rest) (hw ▸ List.mem_cons_self) succ List.mem_cons_self
  refine ⟨⟨h.consistent.afterIndexed hw, ?_, ?_, ?_, ?_, ?_, ?_⟩, ?_⟩
  · rw [hwork]
    intro p hp y hy
    have hold := h.iterates
    rw [hw] at hold
    rcases List.mem_cons.mp hp with rfl | hp
    · exact hold _ List.mem_cons_self y (List.mem_cons_of_mem _ hy)
    · exact hold p (List.mem_cons_of_mem _ hp) y hy
  · exact fun x hx y hy => (hclosed y).mpr (h.closed_succs x ((hclosed x).mp hx) y hy)
  · rw [hpath, hstack]
    simp only [hix]
    exact h.reaches
  · rw [hpath, hstack]
    simp only [hix]
    exact h.returns
  · rw [hpath, hstack]
    intro x hx
    obtain ⟨y, hy, heq, hreach⟩ := h.low x hx
    -- the low link stays, or becomes the index of the successor
    unfold CycleScan.afterIndexed
    split
    · rename_i hsuccOn
      by_cases hxn : node = x
      · subst hxn
        by_cases hle : s.lw node ≤ s.ix succ
        · refine ⟨y, hy, ?_, hreach⟩
          show s.ix y = (s.lower node (s.ix succ)).lw node
          rw [lw_lower, if_pos rfl, min_eq_left hle, heq]
        · refine ⟨succ, (h.consistent.onStack succ).mp hsuccOn, ?_, .single hedge⟩
          show s.ix succ = (s.lower node (s.ix succ)).lw node
          rw [lw_lower, if_pos rfl, min_eq_right (not_le.mp hle).le]
      · refine ⟨y, hy, ?_, hreach⟩
        show s.ix y = (s.lower node (s.ix succ)).lw x
        rw [lw_lower, if_neg hxn, heq]
    · exact ⟨y, hy, heq, hreach⟩
  · rw [Reported, hcomponents]
    refine ⟨h.reported.1, fun c => (h.reported.2 c).trans (and_congr_right fun _ => ?_)⟩
    exact forall₂_congr fun x _ => (hclosed x).symm
  · have hlinked := h.linked
    rw [hw] at hlinked
    rw [hwork]
    have hbelow : ∀ p ∈ work, p.1 ∈ s.stack := fun p hp => h.consistent.mem_stack (by
      rw [path, hw]
      exact List.mem_cons_of_mem _ (List.mem_map_of_mem hp))
    refine ⟨fun z hz y hy => ?_, hlinked.2.mono ?_ ?_ ?_ ?_ ?_ (h.consistent.mem_stack hnode)
      hbelow⟩
    · have hold : s.Stretch none node z := by
        obtain ⟨hz, hle, -⟩ := hz
        exact ⟨hstack ▸ hz, by rwa [hix, hix] at hle, fun _ h => by cases h⟩
      rcases hlinked.1 z hold y hy with ⟨rfl, hmem | habove⟩ | hcl | ⟨hy', hlow⟩
      · rcases List.mem_cons.mp hmem with rfl | hmem
        · by_cases hyOn : y ∈ s.stack
          · refine .inr (.inr ⟨hstack ▸ hyOn, ?_⟩)
            rw [hix, CycleScan.afterIndexed, if_pos ((h.consistent.onStack y).mpr hyOn)]
            show (s.lower z (s.ix y)).lw z ≤ s.ix y
            rw [lw_lower, if_pos rfl]
            exact min_le_right _ _
          · exact .inr (.inl ((hclosed y).mpr ⟨hsucc, hyOn⟩))
        · exact .inl ⟨rfl, .inl hmem⟩
      · cases habove
      · exact .inr (.inl ((hclosed y).mpr hcl))
      · refine .inr (.inr ⟨hstack ▸ hy', ?_⟩)
        rw [hix]
        exact (hlw node).trans hlow
    · exact fun z hz => .inl (hstack ▸ hz)
    · exact fun z _ => hix z
    · exact fun y hy => (hclosed y).mpr hy
    · exact fun y hy => .inl (hstack ▸ hy)
    · exact fun x _ => hlw x

end Scan

/-! ## 3.  Opening a node -/

section Visit

theorem stack_visit (s : CycleScan) (n : String) :
    (s.visit adjacency n).stack = n :: s.stack := rfl

theorem Based.visit (h : Based adjacency s) {n : String} (hn : n ∉ s.index)
    (hreach : ∀ u ∈ s.path, Search.Reach adjacency.succs u n) :
    Based adjacency (s.visit adjacency n) := by
  have hc := h.consistent
  have hne : ∀ x ∈ s.stack, n ≠ x := fun x hx heq => hn (heq ▸ hc.indexed x hx)
  have hix : ∀ x ∈ s.stack, (s.visit adjacency n).ix x = s.ix x := fun x hx =>
    ix_visit_of_ne s (hne x hx)
  have hlw : ∀ x ∈ s.stack, (s.visit adjacency n).lw x = s.lw x := fun x hx =>
    lw_visit_of_ne s (hne x hx)
  refine ⟨hc.visit hn, ?_, ?_, ?_, ?_, ?_, ?_⟩
  · intro p hp y hy
    rcases List.mem_cons.mp hp with rfl | hp
    · exact hy
    · exact h.iterates p hp y hy
  · exact fun x hx y hy =>
      (closed_visit hn y).mpr (h.closed_succs x ((closed_visit hn x).mp hx) y hy)
  · intro u hu v hv hle
    rw [path_visit, List.mem_cons] at hu
    rw [stack_visit, List.mem_cons] at hv
    rcases hv with rfl | hv
    · rcases hu with rfl | hu
      · exact .refl
      · exact hreach u hu
    · rcases hu with rfl | hu
      · rw [ix_visit_self, hix v hv] at hle
        exact absurd (hc.ix_lt_counter v hv) (not_lt.mpr hle)
      · rw [hix u (hc.mem_stack hu), hix v hv] at hle
        exact h.reaches u hu v hv hle
  · intro z hz
    rw [stack_visit, List.mem_cons] at hz
    rw [path_visit]
    rcases hz with rfl | hz
    · exact ⟨z, List.mem_cons_self, le_refl _, .refl⟩
    · obtain ⟨u, hu, hle, hreach⟩ := h.returns z hz
      refine ⟨u, List.mem_cons_of_mem _ hu, ?_, hreach⟩
      rwa [hix u (hc.mem_stack hu), hix z hz]
  · intro x hx
    rw [path_visit, List.mem_cons] at hx
    rw [stack_visit]
    rcases hx with rfl | hx
    · exact ⟨x, List.mem_cons_self, by rw [ix_visit_self, lw_visit_self], .refl⟩
    · obtain ⟨y, hy, heq, hreach⟩ := h.low x hx
      refine ⟨y, List.mem_cons_of_mem _ hy, ?_, hreach⟩
      rw [hix y hy, hlw x (hc.mem_stack hx), heq]
  · refine ⟨h.reported.1, fun c => (h.reported.2 c).trans (and_congr_right fun _ => ?_)⟩
    exact forall₂_congr fun x _ => (closed_visit hn x).symm

theorem linked_visit (h : s.Consistent) {n : String} (hn : n ∉ s.index)
    (hlinked : Linked adjacency (s.visit adjacency n) (some n) s.work) :
    Linked adjacency (s.visit adjacency n) none (s.visit adjacency n).work := by
  refine ⟨fun z hz y hy => ?_, hlinked⟩
  obtain ⟨hz, hle, -⟩ := hz
  rw [stack_visit, List.mem_cons] at hz
  rcases hz with rfl | hz
  · exact .inl ⟨rfl, .inl hy⟩
  · have hne : n ≠ z := fun heq => hn (heq ▸ h.indexed z hz)
    rw [ix_visit_self, ix_visit_of_ne s hne] at hle
    exact absurd (h.ix_lt_counter z hz) (not_lt.mpr hle)

theorem Rooted.visit_root (h : Rooted adjacency s) (hwork : s.work = []) {n : String}
    (hn : n ∉ s.index) : Rooted adjacency (s.visit adjacency n) := by
  have hpath : s.path = [] := by rw [path, hwork, List.map_nil]
  refine ⟨h.toBased.visit hn fun u hu => ?_, linked_visit h.consistent hn ?_⟩
  · rw [hpath] at hu
    cases hu
  · rw [hwork]
    trivial

theorem ix_le_top (h : s.Consistent) {node : String} {rest : List String}
    {work : List (String × List String)} (hw : s.work = (node, rest) :: work) {u : String}
    (hu : u ∈ s.path) : s.ix u ≤ s.ix node := by
  have hdesc : s.path.Pairwise fun x y => s.ix y < s.ix x :=
    h.descending.sublist h.path_sublist
  rw [path, hw, List.map_cons] at hdesc hu
  rcases List.mem_cons.mp hu with rfl | hu
  · exact le_refl _
  · exact ((List.pairwise_cons.mp hdesc).1 u hu).le

/-- A successor without an index is opened from the node whose iterator yields it. -/
theorem Rooted.advance {node succ : String} {rest : List String}
    {work : List (String × List String)} (h : Rooted adjacency s)
    (hw : s.work = (node, succ :: rest) :: work) (hsucc : succ ∉ s.index) :
    Rooted adjacency (({ s with work := (node, rest) :: work } : CycleScan).visit
      adjacency succ) := by
  have hpath : ({ s with work := (node, rest) :: work } : CycleScan).path = s.path := by
    rw [path, path, hw, List.map_cons, List.map_cons]
  have hc := h.consistent
  have hconsistent : ({ s with work := (node, rest) :: work } : CycleScan).Consistent :=
    ⟨hc.onStack, hpath ▸ hc.path_sublist, hpath ▸ hc.same_bottom, hc.indexed, hc.descending,
      hc.ix_lt_counter, hpath ▸ hc.lw_le_ix, hpath ▸ hc.root_le_lw⟩
  have hnode : node ∈ s.path := by
    rw [path, hw]
    exact List.mem_cons_self
  have hiter := h.iterates
  rw [hw] at hiter
  have hbased : Based adjacency ({ s with work := (node, rest) :: work } : CycleScan) := by
    refine ⟨hconsistent, ?_, h.closed_succs, hpath ▸ h.reaches, hpath ▸ h.returns, hpath ▸ h.low,
      h.reported⟩
    intro p hp y hy
    rcases List.mem_cons.mp hp with rfl | hp
    · exact hiter _ List.mem_cons_self y (List.mem_cons_of_mem _ hy)
    · exact hiter p (List.mem_cons_of_mem _ hp) y hy
  refine ⟨hbased.visit hsucc fun u hu => ?_, linked_visit hconsistent hsucc ?_⟩
  · have hto := h.reaches u (hpath ▸ hu) node (hc.mem_stack hnode) (ix_le_top hc hw (hpath ▸ hu))
    exact hto.tail (hiter _ List.mem_cons_self succ List.mem_cons_self)
  · have hlinked := h.linked
    rw [hw] at hlinked
    have hne : ∀ x ∈ s.stack, succ ≠ x := fun x hx heq => hsucc (heq ▸ hc.indexed x hx)
    have hix : ∀ z ∈ s.stack, (({ s with work := (node, rest) :: work } : CycleScan).visit
        adjacency succ).ix z = s.ix z := fun z hz => ix_visit_of_ne _ (hne z hz)
    have hlw : ∀ z ∈ s.stack, (({ s with work := (node, rest) :: work } : CycleScan).visit
        adjacency succ).lw z = s.lw z := fun z hz => lw_visit_of_ne _ (hne z hz)
    have hclosed : ∀ y, s.Closed y → (({ s with work := (node, rest) :: work } : CycleScan).visit
        adjacency succ).Closed y := fun y hy =>
      (closed_visit (s := { s with work := (node, rest) :: work }) hsucc y).mpr hy
    have hbelow : ∀ p ∈ work, p.1 ∈ s.stack := fun p hp => hc.mem_stack (by
      rw [path, hw]
      exact List.mem_cons_of_mem _ (List.mem_map_of_mem hp))
    refine ⟨fun z hz y hy => ?_, hlinked.2.mono ?_ hix hclosed ?_ (fun x hx => (hlw x hx).le)
      (hc.mem_stack hnode) hbelow⟩
    · -- below the node just opened the stretch is what it was
      obtain ⟨hz, hle, hlt⟩ := hz
      have hold : z ∈ s.stack := by
        rcases List.mem_cons.mp hz with rfl | hz
        · exact absurd (hlt z rfl) (lt_irrefl _)
        · exact hz
      rw [hix node (hc.mem_stack hnode), hix z hold] at hle
      rcases hlinked.1 z ⟨hold, hle, fun _ h => by cases h⟩ y hy with ⟨rfl, hmem | habove⟩ | hcl | ⟨hon, hlow⟩
      · rcases List.mem_cons.mp hmem with rfl | hmem
        · exact .inl ⟨rfl, .inr rfl⟩
        · exact .inl ⟨rfl, .inl hmem⟩
      · cases habove
      · exact .inr (.inl (hclosed y hcl))
      · refine .inr (.inr ⟨List.mem_cons_of_mem _ hon, ?_⟩)
        rwa [hix y hon, hlw node (hc.mem_stack hnode)]
    · intro z hz
      rcases List.mem_cons.mp hz with rfl | hz
      · refine .inr fun x hx => ?_
        rw [hix x hx, ix_visit_self]
        exact (hc.ix_lt_counter x hx).le
      · exact .inl hz
    · exact fun y hy => .inl (List.mem_cons_of_mem _ hy)

end Visit

/-! ## 4.  Finishing a node -/

section Finish

variable {node : String} {work : List (String × List String)}

theorem Consistent.ix_inj (h : s.Consistent) {x y : String} (hx : x ∈ s.stack) (hy : y ∈ s.stack)
    (heq : s.ix x = s.ix y) : x = y := by
  have hnodup : (s.stack.map s.ix).Nodup :=
    List.pairwise_map.mpr (h.descending.imp fun hlt => ne_of_gt hlt)
  exact List.inj_on_of_nodup_map hnodup hx hy heq

theorem Rooted.leads (h : Rooted adjacency s) (hw : s.work = (node, []) :: work) {z y : String}
    (hz : s.Stretch none node z) (hy : y ∈ adjacency.succs z) :
    s.Closed y ∨ (y ∈ s.stack ∧ s.lw node ≤ s.ix y) := by
  have hlinked := h.linked
  rw [hw] at hlinked
  rcases hlinked.1 z hz y hy with ⟨-, hmem | habove⟩ | hrest
  · exact nomatch hmem
  · exact nomatch habove
  · exact hrest

/-- **The stretch of a root is its component.** -/
theorem Rooted.joined_iff (h : Rooted adjacency s) (hw : s.work = (node, []) :: work)
    (hroot : s.lw node = s.ix node) (b : String) :
    Joined adjacency node b ↔ s.Stretch none node b := by
  have hc := h.consistent
  have hnode : node ∈ s.path := by
    rw [path, hw]
    exact List.mem_cons_self
  refine @connected_iff_of_root _ _ {z | s.Stretch none node z} {z | s.Closed z} node
    ⟨hc.mem_stack hnode, le_refl _, fun _ h => by cases h⟩ (fun a ha hcl => hcl.2 ha.1)
    (fun a ha b hedge => h.closed_succs a ha b hedge) ?_ ?_ ?_ b
  · intro a ha b hedge
    rcases h.leads hw ha hedge with hcl | ⟨hon, hlow⟩
    · exact .inr hcl
    · exact .inl ⟨hon, hroot ▸ hlow, fun _ h => by cases h⟩
  · exact fun a ha => h.reaches node hnode a ha.1 ha.2.1
  · intro a ha
    obtain ⟨u, hu, -, hreach⟩ := h.returns a ha.1
    refine ⟨u, fun hcl => hcl.2 (hc.mem_stack hu), fun hin => ?_, hreach⟩
    exact hc.ix_inj (hc.mem_stack hu) (hc.mem_stack hnode)
      (le_antisymm (ix_le_top hc hw hu) hin.2.1)

theorem stretch_iff (h : s.Consistent) {pre post : List String}
    (hsplit : s.stack = pre ++ node :: post) (z : String) :
    s.Stretch none node z ↔ z ∈ pre ++ [node] := by
  have hdesc := h.descending
  rw [hsplit, List.pairwise_append] at hdesc
  obtain ⟨-, hpost, hpre⟩ := hdesc
  rw [Stretch, hsplit]
  constructor
  · rintro ⟨hz, hle, -⟩
    rcases List.mem_append.mp hz with hz | hz
    · exact List.mem_append_left _ hz
    · rcases List.mem_cons.mp hz with rfl | hz
      · exact List.mem_append_right _ List.mem_cons_self
      · exact absurd ((List.pairwise_cons.mp hpost).1 z hz) (not_lt.mpr hle)
  · intro hz
    rcases List.mem_append.mp hz with hz | hz
    · exact ⟨List.mem_append_left _ hz, (hpre z hz node List.mem_cons_self).le, nofun⟩
    · obtain rfl := List.mem_singleton.mp hz
      exact ⟨List.mem_append_right _ List.mem_cons_self, le_refl _, nofun⟩

theorem lw_afterFrame_root (h : s.Consistent) (hw : s.work = (node, []) :: work)
    (hroot : s.lw node = s.ix node) (x : String) : (afterFrame s node work).lw x = s.lw x := by
  cases work with
  | nil => rfl
  | cons p work =>
    show (s.lower p.1 (s.lw node)).lw x = s.lw x
    rw [lw_lower]
    split
    · rename_i hpx
      have hp : p.1 ∈ s.path := by
        rw [path, hw]
        exact List.mem_cons_of_mem _ List.mem_cons_self
      rw [hpx] at hp ⊢
      rw [hroot]
      exact min_eq_left ((h.lw_le_ix x hp).trans (ix_le_top h hw hp))
    · rfl

theorem Rooted.isCycle_popped (h : Rooted adjacency s) (hw : s.work = (node, []) :: work)
    (hroot : s.lw node = s.ix node) {pre post : List String}
    (hsplit : s.stack = pre ++ node :: post) (hpre : node ∉ pre)
    (hmany : pre ≠ [] ∨ node ∈ adjacency.succs node) :
    IsCycle adjacency ((pre ++ [node]).insertionSort (· ≤ ·)) := by
  have hmem : ∀ b, b ∈ (pre ++ [node]).insertionSort (· ≤ ·) ↔ b ∈ pre ++ [node] := fun b =>
    List.mem_insertionSort _
  refine ⟨?_, node, fun b => ?_, hmany.imp_left fun hne => ?_⟩
  · have hnodup := h.consistent.nodup
    rw [hsplit, List.append_cons] at hnodup
    have hnodup' : ((pre ++ [node]).insertionSort (· ≤ ·)).Nodup :=
      (List.perm_insertionSort _ _).nodup_iff.mpr (List.nodup_append.mp hnodup).1
    exact ((List.pairwise_insertionSort (· ≤ ·) _).and hnodup').imp fun hpair =>
      lt_of_le_of_ne hpair.1 hpair.2
  · rw [hmem, h.joined_iff hw hroot, stretch_iff h.consistent hsplit]
  · obtain ⟨b, hb⟩ := List.exists_mem_of_ne_nil _ hne
    exact ⟨b, (hmem b).mpr (List.mem_append_left _ hb), fun heq => hpre (heq ▸ hb)⟩

theorem closed_pop (h : s.Consistent) {pre post : List String}
    (hsplit : s.stack = pre ++ node :: post) (hpre : node ∉ pre) (x : String) :
    ((afterFrame s node work).popComponent adjacency node).Closed x ↔
      s.Closed x ∨ s.Stretch none node x := by
  obtain ⟨hindex, hstack, -⟩ := afterFrame_frame s node work
  obtain ⟨hstack', -, -⟩ := popComponent_split adjacency (afterFrame s node work)
    (hstack.trans hsplit) hpre
  have hnodup := h.nodup
  rw [hsplit, List.append_cons] at hnodup
  rw [Closed, hstack', stretch_iff h hsplit, Closed]
  show x ∈ (afterFrame s node work).index ∧ x ∉ post ↔ _
  have hmem : x ∈ s.stack ↔ x ∈ pre ++ [node] ∨ x ∈ post := by
    rw [hsplit, List.append_cons, List.mem_append]
  rw [hindex, hmem]
  constructor
  · rintro ⟨hx, hoff⟩
    by_cases hpopped : x ∈ pre ++ [node]
    · exact .inr hpopped
    · exact .inl ⟨hx, not_or.mpr ⟨hpopped, hoff⟩⟩
  · rintro (⟨hx, hoff⟩ | hpopped)
    · exact ⟨hx, (not_or.mp hoff).2⟩
    · exact ⟨h.indexed x (hmem.mpr (.inl hpopped)), fun hpost =>
        (List.nodup_append.mp hnodup).2.2 x hpopped x hpost rfl⟩

/-- **A root reports its component**, if it is one to report. -/
theorem Rooted.reported_pop (h : Rooted adjacency s) (hw : s.work = (node, []) :: work)
    (hroot : s.lw node = s.ix node) {pre post : List String}
    (hsplit : s.stack = pre ++ node :: post) (hpre : node ∉ pre) :
    Reported adjacency ((afterFrame s node work).popComponent adjacency node) := by
  obtain ⟨-, hstack, -, hcomponents, -⟩ := afterFrame_frame s node work
  obtain ⟨-, -, hcomponents'⟩ := popComponent_split adjacency (afterFrame s node work)
    (hstack.trans hsplit) hpre
  have hc := h.consistent
  have hmem : ∀ b, b ∈ (pre ++ [node]).insertionSort (· ≤ ·) ↔ s.Stretch none node b := fun b =>
    (List.mem_insertionSort _).trans (stretch_iff hc hsplit b).symm
  have hold : ∀ c, IsCycle adjacency c → (∀ x ∈ c, s.Closed x ∨ s.Stretch none node x) →
      (∀ x ∈ c, s.Closed x) ∨
        ((pre ≠ [] ∨ node ∈ adjacency.succs node) ∧
          c = (pre ++ [node]).insertionSort (· ≤ ·)) := by
    intro c hcycle hall
    obtain ⟨a, hac, ha, hmany⟩ := hcycle.exists_mem
    rcases hall a hac with hcl | hin
    · left
      intro x hx
      exact mem_of_reaches (C := {z | s.Closed z}) (fun z hz b hedge => h.closed_succs z hz b hedge)
        hcl ((ha x).mp hx).1
    · right
      have hjoined : Joined adjacency node a := (h.joined_iff hw hroot a).mpr hin
      have hsame : ∀ b, b ∈ c ↔ s.Stretch none node b := fun b =>
        (ha b).trans ((hjoined.iff b).symm.trans (h.joined_iff hw hroot b))
      have hmany' : pre ≠ [] ∨ node ∈ adjacency.succs node := by
        by_cases hnil : pre = []
        · right
          have honly : ∀ b ∈ c, b = node := by
            intro b hb
            have hb' := (stretch_iff hc hsplit b).mp ((hsame b).mp hb)
            rw [hnil] at hb'
            exact List.mem_singleton.mp hb'
          rcases hmany with ⟨b, hb, hne⟩ | hself
          · exact absurd ((honly b hb).trans (honly a hac).symm) hne
          · exact honly a hac ▸ hself
        · exact .inl hnil
      refine ⟨hmany', hcycle.eq (h.isCycle_popped hw hroot hsplit hpre hmany') hac ?_⟩
      exact (hmem a).mpr hin
  have hnode : s.Stretch none node node :=
    (stretch_iff hc hsplit node).mpr (List.mem_append_right _ List.mem_cons_self)
  rw [Reported, hcomponents', hcomponents]
  by_cases hmany : pre ≠ [] ∨ node ∈ adjacency.succs node
  · rw [if_pos hmany]
    have hcycle := h.isCycle_popped hw hroot hsplit hpre hmany
    constructor
    · refine List.nodup_append.mpr ⟨h.reported.1, List.nodup_singleton _, ?_⟩
      rintro c hin c' hin' rfl
      obtain rfl := List.mem_singleton.mp hin'
      exact (((h.reported.2 _).mp hin).2 node ((hmem node).mpr hnode)).2 hnode.1
    · intro c
      rw [List.mem_append, List.mem_singleton, h.reported.2]
      simp only [closed_pop hc hsplit hpre]
      constructor
      · rintro (⟨hcyc, hall⟩ | rfl)
        · exact ⟨hcyc, fun x hx => .inl (hall x hx)⟩
        · exact ⟨hcycle, fun x hx => .inr ((hmem x).mp hx)⟩
      · rintro ⟨hcyc, hall⟩
        rcases hold c hcyc hall with hall' | ⟨-, heq⟩
        · exact .inl ⟨hcyc, hall'⟩
        · exact .inr heq
  · rw [if_neg hmany]
    refine ⟨h.reported.1, fun c => ?_⟩
    rw [h.reported.2]
    simp only [closed_pop hc hsplit hpre]
    refine and_congr_right fun hcyc => ⟨fun hall x hx => .inl (hall x hx), fun hall => ?_⟩
    rcases hold c hcyc hall with hall' | ⟨hmany', -⟩
    · exact hall'
    · exact absurd hmany' hmany

theorem Rooted.pop (h : Rooted adjacency s) (hw : s.work = (node, []) :: work)
    (hroot : s.lw node = s.ix node)
    (hconsistent : ((afterFrame s node work).popComponent adjacency node).Consistent) :
    Rooted adjacency ((afterFrame s node work).popComponent adjacency node) := by
  have hc := h.consistent
  obtain ⟨hindex, hstack, -, -, -, hwork, -⟩ := afterFrame_frame s node work
  obtain ⟨pre, post, hsplit, hpre, hpost, hsub, -⟩ := exists_stack_split hc hw
  obtain ⟨hstack', -, -⟩ := popComponent_split adjacency (afterFrame s node work)
    (hstack.trans hsplit) hpre
  generalize hs' : (afterFrame s node work).popComponent adjacency node = s' at *
  have hwork' : s'.work = work := by
    rw [← hs']
    exact hwork
  have hix : ∀ x, s'.ix x = s.ix x := fun x => by
    rw [← hs']
    show (afterFrame s node work).ix x = s.ix x
    rw [ix, hindex, ix]
  have hlw : ∀ x, s'.lw x = s.lw x := fun x => by
    rw [← hs']
    exact lw_afterFrame_root hc hw hroot x
  have hclosed : ∀ x, s'.Closed x ↔ s.Closed x ∨ s.Stretch none node x := fun x => by
    rw [← hs']
    exact closed_pop hc hsplit hpre x
  have hpath : s.path = node :: work.map Prod.fst := by rw [path, hw, List.map_cons]
  have hpath' : s'.path = work.map Prod.fst := by rw [path, hwork']
  have hold : ∀ x ∈ post, x ∈ s.stack := fun x hx =>
    hsplit ▸ List.mem_append_right _ (List.mem_cons_of_mem _ hx)
  have hlow : ∀ x ∈ s.stack, s.ix x < s.ix node → x ∈ post := by
    intro x hx hlt
    have hnot : x ∉ pre ++ [node] := fun hin =>
      absurd ((stretch_iff hc hsplit x).mpr hin).2.1 (not_le.mpr hlt)
    rw [hsplit, List.append_cons] at hx
    exact (List.mem_append.mp hx).resolve_left hnot
  have hlt : ∀ x ∈ post, s.ix x < s.ix node := by
    intro x hx
    have hdesc := hc.descending
    rw [hsplit] at hdesc
    exact (List.pairwise_cons.mp (List.pairwise_append.mp hdesc).2.1).1 x hx
  have hleads : ∀ z, s.Stretch none node z → ∀ y ∈ adjacency.succs z, s'.Closed y := by
    intro z hz y hy
    rw [hclosed]
    rcases h.leads hw hz hy with hcl | ⟨hon, hle⟩
    · exact .inl hcl
    · exact .inr ⟨hon, hroot ▸ hle, fun _ h => by cases h⟩
  have hkeep : ∀ y ∈ s.stack, y ∈ s'.stack ∨ s'.Closed y := by
    intro y hy
    rw [hstack', hclosed]
    by_cases hyn : s.ix y < s.ix node
    · exact .inl (hlow y hy hyn)
    · exact .inr (.inr ⟨hy, not_lt.mp hyn, fun _ h => by cases h⟩)
  have hiter := h.iterates
  rw [hw] at hiter
  refine ⟨⟨hconsistent, ?_, ?_, ?_, ?_, ?_, hs' ▸ h.reported_pop hw hroot hsplit hpre⟩, ?_⟩
  · rw [hwork']
    exact fun p hp => hiter p (List.mem_cons_of_mem _ hp)
  · intro x hx y hy
    rcases (hclosed x).mp hx with hx | hx
    · exact (hclosed y).mpr (.inl (h.closed_succs x hx y hy))
    · exact hleads x hx y hy
  · rw [hpath', hstack']
    simp only [hix]
    exact fun u hu v hv hle => h.reaches u (hpath ▸ List.mem_cons_of_mem _ hu) v (hold v hv) hle
  · rw [hpath', hstack']
    simp only [hix]
    intro z hz
    obtain ⟨u, hu, hle, hreach⟩ := h.returns z (hold z hz)
    rw [hpath] at hu
    rcases List.mem_cons.mp hu with rfl | hu
    · exact absurd (hlt z hz) (not_lt.mpr hle)
    · exact ⟨u, hu, hle, hreach⟩
  · rw [hpath', hstack']
    simp only [hix, hlw]
    intro x hx
    obtain ⟨y, hy, heq, hreach⟩ := h.low x (hpath ▸ List.mem_cons_of_mem _ hx)
    refine ⟨y, hlow y hy ?_, heq, hreach⟩
    rw [heq]
    exact (hc.lw_le_ix x (hpath ▸ List.mem_cons_of_mem _ hx)).trans_lt (hlt x (hsub.subset hx))
  · have hlinked := h.linked
    rw [hw] at hlinked
    rw [hwork']
    cases work with
    | nil => trivial
    | cons p work =>
      have hp : p.1 ∈ post := hsub.subset List.mem_cons_self
      have hbelow : ∀ q ∈ work, q.1 ∈ s.stack := fun q hq =>
        hold _ (hsub.subset (List.mem_cons_of_mem _ (List.mem_map_of_mem hq)))
      refine ⟨fun z hz y hy => ?_, hlinked.2.2.mono ?_ (fun z _ => hix z)
        (fun y hy => (hclosed y).mpr (.inl hy)) hkeep (fun x _ => (hlw x).le) (hold _ hp) hbelow⟩
      · obtain ⟨hz, hle, -⟩ := hz
        rw [hstack'] at hz
        rw [hix, hix] at hle
        have hstretch : s.Stretch (some node) p.1 z :=
          ⟨hold z hz, hle, fun a ha => Option.some.inj ha ▸ hlt z hz⟩
        rcases hlinked.2.1 z hstretch y hy with ⟨hzp, hmem | habove⟩ | hcl | ⟨hon, hle'⟩
        · exact .inl ⟨hzp, .inl hmem⟩
        · obtain rfl := Option.some.inj habove
          refine .inr (.inl ((hclosed _).mpr (.inr ?_)))
          exact (stretch_iff hc hsplit _).mpr (List.mem_append_right _ List.mem_cons_self)
        · exact .inr (.inl ((hclosed y).mpr (.inl hcl)))
        · rcases hkeep y hon with hon' | hcl
          · exact .inr (.inr ⟨hon', by rwa [hix, hlw]⟩)
          · exact .inr (.inl hcl)
      · exact fun z hz => .inl (hold z (hstack' ▸ hz))

/-- A node that is no root stays on the stack, and hands its low link to the node below it. -/
theorem Rooted.keep (h : Rooted adjacency s) (hw : s.work = (node, []) :: work)
    (hroot : s.lw node < s.ix node) (hconsistent : (afterFrame s node work).Consistent) :
    Rooted adjacency (afterFrame s node work) := by
  have hc := h.consistent
  obtain ⟨hindex, hstack, -, hcomponents, -, hwork, hlw⟩ := afterFrame_frame s node work
  have hnodePath : node ∈ s.path := by
    rw [path, hw]
    exact List.mem_cons_self
  have hnode : node ∈ s.stack := hc.mem_stack hnodePath
  have hpath : s.path = node :: work.map Prod.fst := by rw [path, hw, List.map_cons]
  have hiter := h.iterates
  rw [hw] at hiter
  obtain ⟨low, hlowOn, hlowIx, hlowReach⟩ := h.low node hnodePath
  -- what the low link names reaches the path below the node
  obtain ⟨under, hunder, hunderIx, hunderReach⟩ := h.returns low hlowOn
  have hunderLt : s.ix under < s.ix node := (hunderIx.trans hlowIx.le).trans_lt hroot
  have hunderPath : under ∈ work.map Prod.fst := by
    rw [hpath] at hunder
    rcases List.mem_cons.mp hunder with rfl | hunder
    · exact absurd hunderLt (lt_irrefl _)
    · exact hunder
  cases work with
  | nil => cases hunderPath
  | cons p work =>
    generalize hs' : CycleScan.afterFrame s node (p :: work) = s' at *
    have hix : ∀ x, s'.ix x = s.ix x := fun x => by rw [ix, hindex, ix]
    have hclosed : ∀ x, s'.Closed x ↔ s.Closed x := fun x => by
      rw [Closed, hindex, hstack, Closed]
    have hpath' : s'.path = (p :: work).map Prod.fst := by rw [path, hwork]
    have hlwParent : s'.lw p.1 = min (s.lw p.1) (s.lw node) := by
      rw [← hs']
      show (s.lower p.1 (s.lw node)).lw p.1 = _
      rw [lw_lower, if_pos rfl]
    have hlwOther : ∀ x, p.1 ≠ x → s'.lw x = s.lw x := fun x hx => by
      rw [← hs']
      show (s.lower p.1 (s.lw node)).lw x = _
      rw [lw_lower, if_neg hx]
    have hparent : p.1 ∈ s.path := hpath ▸ List.mem_cons_of_mem _ List.mem_cons_self
    refine ⟨⟨hconsistent, ?_, ?_, ?_, ?_, ?_, ?_⟩, ?_⟩
    · rw [hwork]
      exact fun q hq => hiter q (List.mem_cons_of_mem _ hq)
    · exact fun x hx y hy => (hclosed y).mpr (h.closed_succs x ((hclosed x).mp hx) y hy)
    · rw [hpath', hstack]
      simp only [hix]
      exact fun u hu => h.reaches u (hpath ▸ List.mem_cons_of_mem _ hu)
    · rw [hpath', hstack]
      simp only [hix]
      intro z hz
      obtain ⟨u, hu, hle, hreach⟩ := h.returns z hz
      rw [hpath] at hu
      rcases List.mem_cons.mp hu with rfl | hu
      · exact ⟨under, hunderPath, hunderLt.le.trans hle,
          (hreach.trans hlowReach).trans hunderReach⟩
      · exact ⟨u, hu, hle, hreach⟩
    · rw [hpath', hstack]
      simp only [hix]
      intro x hx
      obtain ⟨y, hy, heq, hreach⟩ := h.low x (hpath ▸ List.mem_cons_of_mem _ hx)
      by_cases hxp : p.1 = x
      · subst hxp
        by_cases hle : s.lw p.1 ≤ s.lw node
        · exact ⟨y, hy, by rw [hlwParent, min_eq_left hle, heq], hreach⟩
        · refine ⟨low, hlowOn, by rw [hlwParent, min_eq_right (not_le.mp hle).le, hlowIx], ?_⟩
          exact (h.reaches p.1 hparent node hnode (ix_le_top hc hw hparent)).trans hlowReach
      · exact ⟨y, hy, by rw [hlwOther x hxp, heq], hreach⟩
    · rw [Reported, hcomponents]
      refine ⟨h.reported.1, fun c => (h.reported.2 c).trans (and_congr_right fun _ => ?_)⟩
      exact forall₂_congr fun x _ => (hclosed x).symm
    · have hlinked := h.linked
      rw [hw] at hlinked
      rw [hwork]
      have hbelow : ∀ q ∈ work, q.1 ∈ s.stack := fun q hq => hc.mem_stack
        (hpath ▸ List.mem_cons_of_mem _ (List.mem_cons_of_mem _ (List.mem_map_of_mem hq)))
      refine ⟨fun z hz y hy => ?_, hlinked.2.2.mono (fun z hz => .inl (hstack ▸ hz))
        (fun z _ => hix z) (fun y hy => (hclosed y).mpr hy) (fun y hy => .inl (hstack ▸ hy))
        (fun x _ => hlw x) (hc.mem_stack hparent) hbelow⟩
      obtain ⟨hz, hle, -⟩ := hz
      rw [hstack] at hz
      rw [hix, hix] at hle
      rw [hclosed, hstack, hix]
      by_cases hzn : s.ix z < s.ix node
      · have hstretch : s.Stretch (some node) p.1 z :=
          ⟨hz, hle, fun a ha => Option.some.inj ha ▸ hzn⟩
        rcases hlinked.2.1 z hstretch y hy with ⟨hzp, hmem | habove⟩ | hcl | ⟨hon, hle'⟩
        · exact .inl ⟨hzp, .inl hmem⟩
        · obtain rfl := Option.some.inj habove
          refine .inr (.inr ⟨hnode, ?_⟩)
          exact (hlw p.1).trans ((hc.lw_le_ix p.1 hparent).trans (ix_le_top hc hw hparent))
        · exact .inr (.inl hcl)
        · exact .inr (.inr ⟨hon, (hlw p.1).trans hle'⟩)
      · -- what the node leads to is no lower than the low link it hands on
        rcases h.leads hw ⟨hz, not_lt.mp hzn, fun _ h => by cases h⟩ hy with hcl | ⟨hon, hle'⟩
        · exact .inr (.inl hcl)
        · refine .inr (.inr ⟨hon, ?_⟩)
          rw [hlwParent]
          exact (min_le_right _ _).trans hle'

/-- **A node is finished.** -/
theorem Rooted.finish (h : Rooted adjacency s) (hw : s.work = (node, []) :: work) :
    Rooted adjacency (({ s with work := work } : CycleScan).finish adjacency node) := by
  have hconsistent : (({ s with work := work } : CycleScan).finish adjacency node).Consistent :=
    h.consistent.finish hw
  obtain ⟨hindex, -⟩ := afterFrame_frame s node work
  have hix : (afterFrame s node work).ix node = s.ix node := by rw [ix, hindex, ix]
  have hnode : node ∈ s.path := by
    rw [path, hw]
    exact List.mem_cons_self
  rw [finish_eq, hix, lw_afterFrame_self h.consistent hw] at hconsistent ⊢
  by_cases hroot : s.lw node = s.ix node
  · rw [if_pos hroot] at hconsistent ⊢
    exact h.pop hw hroot hconsistent
  · rw [if_neg hroot] at hconsistent ⊢
    exact h.keep hw (lt_of_le_of_ne (h.consistent.lw_le_ix node hnode) hroot) hconsistent

end Finish

/-! ## 5.  The loops -/

/-- **The inner loop** stops at the end of the iterator, or at a successor without an index. -/
theorem rooted_scanSuccessors (node : String) (work : List (String × List String)) :
    ∀ (successors : List String) (s : CycleScan),
      Rooted adjacency { s with work := (node, successors) :: work } →
      (scanSuccessors node successors s).1.index = s.index ∧
        match (scanSuccessors node successors s).2 with
        | none => Rooted adjacency
            { (scanSuccessors node successors s).1 with work := (node, []) :: work }
        | some (succ, rest) => succ ∉ s.index ∧ Rooted adjacency
            { (scanSuccessors node successors s).1 with work := (node, succ :: rest) :: work }
  | [], s, h => ⟨rfl, h⟩
  | succ :: rest, s, h => by
    rw [scanSuccessors]
    by_cases hsucc : succ ∈ s.index
    · have hnext : Rooted adjacency (CycleScan.afterIndexed
          { s with work := (node, succ :: rest) :: work } node succ rest work) :=
        h.afterIndexed rfl hsucc
      rw [if_pos hsucc]
      unfold CycleScan.afterIndexed at hnext
      split
      · rename_i hon
        rw [if_pos hon] at hnext
        exact rooted_scanSuccessors node work rest (s.lower node (s.index.getD succ 0)) hnext
      · rename_i hon
        rw [if_neg hon] at hnext
        exact rooted_scanSuccessors node work rest s hnext
    · rw [if_neg hsucc]
      exact ⟨rfl, hsucc, h⟩

/-- **One iteration.** -/
theorem Rooted.step (h : Rooted adjacency s) : Rooted adjacency (s.step adjacency) := by
  unfold CycleScan.step
  cases hw : s.work with
  | nil => exact h
  | cons p work =>
    obtain ⟨node, successors⟩ := p
    have hstart : Rooted adjacency { s with work := (node, successors) :: work } := by
      rw [← hw]
      exact h
    obtain ⟨hindex, hres⟩ := rooted_scanSuccessors node work successors s hstart
    dsimp only
    rcases hscan : scanSuccessors node successors s with ⟨s', found⟩
    rw [hscan] at hindex hres
    dsimp only at hindex hres
    cases found with
    | none => exact hres.finish rfl
    | some next =>
      obtain ⟨succ, rest⟩ := next
      obtain ⟨hsucc, hrooted⟩ := hres
      refine hrooted.advance rfl fun hin => hsucc ?_
      rw [← hindex]
      exact hin

/-- **The outer loop.** -/
theorem Rooted.drain (fuel : ℕ) (h : Rooted adjacency s) :
    Rooted adjacency (s.drain adjacency fuel) := by
  induction fuel generalizing s with
  | zero => exact h
  | succ fuel ih =>
    rw [CycleScan.drain]
    split
    · exact h
    · exact ih h.step

theorem Rooted.scanRoot (h : Rooted adjacency s) (hwork : s.work = []) (root : String) :
    Rooted adjacency (s.scanRoot adjacency root) := by
  unfold CycleScan.scanRoot
  split
  · exact h
  · rename_i hin
    exact (h.visit_root hwork hin).drain _

theorem rooted_init : Rooted adjacency {} := by
  have hclosed : ∀ x, ¬ Closed {} x := fun x hx => Std.ExtTreeMap.not_mem_empty hx.1
  have hsound : Sound adjacency ∅ {} := sound_init ∅
  refine ⟨⟨hsound.consistent, ?_, ?_, ?_, ?_, ?_, ?_⟩, trivial⟩
  · exact nofun
  · exact fun x hx => absurd hx (hclosed x)
  · exact nofun
  · exact nofun
  · exact nofun
  · refine ⟨List.nodup_nil, fun c => iff_of_false List.not_mem_nil fun ⟨hcycle, hall⟩ => ?_⟩
    obtain ⟨a, ha, -⟩ := hcycle.exists_mem
    exact hclosed a (hall a ha)

def after (adjacency : Adjacency) (roots : List String) : CycleScan :=
  roots.foldl (CycleScan.scanRoot adjacency) {}

theorem sound_after (adjacency : Adjacency) (roots : List String) :
    Sound adjacency (adjacencyNodes adjacency).toFinset (after adjacency roots) ∧
      (after adjacency roots).work = [] ∧ ∀ r ∈ roots, r ∈ (after adjacency roots).index := by
  have huniv : ∀ a, ∀ b ∈ adjacency.succs a, b ∈ (adjacencyNodes adjacency).toFinset :=
    fun a b hb => List.mem_toFinset.mpr (mem_adjacencyNodes_of_mem_succs hb)
  obtain ⟨hsound, hwork, hall, -⟩ := Sound.scanRoots huniv (List.toFinset_card_le _) roots
    (sound_init _) rfl
  exact ⟨hsound, hwork, hall⟩

theorem rooted_after (adjacency : Adjacency) (roots : List String) :
    Rooted adjacency (after adjacency roots) := by
  induction roots using List.reverseRecOn with
  | nil => exact rooted_init
  | append_singleton roots root ih =>
    rw [after, List.foldl_append, List.foldl_cons, List.foldl_nil]
    exact ih.scanRoot (sound_after adjacency roots).2.1 root

end CycleScan

/-! ## 6.  The report -/

theorem IsCycle.exists_succ {adjacency : Adjacency} {c : List String} (h : IsCycle adjacency c)
    {x : String} (hx : x ∈ c) : ∃ y, y ∈ adjacency.succs x := by
  obtain ⟨-, a, ha, hmany⟩ := h
  have hstart : ∀ {b}, Joined adjacency x b → b ≠ x → ∃ y, y ∈ adjacency.succs x := by
    intro b hjoined hne
    rcases hjoined.1.cases_head with rfl | ⟨y, hedge, -⟩
    · exact absurd rfl hne
    · exact ⟨y, hedge⟩
  by_cases hxa : a = x
  · subst hxa
    rcases hmany with ⟨b, hb, hne⟩ | hself
    · exact hstart ((ha b).mp hb) hne
    · exact ⟨a, hself⟩
  · exact hstart ((ha x).mp hx).symm hxa

theorem mem_keys_of_mem_succs {adjacency : Adjacency} {a b : String} (h : b ∈ adjacency.succs a) :
    a ∈ adjacency.keys := by
  rw [Adjacency.succs, Dict.getD_eq] at h
  refine Std.ExtTreeMap.mem_keys.mpr ((Dict.mem_iff_get? _ _).mpr ?_)
  cases ha : adjacency[a]? with
  | none =>
    rw [ha] at h
    cases h
  | some bs => exact ⟨bs, rfl⟩

/-- **What is reported** are the components of two nodes or more, and the nodes with an edge to
themselves. -/
theorem mem_forwardCycles_iff {adjacency : Adjacency} {c : List String} :
    c ∈ forwardCycles adjacency ↔ IsCycle adjacency c := by
  have hrooted := CycleScan.rooted_after adjacency adjacency.keys
  obtain ⟨hsound, hwork, hall⟩ := CycleScan.sound_after adjacency adjacency.keys
  have hstack : (CycleScan.after adjacency adjacency.keys).stack = [] := by
    have hbottom := hsound.consistent.same_bottom
    rw [CycleScan.path, hwork, List.map_nil, List.getLast?_nil] at hbottom
    exact List.getLast?_eq_none_iff.mp hbottom
  have hclosed : IsCycle adjacency c →
      ∀ x ∈ c, (CycleScan.after adjacency adjacency.keys).Closed x := by
    intro hcycle x hx
    obtain ⟨y, hy⟩ := hcycle.exists_succ hx
    exact ⟨hall x (mem_keys_of_mem_succs hy), by rw [hstack]; exact List.not_mem_nil⟩
  rw [forwardCycles, List.mem_insertionSort]
  refine (hrooted.reported.2 c).trans ⟨And.left, fun hcycle => ⟨hcycle, hclosed hcycle⟩⟩

theorem sorted_forwardCycles (adjacency : Adjacency) :
    (forwardCycles adjacency).Pairwise (· < ·) := by
  have hnodup : (forwardCycles adjacency).Nodup :=
    (List.perm_insertionSort _ _).nodup_iff.mpr
      (CycleScan.rooted_after adjacency adjacency.keys).reported.1
  exact ((List.pairwise_insertionSort (· ≤ ·) _).and hnodup).imp fun hpair =>
    lt_of_le_of_ne hpair.1 hpair.2

theorem forwardCycles_congr {adjacency adjacency' : Adjacency}
    (h : ∀ a b, b ∈ adjacency'.succs a ↔ b ∈ adjacency.succs a) :
    forwardCycles adjacency' = forwardCycles adjacency := by
  have hedge : Search.Edge adjacency'.succs = Search.Edge adjacency.succs :=
    funext fun a => funext fun b => propext (h a b)
  have hmem : ∀ c, c ∈ forwardCycles adjacency' ↔ c ∈ forwardCycles adjacency := by
    intro c
    rw [mem_forwardCycles_iff, mem_forwardCycles_iff, IsCycle, IsCycle, Joined, Joined, hedge]
    simp only [h]
  have hnodup : ∀ {adjacency : Adjacency}, (forwardCycles adjacency).Nodup := fun {adjacency} =>
    (sorted_forwardCycles adjacency).imp ne_of_lt
  exact ((List.perm_ext_iff_of_nodup hnodup hnodup).mpr hmem).eq_of_pairwise
    (fun _ _ _ _ hab hba => absurd hab (lt_asymm hba)) (sorted_forwardCycles _)
    (sorted_forwardCycles _)

/-- **`forward_cycles` ends and reports the strongly connected components** of two nodes or more, or
of one with an edge to itself: each once, sorted, in order, whatever the order of the nodes and the
edges.  That it ends is that the work list is empty again after each root. -/
theorem forwardCycles_components (adjacency : Adjacency) :
    (∀ roots, roots <+: adjacency.keys →
        (roots.foldl (CycleScan.scanRoot adjacency) {}).work = []) ∧
      (forwardCycles adjacency).Pairwise (· < ·) ∧
      (∀ c, c ∈ forwardCycles adjacency ↔ c.Pairwise (· < ·) ∧
        ∃ a, (∀ b, b ∈ c ↔ Search.Reach adjacency.succs a b ∧ Search.Reach adjacency.succs b a) ∧
          ((∃ b ∈ c, b ≠ a) ∨ a ∈ adjacency.succs a)) ∧
      (∀ adjacency' : Adjacency, (∀ a b, b ∈ adjacency'.succs a ↔ b ∈ adjacency.succs a) →
        forwardCycles adjacency' = forwardCycles adjacency) ∧
      ∀ nodeIds nodeIds' edges edges', (∀ n : String, n ∈ nodeIds' ↔ n ∈ nodeIds) →
        (∀ e : GraphEdge, e ∈ edges' ↔ e ∈ edges) →
          forwardCycles (forwardAdjacency nodeIds' edges') =
            forwardCycles (forwardAdjacency nodeIds edges) := by
  refine ⟨fun roots _ => (CycleScan.sound_after adjacency roots).2.1,
    sorted_forwardCycles adjacency, fun c => mem_forwardCycles_iff,
    fun adjacency' h => forwardCycles_congr h, ?_⟩
  intro nodeIds nodeIds' edges edges' hnodes hedges
  refine forwardCycles_congr fun a b => ?_
  rw [mem_succs_forwardAdjacency, mem_succs_forwardAdjacency, hnodes, hnodes, Joins, Joins]
  simp only [hedges]

end Kroker
