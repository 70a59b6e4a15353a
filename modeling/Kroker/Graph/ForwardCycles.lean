import Kroker.Graph.Topology

/-!
# No reported cycle means no cycle

`forward_cycles` is Tarjan's algorithm with explicit stacks.  Legality only uses one half of what
it computes: when it reports nothing, the forward edges form no cycle.  That half needs no theory
of strongly connected components.

## The argument

Call the nodes of `work` the *path*.  As long as nothing goes wrong, the stack is the path, and
every node that has left the stack has all its successors off the stack too (`Clean`).  Two things
can go wrong: a successor is met further down the path, or a node finishes with a low link below its
index and stays behind on the stack.  Either way the scan is spoilt (`Spoilt`), it stays spoilt, and
it ends with a reported component, because the root pops whatever is left.  So an empty report means
that the scan was clean throughout, and in a clean scan a node is only left behind when everything
below it has been left behind before: every indexed node is accessible.
-/

namespace Kroker

namespace CycleScan

variable {adjacency : Adjacency}

/-- `index[x]`. -/
def ix (s : CycleScan) (x : String) : ℕ := s.index.getD x 0

/-- `low[x]`. -/
def lw (s : CycleScan) (x : String) : ℕ := s.low.getD x 0

/-- The nodes whose successors are being scanned, innermost first. -/
def path (s : CycleScan) : List String := s.work.map Prod.fst

/-- What the bookkeeping of one root's scan keeps, whatever graph it runs on. -/
structure Consistent (s : CycleScan) : Prop where
  onStack : ∀ x, x ∈ s.onStack ↔ x ∈ s.stack
  path_sublist : s.path.Sublist s.stack
  same_bottom : s.stack.getLast? = s.path.getLast?
  indexed : ∀ x ∈ s.stack, x ∈ s.index
  descending : s.stack.Pairwise fun x y => s.ix y < s.ix x
  ix_lt_counter : ∀ x ∈ s.stack, s.ix x < s.counter
  lw_le_ix : ∀ x ∈ s.path, s.lw x ≤ s.ix x
  root_le_lw : ∀ r, s.path.getLast? = some r → ∀ x ∈ s.path, s.ix r ≤ s.lw x

/-- A component is reported, or is bound to be. -/
def Spoilt (s : CycleScan) : Prop :=
  s.components ≠ [] ∨ (∃ x ∈ s.stack, x ∉ s.path) ∨ ∃ x ∈ s.path, s.lw x < s.ix x

/-- The node has been indexed and has left the stack. -/
def Closed (s : CycleScan) (x : String) : Prop := x ∈ s.index ∧ x ∉ s.stack

/-- Of a work list whose top was reached from `above`, every successor of every node is still to be
scanned, or closed, or the node itself, or the node scanned from it. -/
def Scanned (adjacency : Adjacency) (s : CycleScan) :
    Option String → List (String × List String) → Prop
  | _, [] => True
  | above, (x, rest) :: work =>
    (∀ y ∈ adjacency.succs x, y ∈ rest ∨ s.Closed y ∨ y = x ∨ above = some y) ∧
      Scanned adjacency s (some x) work

/-- Nothing has gone wrong yet. -/
structure Clean (adjacency : Adjacency) (s : CycleScan) : Prop where
  stack_eq : s.stack = s.path
  closed_succs : ∀ x, s.Closed x → ∀ y ∈ adjacency.succs x, s.Closed y
  closed_acc : ∀ x, s.Closed x → Acc (fun b a => Search.Edge adjacency.succs a b) x
  scanned : Scanned adjacency s none s.work

/-! ## 1. The stack -/

theorem Consistent.nodup {s : CycleScan} (h : s.Consistent) : s.stack.Nodup :=
  h.descending.imp fun hlt => fun heq => by rw [heq] at hlt; exact lt_irrefl _ hlt

theorem Consistent.mem_stack {s : CycleScan} (h : s.Consistent) {x : String} (hx : x ∈ s.path) :
    x ∈ s.stack :=
  h.path_sublist.subset hx

theorem ix_le_of_getLast? {s : CycleScan} {l : List String}
    (hl : l.Pairwise fun x y => s.ix y < s.ix x) {r : String} (hr : l.getLast? = some r) :
    ∀ x ∈ l, s.ix r ≤ s.ix x := by
  obtain ⟨pre, rfl⟩ := List.getLast?_eq_some_iff.mp hr
  intro x hx
  rcases List.mem_append.mp hx with hx | hx
  · have := (List.pairwise_append.mp hl).2.2 x hx r (List.mem_singleton.mpr rfl)
    omega
  · rw [List.mem_singleton.mp hx]

theorem Scanned.mono {s s' : CycleScan} (hclosed : ∀ x, s.Closed x → s'.Closed x) :
    ∀ {above : Option String} {work : List (String × List String)},
      Scanned adjacency s above work → Scanned adjacency s' above work
  | _, [], _ => trivial
  | _, (_, _) :: _, h =>
    ⟨fun y hy => (h.1 y hy).imp_right fun hc => hc.imp_left (hclosed y), h.2.mono hclosed⟩

/-! ## 2. Scanning one successor -/

section Scan

variable {s : CycleScan} {node succ : String} {rest : List String}
  {work : List (String × List String)}

/-- The state after a successor that was indexed before: the iterator has moved on, and the low
link is lowered when the successor is on the stack. -/
def afterIndexed (s : CycleScan) (node succ : String) (rest : List String)
    (work : List (String × List String)) : CycleScan :=
  if succ ∈ s.onStack then
    { s.lower node (s.index.getD succ 0) with work := (node, rest) :: work }
  else { s with work := (node, rest) :: work }

theorem lw_lower (s : CycleScan) (n : String) (k : ℕ) (x : String) :
    (s.lower n k).lw x = if n = x then min (s.lw n) k else s.lw x :=
  Dict.getD_insert _ _ _ _ _

theorem afterIndexed_path (hw : s.work = (node, succ :: rest) :: work) :
    (afterIndexed s node succ rest work).path = s.path := by
  unfold afterIndexed path
  rw [hw]
  split <;> rfl

theorem afterIndexed_frame (s : CycleScan) (node succ : String) (rest : List String)
    (work : List (String × List String)) :
    (afterIndexed s node succ rest work).index = s.index ∧
      (afterIndexed s node succ rest work).stack = s.stack ∧
      (afterIndexed s node succ rest work).onStack = s.onStack ∧
      (afterIndexed s node succ rest work).components = s.components ∧
      (afterIndexed s node succ rest work).counter = s.counter ∧
      (afterIndexed s node succ rest work).work = (node, rest) :: work ∧
      ∀ x, (afterIndexed s node succ rest work).lw x ≤ s.lw x := by
  unfold afterIndexed
  split
  · refine ⟨rfl, rfl, rfl, rfl, rfl, rfl, fun x => ?_⟩
    show (s.lower node (s.index.getD succ 0)).lw x ≤ s.lw x
    rw [lw_lower]
    split
    · next h => rw [h]; exact min_le_left _ _
    · exact le_rfl
  · exact ⟨rfl, rfl, rfl, rfl, rfl, rfl, fun x => le_rfl⟩

theorem Consistent.afterIndexed (h : s.Consistent) (hw : s.work = (node, succ :: rest) :: work) :
    (afterIndexed s node succ rest work).Consistent := by
  obtain ⟨hindex, hstack, hon, -, hcounter, -, hlw⟩ := afterIndexed_frame s node succ rest work
  have hpath := afterIndexed_path hw
  have hix : ∀ x, (CycleScan.afterIndexed s node succ rest work).ix x = s.ix x := fun x => by
    rw [ix, hindex, ix]
  refine ⟨?_, ?_, ?_, ?_, ?_, ?_, ?_, ?_⟩
  · rw [hon, hstack]; exact h.onStack
  · rw [hpath, hstack]; exact h.path_sublist
  · rw [hpath, hstack]; exact h.same_bottom
  · rw [hstack, hindex]; exact h.indexed
  · rw [hstack]; simp only [hix]; exact h.descending
  · rw [hstack, hcounter]; simp only [hix]; exact h.ix_lt_counter
  · rw [hpath]
    intro x hx
    rw [hix]
    exact (hlw x).trans (h.lw_le_ix x hx)
  · rw [hpath]
    intro r hr x hx
    rw [hix]
    have hrx := h.root_le_lw r hr x hx
    -- the only value that can newly become the low link is the index of a node on the stack
    unfold CycleScan.afterIndexed
    split
    · next hsucc =>
      show s.ix r ≤ (s.lower node (s.index.getD succ 0)).lw x
      rw [lw_lower]
      split
      · next hnx =>
        rw [hnx]
        refine le_min hrx ?_
        exact ix_le_of_getLast? h.descending (h.same_bottom.trans hr) succ
          ((h.onStack succ).mp hsucc)
      · exact hrx
    · exact hrx

theorem Spoilt.afterIndexed (h : s.Spoilt) (hw : s.work = (node, succ :: rest) :: work) :
    (afterIndexed s node succ rest work).Spoilt := by
  obtain ⟨hindex, hstack, -, hcomp, -, -, hlw⟩ := afterIndexed_frame s node succ rest work
  unfold Spoilt
  rw [afterIndexed_path hw, hstack, hcomp]
  refine h.imp_right (Or.imp_right ?_)
  rintro ⟨x, hx, hlt⟩
  refine ⟨x, hx, ?_⟩
  have : (CycleScan.afterIndexed s node succ rest work).ix x = s.ix x := by rw [ix, hindex, ix]
  rw [this]
  exact (hlw x).trans_lt hlt

/-- A successor on the stack other than the node itself lies below it on the path, and spoils the
scan; any other indexed successor keeps it clean. -/
theorem Clean.afterIndexed (h : s.Clean adjacency) (hs : s.Consistent)
    (hw : s.work = (node, succ :: rest) :: work) (hsucc : succ ∈ s.index) :
    (afterIndexed s node succ rest work).Spoilt ∨
      (afterIndexed s node succ rest work).Clean adjacency := by
  obtain ⟨hindex, hstack, hon, -, -, hwork, -⟩ := afterIndexed_frame s node succ rest work
  have hpath := afterIndexed_path hw
  have hnode : node ∈ s.path := by
    rw [path, hw]
    exact List.mem_cons_self
  by_cases hbelow : succ ∈ s.stack ∧ succ ≠ node
  · left
    right; right
    refine ⟨node, hpath ▸ hnode, ?_⟩
    have hlt : s.ix succ < s.ix node := by
      have hdesc := hs.descending
      have hmem := hbelow.1
      rw [h.stack_eq, path, hw, List.map_cons] at hdesc hmem
      rcases List.mem_cons.mp hmem with heq | htail
      · exact absurd heq hbelow.2
      · exact (List.pairwise_cons.mp hdesc).1 succ htail
    have hix : (CycleScan.afterIndexed s node succ rest work).ix node = s.ix node := by
      rw [ix, hindex, ix]
    rw [hix, CycleScan.afterIndexed, if_pos ((hs.onStack succ).mpr hbelow.1)]
    show (s.lower node (s.ix succ)).lw node < s.ix node
    rw [lw_lower, if_pos rfl]
    exact (min_le_right _ _).trans_lt hlt
  · right
    have hclosed : ∀ x, (CycleScan.afterIndexed s node succ rest work).Closed x ↔ s.Closed x := by
      intro x
      rw [Closed, hindex, hstack, Closed]
    refine ⟨by rw [hstack, hpath, h.stack_eq], ?_, ?_, ?_⟩
    · intro x hx y hy
      exact (hclosed y).mpr (h.closed_succs x ((hclosed x).mp hx) y hy)
    · intro x hx
      exact h.closed_acc x ((hclosed x).mp hx)
    · have hscanned := h.scanned
      rw [hw] at hscanned
      rw [hwork]
      refine ⟨fun y hy => ?_, hscanned.2.mono fun x hx => (hclosed x).mpr hx⟩
      rcases hscanned.1 y hy with hmem | hc | heq | habove
      · rcases List.mem_cons.mp hmem with rfl | hmem
        · by_cases hyn : y = node
          · exact Or.inr (Or.inr (Or.inl hyn))
          · have hoff : y ∉ s.stack := fun hon => hbelow ⟨hon, hyn⟩
            exact Or.inr (Or.inl ((hclosed y).mpr ⟨hsucc, hoff⟩))
        · exact Or.inl hmem
      · exact Or.inr (Or.inl ((hclosed y).mpr hc))
      · exact Or.inr (Or.inr (Or.inl heq))
      · exact absurd habove.symm (Option.some_ne_none y)

end Scan

/-! ## 3. Opening a node -/

section Visit

variable {s : CycleScan} {node succ : String} {rest : List String}
  {work : List (String × List String)}

theorem ix_visit_of_ne (s : CycleScan) {n x : String} (h : n ≠ x) :
    (s.visit adjacency n).ix x = s.ix x :=
  Dict.getD_insert_of_ne _ _ _ h

theorem lw_visit_of_ne (s : CycleScan) {n x : String} (h : n ≠ x) :
    (s.visit adjacency n).lw x = s.lw x :=
  Dict.getD_insert_of_ne _ _ _ h

theorem ix_visit_self (s : CycleScan) (n : String) : (s.visit adjacency n).ix n = s.counter := by
  show (s.index.insert n s.counter).getD n 0 = s.counter
  rw [Dict.getD_insert, if_pos rfl]

theorem lw_visit_self (s : CycleScan) (n : String) : (s.visit adjacency n).lw n = s.counter := by
  show (s.low.insert n s.counter).getD n 0 = s.counter
  rw [Dict.getD_insert, if_pos rfl]

theorem path_visit (s : CycleScan) (n : String) : (s.visit adjacency n).path = n :: s.path := rfl

variable (adjacency) in
theorem mem_index_visit (s : CycleScan) (n x : String) :
    x ∈ (s.visit adjacency n).index ↔ n = x ∨ x ∈ s.index :=
  Dict.mem_insert _ _ _ _

theorem Consistent.visit (h : s.Consistent) {n : String} (hn : n ∉ s.index) :
    (s.visit adjacency n).Consistent := by
  have hne : ∀ x ∈ s.stack, n ≠ x := fun x hx heq => hn (heq ▸ h.indexed x hx)
  have hnepath : ∀ x ∈ s.path, n ≠ x := fun x hx => hne x (h.mem_stack hx)
  have hstack : (s.visit adjacency n).stack = n :: s.stack := rfl
  refine ⟨?_, ?_, ?_, ?_, ?_, ?_, ?_, ?_⟩
  · intro x
    show x ∈ s.onStack.insert n ↔ x ∈ n :: s.stack
    rw [StrSet.mem_insert, List.mem_cons, h.onStack, eq_comm]
  · rw [path_visit, hstack]
    exact h.path_sublist.cons_cons n
  · rw [path_visit, hstack, List.getLast?_cons, List.getLast?_cons, h.same_bottom]
  · intro x hx
    rw [mem_index_visit]
    rcases List.mem_cons.mp hx with rfl | hx
    · exact Or.inl rfl
    · exact Or.inr (h.indexed x hx)
  · rw [hstack, List.pairwise_cons]
    refine ⟨fun x hx => ?_, h.descending.imp_of_mem fun hx hy hlt => ?_⟩
    · rw [ix_visit_self, ix_visit_of_ne s (hne x hx)]
      exact h.ix_lt_counter x hx
    · rw [ix_visit_of_ne s (hne _ hx), ix_visit_of_ne s (hne _ hy)]
      exact hlt
  · intro x hx
    show (s.visit adjacency n).ix x < s.counter + 1
    rcases List.mem_cons.mp hx with rfl | hx
    · rw [ix_visit_self]; omega
    · rw [ix_visit_of_ne s (hne x hx)]
      have := h.ix_lt_counter x hx
      omega
  · intro x hx
    rw [path_visit] at hx
    rcases List.mem_cons.mp hx with rfl | hx
    · rw [ix_visit_self, lw_visit_self]
    · rw [ix_visit_of_ne s (hnepath x hx), lw_visit_of_ne s (hnepath x hx)]
      exact h.lw_le_ix x hx
  · intro r hr x hx
    rw [path_visit, List.getLast?_cons, Option.some.injEq] at hr
    rw [path_visit] at hx
    cases hlast : s.path.getLast? with
    | none =>
      have hempty : s.path = [] := List.getLast?_eq_none_iff.mp hlast
      rw [hlast, Option.getD_none] at hr
      rw [hempty, List.mem_singleton] at hx
      rw [hx, ← hr, ix_visit_self, lw_visit_self]
    | some b =>
      rw [hlast, Option.getD_some] at hr
      subst hr
      have hb : b ∈ s.path := List.mem_of_getLast? hlast
      rw [ix_visit_of_ne s (hnepath b hb)]
      rcases List.mem_cons.mp hx with rfl | hx
      · rw [lw_visit_self]
        have := h.ix_lt_counter b (h.mem_stack hb)
        omega
      · rw [lw_visit_of_ne s (hnepath x hx)]
        exact h.root_le_lw b hlast x hx

theorem Spoilt.visit (h : s.Spoilt) (hs : s.Consistent) {n : String} (hn : n ∉ s.index) :
    (s.visit adjacency n).Spoilt := by
  have hne : ∀ x ∈ s.stack, n ≠ x := fun x hx heq => hn (heq ▸ hs.indexed x hx)
  rcases h with hcomp | ⟨x, hx, hpath⟩ | ⟨x, hx, hlt⟩
  · exact Or.inl hcomp
  · refine Or.inr (Or.inl ⟨x, List.mem_cons_of_mem _ hx, ?_⟩)
    rw [path_visit, List.mem_cons, not_or]
    exact ⟨fun heq => hne x hx heq.symm, hpath⟩
  · refine Or.inr (Or.inr ⟨x, List.mem_cons_of_mem _ hx, ?_⟩)
    have hxn := hne x (hs.mem_stack hx)
    rw [ix_visit_of_ne s hxn, lw_visit_of_ne s hxn]
    exact hlt

theorem closed_visit {n : String} (hn : n ∉ s.index) (x : String) :
    (s.visit adjacency n).Closed x ↔ s.Closed x := by
  rw [Closed, mem_index_visit]
  show (n = x ∨ x ∈ s.index) ∧ x ∉ n :: s.stack ↔ _
  rw [List.mem_cons, not_or, Closed]
  constructor
  · rintro ⟨hx, hxn, hoff⟩
    exact ⟨hx.resolve_left fun h => hxn h.symm, hoff⟩
  · rintro ⟨hx, hoff⟩
    exact ⟨Or.inr hx, fun heq => hn (heq ▸ hx), hoff⟩

theorem Clean.visit (h : s.Clean adjacency) {n : String} (hn : n ∉ s.index)
    (hscanned : Scanned adjacency s (some n) s.work) :
    (s.visit adjacency n).Clean adjacency := by
  refine ⟨?_, ?_, ?_, ?_, ?_⟩
  · show n :: s.stack = n :: s.path
    rw [h.stack_eq]
  · intro x hx y hy
    exact (closed_visit hn y).mpr (h.closed_succs x ((closed_visit hn x).mp hx) y hy)
  · intro x hx
    exact h.closed_acc x ((closed_visit hn x).mp hx)
  · exact fun y hy => Or.inl hy
  · exact hscanned.mono fun x hx => (closed_visit hn x).mpr hx

end Visit

/-! ## 4. Finishing a node -/

section Finish

theorem popMembers_append (node : String) {pre : List String} (hpre : node ∉ pre)
    (post : List String) (onStack : StrSet) :
    (popMembers node (pre ++ node :: post) onStack).1 = pre ++ [node] ∧
      (popMembers node (pre ++ node :: post) onStack).2.1 = post ∧
      ∀ x, x ∈ (popMembers node (pre ++ node :: post) onStack).2.2 ↔
        x ∈ onStack ∧ x ∉ pre ++ [node] := by
  induction pre generalizing onStack with
  | nil =>
    rw [List.nil_append, popMembers, if_pos rfl]
    refine ⟨rfl, rfl, fun x => ?_⟩
    rw [Std.ExtTreeSet.mem_erase, Ne, Std.LawfulEqCmp.compare_eq_iff_eq, List.nil_append,
      List.mem_singleton, eq_comm, and_comm]
  | cons m pre ih =>
    rw [List.mem_cons, not_or] at hpre
    obtain ⟨hmembers, hstack, hon⟩ := ih hpre.2 (onStack.erase m)
    rw [List.cons_append, popMembers, if_neg fun h => hpre.1 h.symm]
    refine ⟨by rw [hmembers, List.cons_append], hstack, fun x => ?_⟩
    rw [hon, Std.ExtTreeSet.mem_erase, Ne, Std.LawfulEqCmp.compare_eq_iff_eq, List.cons_append,
      List.mem_cons, not_or, eq_comm]
    tauto

theorem sublist_of_cons_sublist_append {node : String} {l pre post : List String}
    (hpre : node ∉ pre) (h : (node :: l).Sublist (pre ++ node :: post)) : l.Sublist post := by
  induction pre with
  | nil => exact List.cons_sublist_cons.mp h
  | cons m pre ih =>
    rw [List.mem_cons, not_or] at hpre
    rw [List.cons_append] at h
    cases h with
    | cons _ h => exact ih hpre.2 h
    | cons_cons _ h => exact absurd rfl hpre.1

variable {s : CycleScan} {node : String} {work : List (String × List String)}

/-- The state in which the root test of a finished node is made: its frame is gone, and its low
link has been handed to the node below it. -/
def afterFrame (s : CycleScan) (node : String) (work : List (String × List String)) :
    CycleScan :=
  match work with
  | [] => { s with work := work }
  | (parent, _) :: _ => { s.lower parent (s.lw node) with work := work }

theorem finish_eq (s : CycleScan) (node : String) (work : List (String × List String)) :
    ({ s with work := work } : CycleScan).finish adjacency node =
      if (afterFrame s node work).lw node = (afterFrame s node work).ix node then
        (afterFrame s node work).popComponent adjacency node
      else afterFrame s node work := by
  cases work with
  | nil => rfl
  | cons p work => rfl

theorem afterFrame_frame (s : CycleScan) (node : String) (work : List (String × List String)) :
    (afterFrame s node work).index = s.index ∧ (afterFrame s node work).stack = s.stack ∧
      (afterFrame s node work).onStack = s.onStack ∧
      (afterFrame s node work).components = s.components ∧
      (afterFrame s node work).counter = s.counter ∧ (afterFrame s node work).work = work ∧
      ∀ x, (afterFrame s node work).lw x ≤ s.lw x := by
  cases work with
  | nil => exact ⟨rfl, rfl, rfl, rfl, rfl, rfl, fun _ => le_rfl⟩
  | cons p work =>
    refine ⟨rfl, rfl, rfl, rfl, rfl, rfl, fun x => ?_⟩
    show (s.lower p.1 (s.lw node)).lw x ≤ s.lw x
    rw [lw_lower]
    split
    · next h => rw [h]; exact min_le_left _ _
    · exact le_rfl

theorem lw_afterFrame_self (h : s.Consistent) (hw : s.work = (node, []) :: work) :
    (afterFrame s node work).lw node = s.lw node := by
  cases work with
  | nil => rfl
  | cons p work =>
    have hnodup := h.path_sublist.nodup h.nodup
    rw [path, hw, List.map_cons, List.map_cons] at hnodup
    have hne : p.1 ≠ node := fun heq =>
      (List.nodup_cons.mp hnodup).1 (heq ▸ List.mem_cons_self)
    show (s.lower p.1 (s.lw node)).lw node = s.lw node
    rw [lw_lower, if_neg hne]

theorem root_le_afterFrame (h : s.Consistent) (hw : s.work = (node, []) :: work) {r : String}
    (hr : s.path.getLast? = some r) :
    ∀ x ∈ s.path, s.ix r ≤ (afterFrame s node work).lw x := by
  intro x hx
  have hrx := h.root_le_lw r hr x hx
  cases work with
  | nil => exact hrx
  | cons p work =>
    have hnode : node ∈ s.path := by
      rw [path, hw]
      exact List.mem_cons_self
    show s.ix r ≤ (s.lower p.1 (s.lw node)).lw x
    rw [lw_lower]
    split
    · next h' => exact le_min (h' ▸ hrx) (h.root_le_lw r hr node hnode)
    · exact hrx

theorem exists_stack_split (h : s.Consistent) (hw : s.work = (node, []) :: work) :
    ∃ pre post, s.stack = pre ++ node :: post ∧ node ∉ pre ∧ node ∉ post ∧
      (work.map Prod.fst).Sublist post ∧ post.getLast? = (work.map Prod.fst).getLast? := by
  have hpath : s.path = node :: work.map Prod.fst := by rw [path, hw, List.map_cons]
  have hnode : node ∈ s.stack := h.mem_stack (hpath ▸ List.mem_cons_self)
  obtain ⟨pre, post, hsplit, hpre⟩ := List.eq_append_cons_of_mem hnode
  have hnodup := h.nodup
  rw [hsplit, List.nodup_middle, List.nodup_cons, List.mem_append, not_or] at hnodup
  have hsub : (work.map Prod.fst).Sublist post := by
    have := h.path_sublist
    rw [hpath, hsplit] at this
    exact sublist_of_cons_sublist_append hpre this
  refine ⟨pre, post, hsplit, hpre, hnodup.1.2, hsub, ?_⟩
  have hbottom := h.same_bottom
  rw [hpath, hsplit, List.getLast?_append, List.getLast?_cons, List.getLast?_cons,
    Option.some_or, Option.some.injEq] at hbottom
  cases hlast : (work.map Prod.fst).getLast? with
  | none =>
    rw [hlast, Option.getD_none] at hbottom
    cases hpost : post.getLast? with
    | none => rfl
    | some b =>
      rw [hpost, Option.getD_some] at hbottom
      exact absurd (hbottom ▸ List.mem_of_getLast? hpost) hnodup.1.2
  | some b =>
    have hne : post ≠ [] := by
      intro hnil
      rw [hnil, List.sublist_nil] at hsub
      rw [hsub, List.getLast?_nil] at hlast
      exact Option.some_ne_none b hlast.symm
    obtain ⟨c, hc⟩ := Option.ne_none_iff_exists'.mp (mt List.getLast?_eq_none_iff.mp hne)
    rw [hlast, hc, Option.getD_some, Option.getD_some] at hbottom
    rw [hc, hbottom]

variable (adjacency) in
theorem popComponent_split (s : CycleScan) {pre post : List String}
    (hsplit : s.stack = pre ++ node :: post) (hpre : node ∉ pre) :
    (s.popComponent adjacency node).stack = post ∧
      (∀ x, x ∈ (s.popComponent adjacency node).onStack ↔ x ∈ s.onStack ∧ x ∉ pre ++ [node]) ∧
      (s.popComponent adjacency node).components =
        if pre ≠ [] ∨ node ∈ adjacency.succs node then
          s.components ++ [(pre ++ [node]).insertionSort (· ≤ ·)] else s.components := by
  obtain ⟨hmembers, hstack, hon⟩ := popMembers_append node hpre post s.onStack
  refine ⟨?_, fun x => ?_, ?_⟩
  · show (popMembers node s.stack s.onStack).2.1 = post
    rw [hsplit, hstack]
  · show x ∈ (popMembers node s.stack s.onStack).2.2 ↔ _
    rw [hsplit, hon]
  · show (if _ then _ else _) = _
    rw [hsplit, hmembers, List.length_append, List.length_singleton]
    have hlen : 1 < pre.length + 1 ↔ pre ≠ [] := by
      rw [← List.length_pos_iff]
      omega
    simp only [Bool.or_eq_true, decide_eq_true_eq, hlen]

theorem Consistent.finish (h : s.Consistent) (hw : s.work = (node, []) :: work) :
    (({ s with work := work } : CycleScan).finish adjacency node).Consistent := by
  obtain ⟨hindex, hstack, hon, -, hcounter, hwork, hlw⟩ := afterFrame_frame s node work
  obtain ⟨pre, post, hsplit, hpre, -, hsub, hbottom⟩ := exists_stack_split h hw
  have hpath : s.path = node :: work.map Prod.fst := by rw [path, hw, List.map_cons]
  have hpath' : (afterFrame s node work).path = work.map Prod.fst := by rw [path, hwork]
  have hix : ∀ x, (afterFrame s node work).ix x = s.ix x := fun x => by rw [ix, hindex, ix]
  have hpost : ∀ x ∈ post, x ∈ s.stack := fun x hx =>
    hsplit ▸ List.mem_append_right _ (List.mem_cons_of_mem _ hx)
  have hlow : ∀ x ∈ work.map Prod.fst, (afterFrame s node work).lw x ≤ s.ix x := fun x hx =>
    (hlw x).trans (h.lw_le_ix x (hpath ▸ List.mem_cons_of_mem _ hx))
  have hroot : ∀ r, (work.map Prod.fst).getLast? = some r → ∀ x ∈ work.map Prod.fst,
      s.ix r ≤ (afterFrame s node work).lw x := by
    intro r hr x hx
    have hr' : s.path.getLast? = some r := by rw [hpath, List.getLast?_cons, hr, Option.getD_some]
    exact root_le_afterFrame h hw hr' x (hpath ▸ List.mem_cons_of_mem _ hx)
  rw [finish_eq]
  split
  · obtain ⟨hstack', hon', -⟩ := popComponent_split adjacency
      (afterFrame s node work) (hstack.trans hsplit) hpre
    refine ⟨?_, ?_, ?_, ?_, ?_, ?_, ?_, ?_⟩
    · intro x
      have hmem : x ∈ s.stack ↔ x ∈ pre ++ [node] ∨ x ∈ post := by
        rw [hsplit]
        simp only [List.mem_append, List.mem_cons, List.not_mem_nil, or_false, or_assoc]
      have hdisj : ¬(x ∈ pre ++ [node] ∧ x ∈ post) := by
        have hnodup := h.nodup
        rw [hsplit, List.append_cons, List.nodup_append] at hnodup
        rintro ⟨h1, h2⟩
        exact hnodup.2.2 x h1 x h2 rfl
      rw [hstack', hon', hon, h.onStack, hmem]
      tauto
    · show ((afterFrame s node work).path).Sublist _
      rw [hpath', hstack']
      exact hsub
    · show _ = (afterFrame s node work).path.getLast?
      rw [hpath', hstack', hbottom]
    · intro x hx
      show x ∈ (afterFrame s node work).index
      rw [hindex]
      exact h.indexed x (hpost x (hstack' ▸ hx))
    · show (CycleScan.stack _).Pairwise fun x y =>
        (afterFrame s node work).ix y < (afterFrame s node work).ix x
      rw [hstack']
      simp only [hix]
      have hdesc := h.descending
      rw [hsplit] at hdesc
      exact (List.pairwise_cons.mp (List.pairwise_append.mp hdesc).2.1).2
    · intro x hx
      show (afterFrame s node work).ix x < (afterFrame s node work).counter
      rw [hix, hcounter]
      exact h.ix_lt_counter x (hpost x (hstack' ▸ hx))
    · intro x hx
      show (afterFrame s node work).lw x ≤ (afterFrame s node work).ix x
      rw [hix]
      exact hlow x (hpath' ▸ hx)
    · intro r hr x hx
      show (afterFrame s node work).ix r ≤ (afterFrame s node work).lw x
      rw [hix]
      exact hroot r (hpath' ▸ hr) x (hpath' ▸ hx)
  · next hne =>
    -- a root is always popped, so there is a frame below and the bottom stays where it was
    have hwork' : work ≠ [] := by
      rintro rfl
      have hr : s.path.getLast? = some node := by rw [hpath]; rfl
      have h1 := h.root_le_lw node hr node (hpath ▸ List.mem_cons_self)
      have h2 := h.lw_le_ix node (hpath ▸ List.mem_cons_self)
      rw [hix, lw_afterFrame_self h hw] at hne
      omega
    refine ⟨?_, ?_, ?_, ?_, ?_, ?_, ?_, ?_⟩
    · rw [hon, hstack]; exact h.onStack
    · rw [hpath', hstack]
      exact (List.sublist_cons_self node _).trans (hpath ▸ h.path_sublist)
    · rw [hpath', hstack, h.same_bottom, hpath]
      cases work with
      | nil => exact absurd rfl hwork'
      | cons p work => rw [List.map_cons, List.getLast?_cons_cons]
    · rw [hstack, hindex]; exact h.indexed
    · rw [hstack]; simp only [hix]; exact h.descending
    · rw [hstack, hcounter]; simp only [hix]; exact h.ix_lt_counter
    · rw [hpath']; simp only [hix]; exact hlow
    · rw [hpath']; simp only [hix]; exact hroot

/-- A finished node stays behind on the stack with a low link below its index, or is popped; a
spoilt scan stays spoilt either way. -/
theorem Spoilt.finish (h : s.Spoilt) (hs : s.Consistent) (hw : s.work = (node, []) :: work) :
    (({ s with work := work } : CycleScan).finish adjacency node).Spoilt := by
  obtain ⟨hindex, hstack, -, hcomp, -, hwork, hlw⟩ := afterFrame_frame s node work
  obtain ⟨pre, post, hsplit, hpre, hpost, hsub, -⟩ := exists_stack_split hs hw
  have hpath : s.path = node :: work.map Prod.fst := by rw [path, hw, List.map_cons]
  have hpath' : (afterFrame s node work).path = work.map Prod.fst := by rw [path, hwork]
  have hix : ∀ x, (afterFrame s node work).ix x = s.ix x := fun x => by rw [ix, hindex, ix]
  have hlow : ∀ x ∈ work.map Prod.fst, s.lw x < s.ix x →
      (afterFrame s node work).lw x < (afterFrame s node work).ix x := fun x _ hlt => by
    rw [hix]
    exact (hlw x).trans_lt hlt
  have hnode : node ∉ work.map Prod.fst := fun hmem => hpost (hsub.subset hmem)
  rw [finish_eq]
  split
  · next heq =>
    obtain ⟨hstack', -, hcomp'⟩ := popComponent_split adjacency
      (afterFrame s node work) (hstack.trans hsplit) hpre
    unfold Spoilt
    rw [hcomp', hstack', hcomp]
    rcases h with hc | ⟨x, hx, hoff⟩ | ⟨x, hx, hlt⟩
    · left
      split
      · exact List.append_ne_nil_of_right_ne_nil _ (List.cons_ne_nil _ _)
      · exact hc
    · rw [hpath, List.mem_cons, not_or] at hoff
      rw [hsplit] at hx
      rcases List.mem_append.mp hx with hx | hx
      · left
        rw [if_pos (Or.inl (List.ne_nil_of_mem hx))]
        exact List.append_ne_nil_of_right_ne_nil _ (List.cons_ne_nil _ _)
      · have hxpost : x ∈ post := (List.mem_cons.mp hx).resolve_left hoff.1
        exact Or.inr (Or.inl ⟨x, hxpost, fun hmem => hoff.2 (hpath' ▸ hmem)⟩)
    · rw [hix, lw_afterFrame_self hs hw] at heq
      rw [hpath] at hx
      rcases List.mem_cons.mp hx with rfl | hx
      · omega
      · exact Or.inr (Or.inr ⟨x, hpath' ▸ hx, hlow x hx hlt⟩)
  · have hmem : node ∈ s.stack := hsplit ▸ List.mem_append_right _ List.mem_cons_self
    exact Or.inr (Or.inl ⟨node, hstack ▸ hmem, hpath' ▸ hnode⟩)

/-- In a clean scan the finished node is alone on its stretch of the stack, so it is popped and
closed, unless its low link or an edge to itself spoils the scan. -/
theorem Clean.finish (h : s.Clean adjacency) (hs : s.Consistent)
    (hw : s.work = (node, []) :: work) :
    (({ s with work := work } : CycleScan).finish adjacency node).Spoilt ∨
      (({ s with work := work } : CycleScan).finish adjacency node).Clean adjacency := by
  obtain ⟨hindex, hstack, -, -, -, hwork, -⟩ := afterFrame_frame s node work
  have hpath : s.path = node :: work.map Prod.fst := by rw [path, hw, List.map_cons]
  have hpath' : (afterFrame s node work).path = work.map Prod.fst := by rw [path, hwork]
  have hsplit : s.stack = [] ++ node :: work.map Prod.fst := by rw [h.stack_eq, hpath]; rfl
  have hnodup := hs.nodup
  rw [hsplit, List.nil_append] at hnodup
  have hscanned := h.scanned
  rw [hw] at hscanned
  rw [finish_eq]
  split
  · obtain ⟨hstack', -, hcomp'⟩ := popComponent_split adjacency
      (afterFrame s node work) (hstack.trans hsplit) List.not_mem_nil
    by_cases hself : node ∈ adjacency.succs node
    · left; left
      rw [hcomp', if_pos (Or.inr hself)]
      exact List.append_ne_nil_of_right_ne_nil _ (List.cons_ne_nil _ _)
    right
    have hnodesuccs : ∀ y ∈ adjacency.succs node, s.Closed y := by
      intro y hy
      rcases hscanned.1 y hy with hmem | hc | rfl | habove
      · exact nomatch hmem
      · exact hc
      · exact absurd hy hself
      · exact absurd habove.symm (Option.some_ne_none y)
    have hclosed : ∀ x, ((afterFrame s node work).popComponent adjacency node).Closed x ↔
        x = node ∨ s.Closed x := by
      intro x
      rw [Closed, hstack', Closed]
      show x ∈ (afterFrame s node work).index ∧ _ ↔ _
      rw [hindex, hsplit, List.nil_append, List.mem_cons, not_or]
      have hin : node ∈ s.index := hs.indexed node (hsplit ▸ List.mem_cons_self)
      constructor
      · rintro ⟨hx, hoff⟩
        by_cases hxn : x = node
        · exact Or.inl hxn
        · exact Or.inr ⟨hx, hxn, hoff⟩
      · rintro (rfl | ⟨hx, -, hoff⟩)
        · exact ⟨hin, (List.nodup_cons.mp hnodup).1⟩
        · exact ⟨hx, hoff⟩
    have hsuccs : ∀ x, ((afterFrame s node work).popComponent adjacency node).Closed x →
        ∀ y ∈ adjacency.succs x, s.Closed y := by
      intro x hx y hy
      rcases (hclosed x).mp hx with rfl | hx
      · exact hnodesuccs y hy
      · exact h.closed_succs x hx y hy
    refine ⟨?_, fun x hx y hy => (hclosed y).mpr (Or.inr (hsuccs x hx y hy)), ?_, ?_⟩
    · show _ = (afterFrame s node work).path
      rw [hstack', hpath']
    · intro x hx
      exact Acc.intro x fun y hy => h.closed_acc y (hsuccs x hx y hy)
    · show Scanned adjacency _ none (afterFrame s node work).work
      rw [hwork]
      -- the frame below was scanning the node that has just been closed
      cases work with
      | nil => trivial
      | cons p work =>
        refine ⟨fun y hy => ?_, hscanned.2.2.mono fun x hx => (hclosed x).mpr (Or.inr hx)⟩
        rcases hscanned.2.1 y hy with hmem | hc | heq | habove
        · exact Or.inl hmem
        · exact Or.inr (Or.inl ((hclosed y).mpr (Or.inr hc)))
        · exact Or.inr (Or.inr (Or.inl heq))
        · have hyn : y = node := (Option.some.inj habove).symm
          exact Or.inr (Or.inl ((hclosed y).mpr (Or.inl hyn)))
  · left
    have hmem : node ∈ s.stack := hsplit ▸ List.mem_cons_self
    exact Or.inr (Or.inl ⟨node, hstack ▸ hmem, hpath' ▸ (List.nodup_cons.mp hnodup).1⟩)

end Finish

/-! ## 5. The loops -/

/-- What every state of the scan satisfies; `univ` holds every node the scan can come across. -/
structure Sound (adjacency : Adjacency) (univ : Finset String) (s : CycleScan) : Prop where
  consistent : s.Consistent
  verdict : s.Spoilt ∨ s.Clean adjacency
  bounded : ∀ p ∈ s.work, ∀ y ∈ p.2, y ∈ univ

variable {univ : Finset String} {s : CycleScan}

theorem Sound.afterIndexed {node succ : String} {rest : List String}
    {work : List (String × List String)} (h : Sound adjacency univ s)
    (hw : s.work = (node, succ :: rest) :: work) (hsucc : succ ∈ s.index) :
    Sound adjacency univ (afterIndexed s node succ rest work) := by
  refine ⟨h.consistent.afterIndexed hw, ?_, ?_⟩
  · rcases h.verdict with hs | hc
    · exact Or.inl (hs.afterIndexed hw)
    · exact hc.afterIndexed h.consistent hw hsucc
  · obtain ⟨-, -, -, -, -, hwork, -⟩ := afterIndexed_frame s node succ rest work
    have hb := h.bounded
    rw [hw] at hb
    rw [hwork]
    intro p hp y hy
    rcases List.mem_cons.mp hp with rfl | hp
    · exact hb _ List.mem_cons_self y (List.mem_cons_of_mem _ hy)
    · exact hb p (List.mem_cons_of_mem _ hp) y hy

/-- **The inner loop**: it stops at the end of the iterator, or at a successor without an index,
and the state it stops in is sound with the iterator where it stopped. -/
theorem sound_scanSuccessors (node : String) (work : List (String × List String)) :
    ∀ (successors : List String) (s : CycleScan),
      Sound adjacency univ { s with work := (node, successors) :: work } →
      (scanSuccessors node successors s).1.index = s.index ∧
        match (scanSuccessors node successors s).2 with
        | none => Sound adjacency univ
            { (scanSuccessors node successors s).1 with work := (node, []) :: work }
        | some (succ, rest) => succ ∉ s.index ∧ Sound adjacency univ
            { (scanSuccessors node successors s).1 with work := (node, succ :: rest) :: work }
  | [], s, h => ⟨rfl, h⟩
  | succ :: rest, s, h => by
    rw [scanSuccessors]
    by_cases hsucc : succ ∈ s.index
    · have hnext : Sound adjacency univ (CycleScan.afterIndexed
          { s with work := (node, succ :: rest) :: work } node succ rest work) :=
        h.afterIndexed rfl hsucc
      rw [if_pos hsucc]
      unfold CycleScan.afterIndexed at hnext
      split
      · next hon =>
        rw [if_pos hon] at hnext
        exact sound_scanSuccessors node work rest (s.lower node (s.index.getD succ 0)) hnext
      · next hon =>
        rw [if_neg hon] at hnext
        exact sound_scanSuccessors node work rest s hnext
    · rw [if_neg hsucc]
      exact ⟨rfl, hsucc, h⟩

/-- The nodes of the universe that have no index yet. -/
def unindexed (univ : Finset String) (s : CycleScan) : ℕ :=
  (univ.filter fun x => x ∉ s.index).card

theorem index_finish (s : CycleScan) (node : String) :
    (s.finish adjacency node).index = s.index := by
  unfold finish popComponent
  cases s.work with
  | nil => dsimp only; split <;> rfl
  | cons p work => dsimp only; split <;> rfl

theorem work_finish (s : CycleScan) (node : String) :
    (s.finish adjacency node).work = s.work := by
  unfold finish popComponent
  cases hw : s.work with
  | nil => dsimp only; split <;> exact hw
  | cons p work => dsimp only; split <;> exact hw

theorem Sound.visit {n : String} (h : Sound adjacency univ s) (hn : n ∉ s.index)
    (hsuccs : ∀ y ∈ adjacency.succs n, y ∈ univ)
    (hscanned : s.Clean adjacency → Scanned adjacency s (some n) s.work) :
    Sound adjacency univ (s.visit adjacency n) := by
  refine ⟨h.consistent.visit hn, ?_, ?_⟩
  · rcases h.verdict with hs | hc
    · exact Or.inl (hs.visit h.consistent hn)
    · exact Or.inr (hc.visit hn (hscanned hc))
  · intro p hp y hy
    rcases List.mem_cons.mp hp with rfl | hp
    · exact hsuccs y hy
    · exact h.bounded p hp y hy

/-- Moving past a successor in order to open it. -/
theorem Sound.advance {node succ : String} {rest : List String}
    {work : List (String × List String)} (h : Sound adjacency univ s)
    (hw : s.work = (node, succ :: rest) :: work) (hsucc : succ ∉ s.index)
    (huniv : ∀ a, ∀ b ∈ adjacency.succs a, b ∈ univ) :
    Sound adjacency univ (({ s with work := (node, rest) :: work } : CycleScan).visit
      adjacency succ) := by
  have hpath : ({ s with work := (node, rest) :: work } : CycleScan).path = s.path := by
    rw [path, path, hw, List.map_cons, List.map_cons]
  have hc := h.consistent
  have hconsistent : ({ s with work := (node, rest) :: work } : CycleScan).Consistent :=
    ⟨hc.onStack, hpath ▸ hc.path_sublist, hpath ▸ hc.same_bottom, hc.indexed, hc.descending,
      hc.ix_lt_counter, hpath ▸ hc.lw_le_ix, hpath ▸ hc.root_le_lw⟩
  refine ⟨hconsistent.visit hsucc, ?_, ?_⟩
  · rcases h.verdict with hs | hclean
    · left
      refine Spoilt.visit ?_ hconsistent hsucc
      unfold Spoilt at hs ⊢
      rw [hpath]
      exact hs
    · right
      have hscanned := hclean.scanned
      rw [hw] at hscanned
      have hstack : Scanned adjacency s (some succ) ((node, rest) :: work) := by
        refine ⟨fun y hy => ?_, hscanned.2⟩
        rcases hscanned.1 y hy with hmem | hclosed | heq | habove
        · rcases List.mem_cons.mp hmem with rfl | hmem
          · exact Or.inr (Or.inr (Or.inr rfl))
          · exact Or.inl hmem
        · exact Or.inr (Or.inl hclosed)
        · exact Or.inr (Or.inr (Or.inl heq))
        · exact absurd habove.symm (Option.some_ne_none y)
      have hclosed : ∀ x, (({ s with work := (node, rest) :: work } : CycleScan).visit
          adjacency succ).Closed x ↔ s.Closed x := fun x =>
        closed_visit (s := { s with work := (node, rest) :: work }) hsucc x
      refine ⟨?_, ?_, ?_, fun y hy => Or.inl hy, ?_⟩
      · show succ :: s.stack = succ :: ({ s with work := (node, rest) :: work } : CycleScan).path
        rw [hpath, hclean.stack_eq]
      · intro x hx y hy
        exact (hclosed y).mpr (hclean.closed_succs x ((hclosed x).mp hx) y hy)
      · intro x hx
        exact hclean.closed_acc x ((hclosed x).mp hx)
      · exact hstack.mono fun x hx => (hclosed x).mpr hx
  · have hb := h.bounded
    rw [hw] at hb
    intro p hp y hy
    rcases List.mem_cons.mp hp with rfl | hp
    · exact huniv _ y hy
    · rcases List.mem_cons.mp hp with rfl | hp
      · exact hb _ List.mem_cons_self y (List.mem_cons_of_mem _ hy)
      · exact hb p (List.mem_cons_of_mem _ hp) y hy

theorem Sound.finish {node : String} {work : List (String × List String)}
    (h : Sound adjacency univ s) (hw : s.work = (node, []) :: work) :
    Sound adjacency univ (({ s with work := work } : CycleScan).finish adjacency node) := by
  refine ⟨h.consistent.finish hw, ?_, ?_⟩
  · rcases h.verdict with hs | hc
    · exact Or.inl (hs.finish h.consistent hw)
    · exact hc.finish h.consistent hw
  · rw [work_finish]
    intro p hp
    exact h.bounded p (hw ▸ List.mem_cons_of_mem _ hp)

/-- **One iteration**: it keeps the state sound and every index, and it indexes a node or finishes
one. -/
theorem Sound.step (h : Sound adjacency univ s) (huniv : ∀ a, ∀ b ∈ adjacency.succs a, b ∈ univ)
    (hwork : s.work ≠ []) :
    Sound adjacency univ (s.step adjacency) ∧ (∀ x ∈ s.index, x ∈ (s.step adjacency).index) ∧
      2 * unindexed univ (s.step adjacency) + (s.step adjacency).work.length <
        2 * unindexed univ s + s.work.length := by
  unfold CycleScan.step
  cases hw : s.work with
  | nil => exact absurd hw hwork
  | cons p work =>
    obtain ⟨node, successors⟩ := p
    have hstart : Sound adjacency univ { s with work := (node, successors) :: work } := by
      rw [← hw]
      exact h
    obtain ⟨hindex, hres⟩ := sound_scanSuccessors node work successors s hstart
    dsimp only
    rcases hscan : scanSuccessors node successors s with ⟨s', found⟩
    rw [hscan] at hindex hres
    dsimp only at hindex hres
    cases found with
    | none =>
      have hfinish : Sound adjacency univ
          (({ s' with work := work } : CycleScan).finish adjacency node) := hres.finish rfl
      refine ⟨hfinish, fun x hx => ?_, ?_⟩
      · rw [index_finish]
        show x ∈ s'.index
        rw [hindex]
        exact hx
      · rw [work_finish, List.length_cons]
        have hun : unindexed univ (({ s' with work := work } : CycleScan).finish adjacency node) =
            unindexed univ s := by
          rw [unindexed, index_finish, unindexed]
          show (univ.filter fun x => x ∉ s'.index).card = _
          rw [hindex]
        rw [hun]
        show 2 * unindexed univ s + work.length < _
        omega
    | some next =>
      obtain ⟨succ, rest⟩ := next
      dsimp only at hres ⊢
      obtain ⟨hsucc, hsound⟩ := hres
      have hin : succ ∉ ({ s' with work := (node, succ :: rest) :: work } : CycleScan).index := by
        show succ ∉ s'.index
        rw [hindex]
        exact hsucc
      refine ⟨hsound.advance rfl hin huniv, fun x hx => ?_, ?_⟩
      · rw [mem_index_visit]
        refine Or.inr ?_
        show x ∈ s'.index
        rw [hindex]
        exact hx
      · have hmem : succ ∈ univ := hsound.bounded _ List.mem_cons_self succ List.mem_cons_self
        have hcount := Search.card_filter_not_succ
          (fun x => mem_index_visit adjacency { s' with work := (node, rest) :: work } succ x)
          hmem hin
        have hsame : (univ.filter fun x =>
            x ∉ ({ s' with work := (node, rest) :: work } : CycleScan).index).card =
              unindexed univ s := by
          show (univ.filter fun x => x ∉ s'.index).card = _
          rw [hindex, unindexed]
        rw [hsame] at hcount
        show 2 * (univ.filter fun x => x ∉ (CycleScan.visit adjacency _ succ).index).card +
          (work.length + 1 + 1) < 2 * unindexed univ s + (work.length + 1)
        omega

/-- **The outer loop** empties the work list when it has fuel for the nodes still to be indexed. -/
theorem Sound.drain (huniv : ∀ a, ∀ b ∈ adjacency.succs a, b ∈ univ) (fuel : ℕ) {s : CycleScan}
    (h : Sound adjacency univ s) (hfuel : 2 * unindexed univ s + s.work.length ≤ fuel) :
    Sound adjacency univ (s.drain adjacency fuel) ∧ (s.drain adjacency fuel).work = [] ∧
      ∀ x ∈ s.index, x ∈ (s.drain adjacency fuel).index := by
  induction fuel generalizing s with
  | zero =>
    have hwork : s.work = [] := List.eq_nil_of_length_eq_zero (by omega)
    exact ⟨h, hwork, fun x hx => hx⟩
  | succ fuel ih =>
    rw [CycleScan.drain]
    split
    · next hwork => exact ⟨h, hwork, fun x hx => hx⟩
    · next hwork =>
      obtain ⟨hstep, hindex, hlt⟩ := h.step huniv hwork
      obtain ⟨hsound, hempty, hkeep⟩ := ih hstep (by omega)
      exact ⟨hsound, hempty, fun x hx => hkeep x (hindex x hx)⟩

theorem Sound.scanRoot (huniv : ∀ a, ∀ b ∈ adjacency.succs a, b ∈ univ)
    (hcard : univ.card ≤ (adjacencyNodes adjacency).length) {s : CycleScan}
    (h : Sound adjacency univ s) (hwork : s.work = []) (root : String) :
    Sound adjacency univ (s.scanRoot adjacency root) ∧ (s.scanRoot adjacency root).work = [] ∧
      root ∈ (s.scanRoot adjacency root).index ∧
      ∀ x ∈ s.index, x ∈ (s.scanRoot adjacency root).index := by
  unfold CycleScan.scanRoot
  split
  · next hin => exact ⟨h, hwork, hin, fun x hx => hx⟩
  · next hin =>
    have hvisit := h.visit hin (huniv root) fun _ => by rw [hwork]; trivial
    have hle : unindexed univ (s.visit adjacency root) ≤ univ.card := Finset.card_filter_le _ _
    have hlen : (s.visit adjacency root).work.length = 1 := by
      show (s.work.length + 1) = 1
      rw [hwork, List.length_nil]
    obtain ⟨hsound, hempty, hkeep⟩ := hvisit.drain huniv
      (2 * (adjacencyNodes adjacency).length + 2) (by omega)
    have hin' := mem_index_visit adjacency s root
    exact ⟨hsound, hempty, hkeep root ((hin' root).mpr (Or.inl rfl)),
      fun x hx => hkeep x ((hin' x).mpr (Or.inr hx))⟩

theorem Sound.scanRoots (huniv : ∀ a, ∀ b ∈ adjacency.succs a, b ∈ univ)
    (hcard : univ.card ≤ (adjacencyNodes adjacency).length) (roots : List String)
    {s : CycleScan} (h : Sound adjacency univ s)
    (hwork : s.work = []) :
    Sound adjacency univ (roots.foldl (CycleScan.scanRoot adjacency) s) ∧
      (roots.foldl (CycleScan.scanRoot adjacency) s).work = [] ∧
      (∀ r ∈ roots, r ∈ (roots.foldl (CycleScan.scanRoot adjacency) s).index) ∧
      ∀ x ∈ s.index, x ∈ (roots.foldl (CycleScan.scanRoot adjacency) s).index := by
  induction roots generalizing s with
  | nil => exact ⟨h, hwork, nofun, fun x hx => hx⟩
  | cons r roots ih =>
    obtain ⟨hsound, hempty, hin, hkeep⟩ := h.scanRoot huniv hcard hwork r
    obtain ⟨hs, hw, hall, hrest⟩ := ih hsound hempty
    refine ⟨hs, hw, fun x hx => ?_, fun x hx => hrest x (hkeep x hx)⟩
    rcases List.mem_cons.mp hx with rfl | hx
    · exact hrest x hin
    · exact hall x hx

theorem sound_init (univ : Finset String) : Sound adjacency univ {} := by
  refine ⟨⟨?_, ?_, ?_, ?_, ?_, ?_, ?_, ?_⟩, Or.inr ⟨rfl, ?_, ?_, trivial⟩, ?_⟩
  · intro x
    simp
  · exact List.Sublist.refl _
  · rfl
  · exact nofun
  · exact List.Pairwise.nil
  · exact nofun
  · exact nofun
  · exact nofun
  · exact fun x hx => absurd hx.1 Std.ExtTreeMap.not_mem_empty
  · exact fun x hx => absurd hx.1 Std.ExtTreeMap.not_mem_empty
  · exact nofun

end CycleScan

/-! ## 6. The report -/

theorem mem_adjacencyNodes_of_mem_succs {adjacency : Adjacency} {a b : String}
    (h : b ∈ adjacency.succs a) : b ∈ adjacencyNodes adjacency := by
  rw [Adjacency.succs, Dict.getD_eq] at h
  cases ha : adjacency[a]? with
  | none => rw [ha] at h; exact nomatch h
  | some bs =>
    rw [ha, Option.getD_some] at h
    refine List.mem_flatMap.mpr ⟨(a, bs), ?_, List.mem_cons_of_mem _ h⟩
    exact Std.ExtTreeMap.mem_toList_iff_getElem?_eq_some.mpr ha

/-- **An empty report means that no node reaches itself by forward edges.** -/
theorem acc_of_forwardCycles_eq_nil {adjacency : Adjacency} (h : forwardCycles adjacency = []) :
    WellFounded fun b a => Search.Edge adjacency.succs a b := by
  have huniv : ∀ a, ∀ b ∈ adjacency.succs a, b ∈ (adjacencyNodes adjacency).toFinset :=
    fun a b hb => List.mem_toFinset.mpr (mem_adjacencyNodes_of_mem_succs hb)
  obtain ⟨hsound, hwork, hall, -⟩ := CycleScan.Sound.scanRoots huniv
    (List.toFinset_card_le _) adjacency.keys
    (CycleScan.sound_init _) rfl
  have hcomp : (adjacency.keys.foldl (CycleScan.scanRoot adjacency) {}).components = [] := by
    rw [forwardCycles] at h
    have hperm := List.perm_insertionSort (· ≤ ·)
      (adjacency.keys.foldl (CycleScan.scanRoot adjacency) {}).components
    rw [h] at hperm
    exact hperm.symm.eq_nil
  have hpath : (adjacency.keys.foldl (CycleScan.scanRoot adjacency) {}).path = [] := by
    rw [CycleScan.path, hwork, List.map_nil]
  have hstack : (adjacency.keys.foldl (CycleScan.scanRoot adjacency) {}).stack = [] := by
    have hbottom := hsound.consistent.same_bottom
    rw [hpath, List.getLast?_nil] at hbottom
    exact List.getLast?_eq_none_iff.mp hbottom
  have hclean : (adjacency.keys.foldl (CycleScan.scanRoot adjacency) {}).Clean adjacency := by
    rcases hsound.verdict with (hne | ⟨x, hx, -⟩ | ⟨x, hx, -⟩) | hclean
    · exact absurd hcomp hne
    · rw [hstack] at hx; exact nomatch hx
    · rw [hpath] at hx; exact nomatch hx
    · exact hclean
  refine ⟨fun x => ?_⟩
  by_cases hx : x ∈ adjacency.keys
  · exact hclean.closed_acc x ⟨hall x hx, by rw [hstack]; exact List.not_mem_nil⟩
  · refine Acc.intro x fun y hy => ?_
    -- a node that is no key has no successors
    have hnone : adjacency[x]? = none := by
      rw [← Dict.notMem_iff_get?, ← Std.ExtTreeMap.mem_keys]
      exact hx
    rw [Search.Edge, Adjacency.succs, Dict.getD_eq, hnone] at hy
    exact nomatch hy

end Kroker
