import Kroker.Library.Members
import Mathlib.Data.List.Lex
import Mathlib.Data.List.Perm.Subperm
import Mathlib.Data.Prod.Lex

/-!
# Breadth-first search for paths

A search that keeps, for each node it meets, the first path to it, and whose queue holds the paths
whose successors have not been looked at.  The graph is a successor function `succs`, whose lists
are sorted.

Paths are compared by `rank`: the shorter first, and of equally long ones the lexicographically
lesser.  The queue is sorted by it (`Found.sorted`), because what is appended to a lesser path is
less (`rank_snoc_lt`).  So the first path that reaches a node is the least to it
(`Found.least_snoc`): any other path to it leaves the nodes that are known at a path that is still
in the queue.
-/

namespace Kroker.ShortestPaths

variable {α : Type} [LinearOrder α]

/-! ## 1.  The search -/

section Code

variable (succs : α → List α) (depth : ℕ)

/-- The paths found, by their last node, and the queue. -/
abbrev State (α : Type) := List (α × List α) × List (List α)

/-- One successor of the last node of `path`. -/
def visit (path : List α) (st : State α) (n : α) : State α :=
  if n ∈ path then st
  else
    match Members.get? st.1 n with
    | none => (Members.set st.1 n (path ++ [n]), st.2 ++ [path ++ [n]])
    | some known =>
      if (path ++ [n]).length < known.length then
        (Members.set st.1 n (path ++ [n]), st.2 ++ [path ++ [n]])
      else st

/-- The successors of the last node. -/
def nexts (path : List α) : List α := path.getLast?.elim [] succs

/-- The loop over the queue; `none` if the fuel does not last. -/
def search : ℕ → List (α × List α) → List (List α) → Option (List (α × List α))
  | _, best, [] => some best
  | 0, _, _ :: _ => none
  | fuel + 1, best, path :: queue =>
    if depth ≤ path.length - 1 then search fuel best queue
    else
      let st := (nexts succs path).foldl (visit path) (best, queue)
      search fuel st.1 st.2

end Code

/-! ## 2.  Paths -/

/-- A path from `o` to the node, which is its last. -/
inductive PathTo {α : Type} (succs : α → List α) (o : α) : α → List α → Prop
  | start : PathTo succs o o [o]
  | step {t n : α} {p : List α} (h : PathTo succs o t p) (hn : n ∈ succs t) :
      PathTo succs o n (p ++ [n])

section Paths

variable {α : Type} {succs : α → List α} {o t n : α} {p q : List α}

theorem PathTo.getLast? (h : PathTo succs o t p) : p.getLast? = some t := by
  cases h with
  | start => rfl
  | step h hn => exact List.getLast?_concat

theorem PathTo.end_unique (h : PathTo succs o t p) (h' : PathTo succs o n p) : t = n :=
  Option.some.inj (h.getLast?.symm.trans h'.getLast?)

theorem PathTo.nexts (h : PathTo succs o t p) : nexts succs p = succs t := by
  rw [ShortestPaths.nexts, h.getLast?]
  rfl

theorem PathTo.mono {succs' : α → List α} (hsub : ∀ t, ∀ n ∈ succs t, n ∈ succs' t)
    (h : PathTo succs o t p) : PathTo succs' o t p := by
  induction h with
  | start => exact .start
  | step h hn ih => exact ih.step (hsub _ _ hn)

theorem PathTo.origin_mem (h : PathTo succs o t p) : o ∈ p := by
  induction h with
  | start => exact List.mem_singleton_self o
  | step h hn ih => exact List.mem_append_left _ ih

theorem PathTo.head? (h : PathTo succs o t p) : p.head? = some o := by
  induction h with
  | start => rfl
  | step h hn ih => rw [List.head?_append, ih, Option.some_or]

theorem PathTo.exists_prefix (h : PathTo succs o t p) (hn : n ∈ p) :
    ∃ q, PathTo succs o n q ∧ q.length ≤ p.length := by
  induction h with
  | start => exact ⟨[o], by rw [List.mem_singleton.mp hn]; exact .start, le_rfl⟩
  | @step t m p h hm ih =>
    rw [List.length_append, List.length_singleton]
    rcases List.mem_append.mp hn with hn | hn
    · obtain ⟨q, hq, hle⟩ := ih hn
      exact ⟨q, hq, Nat.le_succ_of_le hle⟩
    · rw [List.mem_singleton.mp hn]
      exact ⟨p ++ [m], h.step hm, by rw [List.length_append, List.length_singleton]⟩

theorem PathTo.length_pos (h : PathTo succs o t p) : 0 < p.length :=
  List.length_pos_of_mem h.origin_mem

theorem PathTo.two_le (h : PathTo succs o t p) (hne : t ≠ o) : 2 ≤ p.length := by
  cases h with
  | start => exact absurd rfl hne
  | step h hn =>
    have := h.length_pos
    rw [List.length_append, List.length_singleton]
    omega

end Paths

/-! ## 3.  Their order -/

/-- What paths are compared by. -/
def rank (p : List α) : ℕ ×ₗ List α := toLex (p.length, p)

theorem rank_lt_iff {p q : List α} :
    rank p < rank q ↔ p.length < q.length ∨ p.length = q.length ∧ p < q := by
  rw [rank, rank, Prod.Lex.toLex_lt_toLex]

theorem rank_le_iff {p q : List α} :
    rank p ≤ rank q ↔ p.length < q.length ∨ p.length = q.length ∧ p ≤ q := by
  rw [rank, rank, Prod.Lex.toLex_le_toLex]

omit [LinearOrder α] in
theorem eq_of_rank_eq {p q : List α} (h : rank p = rank q) : p = q :=
  congrArg Prod.snd (toLex.injective h)

theorem length_le_of_rank_le {p q : List α} (h : rank p ≤ rank q) : p.length ≤ q.length := by
  rcases rank_le_iff.mp h with h | h
  · exact h.le
  · exact h.1.le

theorem rank_lt_snoc (p : List α) (n : α) : rank p < rank (p ++ [n]) :=
  rank_lt_iff.mpr (.inl (by simp))

theorem append_lt_append {p q : List α} (hlength : p.length = q.length) (h : p < q)
    (r s : List α) : p ++ r < q ++ s := by
  induction p generalizing q with
  | nil =>
    obtain rfl := List.length_eq_zero_iff.mp hlength.symm
    exact absurd h (lt_irrefl _)
  | cons a p ih =>
    obtain ⟨b, q, rfl⟩ := List.exists_cons_of_length_pos
      (Nat.lt_of_lt_of_eq (Nat.succ_pos p.length) hlength)
    rw [List.cons_append, List.cons_append, List.cons_lt_cons_iff]
    rcases List.cons_lt_cons_iff.mp h with hab | ⟨hab, hpq⟩
    · exact .inl hab
    · exact .inr ⟨hab, ih (Nat.succ.inj hlength) hpq⟩

/-- **What is appended to a lesser path is less.** -/
theorem rank_snoc_lt {p q : List α} (h : rank p < rank q) (m n : α) :
    rank (p ++ [m]) < rank (q ++ [n]) := by
  rw [rank_lt_iff] at h ⊢
  rw [List.length_append, List.length_append]
  rcases h with h | ⟨hlength, h⟩
  · exact .inl (by simpa using h)
  · exact .inr ⟨by simpa using hlength, append_lt_append hlength h _ _⟩

theorem rank_snoc_le {p q : List α} (h : rank p ≤ rank q) (n : α) :
    rank (p ++ [n]) ≤ rank (q ++ [n]) := by
  rcases h.lt_or_eq with hlt | heq
  · exact (rank_snoc_lt hlt n n).le
  · rw [eq_of_rank_eq heq]

theorem rank_snoc_lt_snoc (p : List α) {m n : α} (h : m < n) :
    rank (p ++ [m]) < rank (p ++ [n]) := by
  refine rank_lt_iff.mpr (.inr ⟨by simp, List.append_left_lt ?_⟩)
  exact List.cons_lt_cons_iff.mpr (.inl h)

section Least

variable {succs : α → List α} {o t n : α} {p q : List α}

structure Least (succs : α → List α) (o t : α) (p : List α) : Prop where
  path : PathTo succs o t p
  le : ∀ q, PathTo succs o t q → rank p ≤ rank q

/-- **The least path** is a shortest one, and lexicographically the least of these. -/
theorem least_iff : Least succs o t p ↔ PathTo succs o t p ∧
    (∀ q, PathTo succs o t q → p.length ≤ q.length) ∧
      ∀ q, PathTo succs o t q → q.length = p.length → p ≤ q := by
  constructor
  · intro h
    refine ⟨h.path, fun q hq => length_le_of_rank_le (h.le q hq), fun q hq hlength => ?_⟩
    rcases rank_le_iff.mp (h.le q hq) with hlt | ⟨-, hle⟩
    · omega
    · exact hle
  · rintro ⟨hpath, hshort, hlex⟩
    refine ⟨hpath, fun q hq => rank_le_iff.mpr ?_⟩
    rcases (hshort q hq).lt_or_eq with hlt | heq
    · exact .inl hlt
    · exact .inr ⟨heq, hlex q hq heq.symm⟩

theorem Least.unique (h : Least succs o t p) (h' : Least succs o t q) : p = q :=
  eq_of_rank_eq (le_antisymm (h.le q h'.path) (h'.le p h.path))

/-- **The least path passes through no node twice.** -/
theorem Least.nodup (h : Least succs o t p) : p.Nodup := by
  obtain ⟨hpath, hle⟩ := h
  induction hpath with
  | start => exact List.nodup_singleton o
  | @step t n p hpath hn ih =>
    have hfront : ∀ q, PathTo succs o t q → rank p ≤ rank q := by
      intro q hq
      by_contra hlt
      exact absurd (hle _ (hq.step hn)) (not_le.mpr (rank_snoc_lt (not_le.mp hlt) n n))
    refine (ih hfront).append (List.nodup_singleton n) (List.disjoint_singleton.mpr fun hmem => ?_)
    obtain ⟨q, hq, hshort⟩ := hpath.exists_prefix hmem
    have := length_le_of_rank_le (hle q hq)
    rw [List.length_append, List.length_singleton] at this
    omega

theorem least_origin : Least succs o o [o] := by
  refine ⟨.start, fun q hq => rank_le_iff.mpr ?_⟩
  cases hq with
  | start => exact .inr ⟨rfl, le_rfl⟩
  | step h hn => exact .inl (by simp [h.length_pos])

end Least

/-! ## 4.  What has been found -/

section Found

variable (succs : α → List α) (depth : ℕ) (o : α)

/-- What holds of the paths found, of which those in `done` have been looked at. -/
structure Found (done queue : List (List α)) (best : List (α × List α)) : Prop where
  least : ∀ p ∈ done ++ queue, ∃ t, Least succs o t p
  origin : [o] ∈ done ++ queue
  nodup : (best.map Prod.fst).Nodup
  best_iff : ∀ t p, Members.get? best t = some p ↔
    p ∈ done ++ queue ∧ Least succs o t p ∧ t ≠ o
  nodes : ∀ p ∈ done ++ queue, ∀ m ∈ p, ∃ q ∈ done ++ queue, Least succs o m q
  sorted : (done ++ queue).Pairwise (rank · < rank ·)
  short : ∀ p ∈ done ++ queue, p.length ≤ depth + 1
  closed : ∀ p ∈ done, p.length ≤ depth → ∀ t, PathTo succs o t p → ∀ n ∈ succs t,
    ∃ q ∈ done ++ queue, Least succs o n q

/-- What is found is less than anything the queue leads to. -/
def Ahead (found queue : List (List α)) : Prop :=
  ∀ f ∈ found, ∀ p ∈ queue, ∀ n, rank f < rank (p ++ [n])

end Found

section Step

variable {succs : α → List α} {depth : ℕ} {o t n : α} {done queue : List (List α)}
  {p : List α} {best : List (α × List α)}

section

variable (h : Found succs depth o done (p :: queue) best)

include h

theorem Found.leaves (hdepth : p.length ≤ depth)
    {r : α} {path : List α} (hpath : PathTo succs o r path)
    (hnew : ¬∃ q ∈ done ++ p :: queue, Least succs o r q) :
    ∃ t front, path = front ++ [r] ∧ PathTo succs o t front ∧ rank p ≤ rank front := by
  induction hpath with
  | start => exact absurd ⟨[o], h.origin, least_origin⟩ hnew
  | @step t n front hfront hn ih =>
    refine ⟨t, front, rfl, hfront, ?_⟩
    by_cases hknown : ∃ q ∈ done ++ p :: queue, Least succs o t q
    · obtain ⟨q, hq, hleast⟩ := hknown
      have hle := hleast.le front hfront
      obtain ⟨-, hrest, hbefore⟩ := List.pairwise_append.mp h.sorted
      rcases List.mem_append.mp hq with hq | hq
      · -- A path that has been looked at leads to known nodes only.
        have hlt := hbefore q hq p List.mem_cons_self
        exact absurd (h.closed q hq ((length_le_of_rank_le hlt.le).trans hdepth) t hleast.path n hn)
          hnew
      · rcases List.mem_cons.mp hq with rfl | hq
        · exact hle
        · exact ((List.pairwise_cons.mp hrest).1 q hq).le.trans hle
    · obtain ⟨t', front', rfl, hfront', hle⟩ := ih hknown
      exact hle.trans (rank_lt_snoc front' t).le

/-- **The first path that reaches a node is the least.** -/
theorem Found.least_snoc
    (hdepth : p.length ≤ depth) (hpath : PathTo succs o t p) (hn : n ∈ succs t)
    (hnew : ¬∃ q ∈ done ++ p :: queue, Least succs o n q) : Least succs o n (p ++ [n]) := by
  refine ⟨hpath.step hn, fun path hto => ?_⟩
  obtain ⟨t', front, rfl, hfront, hle⟩ := h.leaves hdepth hto hnew
  exact rank_snoc_le hle n

/-- A node that is reached for the first time. -/
theorem Found.add (hdepth : p.length ≤ depth)
    (hleast : Least succs o n (p ++ [n])) (hnew : ¬∃ q ∈ done ++ p :: queue, Least succs o n q)
    (hlast : ∀ f ∈ done ++ p :: queue, rank f < rank (p ++ [n])) :
    Found succs depth o done (p :: (queue ++ [p ++ [n]])) (Members.set best n (p ++ [n])) := by
  have hsplit : done ++ p :: (queue ++ [p ++ [n]]) = (done ++ p :: queue) ++ [p ++ [n]] := by
    rw [List.append_assoc, List.cons_append]
  have hmem : ∀ {q : List α}, q ∈ done ++ p :: (queue ++ [p ++ [n]]) ↔
      q ∈ done ++ p :: queue ∨ q = p ++ [n] := by
    intro q
    rw [hsplit, List.mem_append, List.mem_singleton]
  have horigin : n ≠ o := by
    rintro rfl
    exact hnew ⟨[n], h.origin, least_origin⟩
  have hp : p ∈ done ++ p :: queue := List.mem_append_right _ List.mem_cons_self
  refine { least := ?_, origin := hmem.mpr (.inl h.origin), nodup := Members.nodup_set h.nodup _ _,
           best_iff := ?_, nodes := ?_, sorted := ?_, short := ?_, closed := ?_ }
  · intro q hq
    rcases hmem.mp hq with hq | rfl
    · exact h.least q hq
    · exact ⟨n, hleast⟩
  · intro t q
    rw [Members.get?_set]
    by_cases hn : n = t
    · subst hn
      rw [if_pos rfl, Option.some.injEq]
      constructor
      · rintro rfl
        exact ⟨hmem.mpr (.inr rfl), hleast, horigin⟩
      · rintro ⟨-, hq, -⟩
        exact hleast.unique hq
    · rw [if_neg hn, h.best_iff, hmem]
      refine and_congr_left fun hq => ⟨.inl, fun hor => hor.resolve_right ?_⟩
      rintro rfl
      exact hn (hleast.path.end_unique hq.1.path)
  · intro q hq m hm
    rcases hmem.mp hq with hq | rfl
    · obtain ⟨q', hq', hleast'⟩ := h.nodes q hq m hm
      exact ⟨q', hmem.mpr (.inl hq'), hleast'⟩
    · rcases List.mem_append.mp hm with hm | hm
      · obtain ⟨q', hq', hleast'⟩ := h.nodes p hp m hm
        exact ⟨q', hmem.mpr (.inl hq'), hleast'⟩
      · rw [List.mem_singleton.mp hm]
        exact ⟨p ++ [n], hmem.mpr (.inr rfl), hleast⟩
  · rw [hsplit, List.pairwise_append]
    refine ⟨h.sorted, List.pairwise_singleton _ _, fun f hf q hq => ?_⟩
    rw [List.mem_singleton.mp hq]
    exact hlast f hf
  · intro q hq
    rcases hmem.mp hq with hq | rfl
    · exact h.short q hq
    · simpa using hdepth
  · intro q hq hlength t hpath m hm
    obtain ⟨q', hq', hleast'⟩ := h.closed q hq hlength t hpath m hm
    exact ⟨q', hmem.mpr (.inl hq'), hleast'⟩

theorem Found.shift
    (hclosed : p.length ≤ depth → ∀ t, PathTo succs o t p → ∀ n ∈ succs t,
      ∃ q ∈ done ++ p :: queue, Least succs o n q) :
    Found succs depth o (done ++ [p]) queue best := by
  have hsplit : (done ++ [p]) ++ queue = done ++ p :: queue := by
    rw [List.append_assoc, List.singleton_append]
  refine { least := hsplit ▸ h.least, origin := hsplit ▸ h.origin, nodup := h.nodup,
           best_iff := hsplit ▸ h.best_iff, nodes := hsplit ▸ h.nodes,
           sorted := hsplit ▸ h.sorted, short := hsplit ▸ h.short, closed := ?_ }
  rw [hsplit]
  intro q hq hlength
  rcases List.mem_append.mp hq with hq | hq
  · exact h.closed q hq hlength
  · rw [List.mem_singleton.mp hq] at hlength ⊢
    exact hclosed hlength

theorem Found.visit_eq
    (hpath : PathTo succs o t p) (hn : n ∈ succs t) :
    (∃ q ∈ done ++ p :: queue, Least succs o n q) ∧ visit p (best, queue) n = (best, queue) ∨
      (¬∃ q ∈ done ++ p :: queue, Least succs o n q) ∧ visit p (best, queue) n =
        (Members.set best n (p ++ [n]), queue ++ [p ++ [n]]) := by
  rw [visit]
  split_ifs with hmem
  · exact .inl ⟨h.nodes p (List.mem_append_right _ List.mem_cons_self) n hmem, rfl⟩
  · cases hget : Members.get? best n with
    | none =>
      refine .inr ⟨?_, rfl⟩
      rintro ⟨q, hq, hleast⟩
      by_cases horigin : n = o
      · exact hmem (horigin ▸ hpath.origin_mem)
      · rw [(h.best_iff n q).mpr ⟨hq, hleast, horigin⟩] at hget
        exact Option.some_ne_none q hget
    | some q =>
      obtain ⟨hq, hleast, -⟩ := (h.best_iff n q).mp hget
      refine .inl ⟨⟨q, hq, hleast⟩, ?_⟩
      have hle := length_le_of_rank_le (hleast.le _ (hpath.step hn))
      exact if_neg (not_lt.mpr hle)

end

/-- What holds while the successors of `p` are gone through, of which `rest` are left. -/
structure Scan (succs : α → List α) (depth : ℕ) (o : α) (done : List (List α)) (p : List α)
    (queue : List (List α)) (best : List (α × List α)) (rest : List α) : Prop where
  found : Found succs depth o done (p :: queue) best
  ahead : Ahead (done ++ p :: queue) queue
  next : ∀ f ∈ done ++ p :: queue, ∀ n ∈ rest, rank f < rank (p ++ [n])

/-- **Going through the successors** leaves each of them known. -/
theorem Scan.foldl {rest : List α} (h : Scan succs depth o done p queue best rest)
    (hdepth : p.length ≤ depth) (hpath : PathTo succs o t p) (hrest : ∀ n ∈ rest, n ∈ succs t)
    (hsorted : rest.Pairwise (· < ·)) :
    ∃ best' queue', rest.foldl (visit p) (best, queue) = (best', queue') ∧
      Scan succs depth o done p queue' best' [] ∧
      (∀ q ∈ done ++ p :: queue, q ∈ done ++ p :: queue') ∧
      ∀ n ∈ rest, ∃ q ∈ done ++ p :: queue', Least succs o n q := by
  induction rest generalizing queue best with
  | nil => exact ⟨best, queue, rfl, h, fun q hq => hq, fun n hn => nomatch hn⟩
  | cons n rest ih =>
    obtain ⟨hfirst, hsorted⟩ := List.pairwise_cons.mp hsorted
    rw [List.forall_mem_cons] at hrest
    rcases h.found.visit_eq hpath hrest.1 with ⟨⟨q, hq, hleast⟩, hvisit⟩ | ⟨hnew, hvisit⟩
    · have hscan : Scan succs depth o done p queue best rest :=
        ⟨h.found, h.ahead, fun f hf m hm => h.next f hf m (List.mem_cons_of_mem _ hm)⟩
      obtain ⟨best', queue', hfold, hscan', hkept, hknown⟩ := ih hscan hrest.2 hsorted
      refine ⟨best', queue', by rw [List.foldl_cons, hvisit, hfold], hscan', hkept, ?_⟩
      exact List.forall_mem_cons.mpr ⟨⟨q, hkept q hq, hleast⟩, hknown⟩
    · have hlast := fun f hf => h.next f hf n List.mem_cons_self
      have hleast := h.found.least_snoc hdepth hpath hrest.1 hnew
      have hmem : ∀ {q : List α}, q ∈ done ++ p :: (queue ++ [p ++ [n]]) →
          q ∈ done ++ p :: queue ∨ q = p ++ [n] := by
        intro q hq
        rwa [← List.cons_append, ← List.append_assoc, List.mem_append, List.mem_singleton] at hq
      have hscan : Scan succs depth o done p (queue ++ [p ++ [n]])
          (Members.set best n (p ++ [n])) rest := by
        refine ⟨h.found.add hdepth hleast hnew hlast, fun f hf q hq m => ?_, fun f hf m hm => ?_⟩
        · rcases List.mem_append.mp hq with hq | hq
          · rcases hmem hf with hf | rfl
            · exact h.ahead f hf q hq m
            · have hbefore := (List.pairwise_append.mp h.found.sorted).2.1
              exact rank_snoc_lt ((List.pairwise_cons.mp hbefore).1 q hq) n m
          · rw [List.mem_singleton.mp hq]
            rcases hmem hf with hf | rfl
            · exact (hlast f hf).trans (rank_lt_snoc _ m)
            · exact rank_lt_snoc _ m
        · rcases hmem hf with hf | rfl
          · exact h.next f hf m (List.mem_cons_of_mem _ hm)
          · exact rank_snoc_lt_snoc p (hfirst m hm)
      obtain ⟨best', queue', hfold, hscan', hkept, hknown⟩ := ih hscan hrest.2 hsorted
      have hgrown : ∀ q ∈ done ++ p :: queue, q ∈ done ++ p :: (queue ++ [p ++ [n]]) := by
        intro q hq
        rw [← List.cons_append, ← List.append_assoc]
        exact List.mem_append_left _ hq
      refine ⟨best', queue', by rw [List.foldl_cons, hvisit, hfold], hscan',
        fun q hq => hkept q (hgrown q hq), List.forall_mem_cons.mpr ⟨⟨p ++ [n], ?_, hleast⟩,
          hknown⟩⟩
      refine hkept _ ?_
      rw [← List.cons_append, ← List.append_assoc]
      exact List.mem_append_right _ (List.mem_singleton_self _)

end Step

/-! ## 5.  The search ends -/

section Run

variable {succs : α → List α} {depth : ℕ} {o : α} {nodes : List α}

omit [LinearOrder α] in
theorem PathTo.end_mem {t : α} {p : List α} (h : PathTo succs o t p) (ho : o ∈ nodes)
    (hnodes : ∀ t, ∀ n ∈ succs t, n ∈ nodes) : t ∈ nodes := by
  cases h with
  | start => exact ho
  | step hfront hn => exact hnodes _ t hn

variable {done : List (List α)} {best : List (α × List α)}

theorem Found.length_le {queue : List (List α)} (h : Found succs depth o done queue best)
    (ho : o ∈ nodes) (hnodes : ∀ t, ∀ n ∈ succs t, n ∈ nodes) :
    (done ++ queue).length ≤ nodes.length := by
  have hnodup : ((done ++ queue).map List.getLast?).Nodup := by
    refine List.Nodup.map_on ?_ (h.sorted.imp fun hlt heq => hlt.ne (congrArg rank heq))
    intro p hp q hq heq
    obtain ⟨t, hleast⟩ := h.least p hp
    obtain ⟨t', hleast'⟩ := h.least q hq
    rw [hleast.path.getLast?, hleast'.path.getLast?, Option.some.injEq] at heq
    subst heq
    exact hleast.unique hleast'
  have hsubset : (done ++ queue).map List.getLast? ⊆ nodes.map some := by
    intro e he
    obtain ⟨p, hp, rfl⟩ := List.mem_map.mp he
    obtain ⟨t, hleast⟩ := h.least p hp
    rw [hleast.path.getLast?]
    exact List.mem_map_of_mem (hleast.path.end_mem ho hnodes)
  have hle := (List.Nodup.subperm hnodup hsubset).length_le
  rwa [List.length_map, List.length_map] at hle

/-- **One path is looked at.** -/
theorem Found.next {queue : List (List α)} {p : List α}
    (h : Found succs depth o done (p :: queue) best)
    (hahead : Ahead (done ++ p :: queue) (p :: queue)) (hsorted : ∀ t, (succs t).Pairwise (· < ·))
    (fuel : ℕ) :
    ∃ best' queue', search succs depth (fuel + 1) best (p :: queue) =
        search succs depth fuel best' queue' ∧
      Found succs depth o (done ++ [p]) queue' best' ∧
      Ahead ((done ++ [p]) ++ queue') queue' := by
  have hsplit : ∀ queue : List (List α), (done ++ [p]) ++ queue = done ++ p :: queue := by
    intro queue
    rw [List.append_assoc, List.singleton_append]
  have hrest : Ahead (done ++ p :: queue) queue := fun f hf q hq n =>
    hahead f hf q (List.mem_cons_of_mem _ hq) n
  obtain ⟨t, hleast⟩ := h.least p (List.mem_append_right _ List.mem_cons_self)
  have hpos := hleast.path.length_pos
  by_cases hdepth : depth ≤ p.length - 1
  · refine ⟨best, queue, by rw [search, if_pos hdepth], h.shift fun hle => ?_, hsplit queue ▸ hrest⟩
    omega
  · have hle : p.length ≤ depth := by omega
    have hscan : Scan succs depth o done p queue best (succs t) :=
      ⟨h, hrest, fun f hf n _ => hahead f hf p List.mem_cons_self n⟩
    obtain ⟨best', queue', hfold, hscan', -, hknown⟩ :=
      hscan.foldl hle hleast.path (fun n hn => hn) (hsorted t)
    refine ⟨best', queue', ?_, hscan'.found.shift fun _ t' hpath => ?_,
      hsplit queue' ▸ hscan'.ahead⟩
    · rw [search, if_neg hdepth, hleast.path.nexts, hfold]
    · rw [hpath.end_unique hleast.path]
      exact hknown

/-- **The search ends** when one unit of fuel a node is there. -/
theorem Found.exists_search (ho : o ∈ nodes) (hnodes : ∀ t, ∀ n ∈ succs t, n ∈ nodes)
    (hsorted : ∀ t, (succs t).Pairwise (· < ·)) {fuel : ℕ} {queue : List (List α)}
    (h : Found succs depth o done queue best) (hahead : Ahead (done ++ queue) queue)
    (hfuel : nodes.length ≤ fuel + done.length) :
    ∃ best' done', search succs depth fuel best queue = some best' ∧
      Found succs depth o done' [] best' := by
  induction fuel generalizing done queue best with
  | zero =>
    cases queue with
    | nil => exact ⟨best, done, rfl, h⟩
    | cons p queue =>
      have hle := h.length_le ho hnodes
      rw [List.length_append, List.length_cons] at hle
      omega
  | succ fuel ih =>
    cases queue with
    | nil => exact ⟨best, done, rfl, h⟩
    | cons p queue =>
      obtain ⟨best', queue', hstep, hfound, hahead'⟩ := h.next hahead hsorted fuel
      rw [hstep]
      refine ih hfound hahead' ?_
      rw [List.length_append, List.length_singleton]
      omega

theorem Found.known (h : Found succs depth o done [] best) {t : α} {path : List α}
    (hpath : PathTo succs o t path) (hlength : path.length ≤ depth + 1) :
    ∃ q ∈ done ++ [], Least succs o t q := by
  induction hpath with
  | start => exact ⟨[o], h.origin, least_origin⟩
  | @step t n front hfront hn ih =>
    rw [List.length_append, List.length_singleton] at hlength
    obtain ⟨q, hq, hleast⟩ := ih (by omega)
    rw [List.append_nil] at hq
    have hle := length_le_of_rank_le (hleast.le front hfront)
    exact h.closed q hq (by omega) t hleast.path n hn

theorem found_origin : Found succs depth o [] [[o]] [] := by
  refine { least := ?_, origin := List.mem_singleton_self _, nodup := List.nodup_nil,
           best_iff := ?_, nodes := ?_, sorted := List.pairwise_singleton _ _, short := ?_,
           closed := fun p hp => nomatch hp }
  · intro p hp
    rw [List.mem_singleton.mp hp]
    exact ⟨o, least_origin⟩
  · intro t p
    refine iff_of_false (Option.some_ne_none p).symm ?_
    rintro ⟨hp, hleast, horigin⟩
    rw [List.mem_singleton.mp hp] at hleast
    exact horigin (hleast.path.end_unique .start)
  · intro p hp m hm
    rw [List.mem_singleton.mp hp, List.mem_singleton] at hm
    exact ⟨[o], List.mem_singleton_self _, hm ▸ least_origin⟩
  · intro p hp
    rw [List.mem_singleton.mp hp]
    simp

/-- **The search finds the least paths** to the nodes within the limit, and misses no such node. -/
theorem search_spec (ho : o ∈ nodes) (hnodes : ∀ t, ∀ n ∈ succs t, n ∈ nodes)
    (hsorted : ∀ t, (succs t).Pairwise (· < ·)) {fuel : ℕ} (hfuel : nodes.length ≤ fuel) :
    ∃ best, search succs depth fuel [] [[o]] = some best ∧ (best.map Prod.fst).Nodup ∧
      (∀ t p, Members.get? best t = some p ↔
        t ≠ o ∧ Least succs o t p ∧ p.length ≤ depth + 1) ∧
      ∀ t path, t ≠ o → PathTo succs o t path → path.length ≤ depth + 1 →
        ∃ p, Members.get? best t = some p := by
  have hahead : Ahead ([] ++ [[o]]) [[o]] := by
    intro f hf p hp n
    rw [List.mem_singleton.mp hf, List.mem_singleton.mp hp]
    exact rank_lt_snoc _ n
  obtain ⟨best, done, hsearch, hfound⟩ :=
    found_origin.exists_search ho hnodes hsorted hahead (by simpa using hfuel)
  refine ⟨best, hsearch, hfound.nodup, fun t p => ?_, fun t path horigin hpath hlength => ?_⟩
  · rw [hfound.best_iff]
    constructor
    · rintro ⟨hp, hleast, horigin⟩
      exact ⟨horigin, hleast, hfound.short p hp⟩
    · rintro ⟨horigin, hleast, hlength⟩
      obtain ⟨q, hq, hleast'⟩ := hfound.known hleast.path hlength
      exact ⟨hleast.unique hleast' ▸ hq, hleast, horigin⟩
  · obtain ⟨q, hq, hleast⟩ := hfound.known hpath hlength
    exact ⟨q, (hfound.best_iff t q).mpr ⟨hq, hleast, horigin⟩⟩

end Run

end Kroker.ShortestPaths
