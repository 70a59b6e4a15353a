import Mathlib

/-!
# Merging finds that overlap

A scan with a window finds a long match once at each of its windows.  A pass over the finds, in the
order of their first places, leaves out a find whose every place directly follows a place met
before; the places of a find that is left out are met all the same.

`mem_merge_iff` says what is kept, of finds that are in strict order, without the pass: a find with
a place that directly follows no place of an earlier find.
-/

namespace Kroker

variable {H P ρ : Type} [DecidableEq P]

/-- The finds that are kept, where the places `met` have been met: `pos` is the place of a hit and
`prev` the place that it directly follows. -/
def mergeFrom (pos prev : H → P) : List P → List (List H) → List (List H)
  | _, [] => []
  | met, hits :: rest =>
    if hits.all (prev · ∈ met) then mergeFrom pos prev (met ++ hits.map pos) rest
    else hits :: mergeFrom pos prev (met ++ hits.map pos) rest

def merge (pos prev : H → P) (finds : List (List H)) : List (List H) := mergeFrom pos prev [] finds

variable {pos prev : H → P} {rank : List H → ρ} [LinearOrder ρ]

theorem mem_mergeFrom_iff {finds : List (List H)} (hsorted : finds.Pairwise (rank · < rank ·))
    (met : List P) (hits : List H) : hits ∈ mergeFrom pos prev met finds ↔
      hits ∈ finds ∧ ∃ h ∈ hits, prev h ∉ met ∧
        ∀ find ∈ finds, rank find < rank hits → prev h ∉ find.map pos := by
  induction finds generalizing met with
  | nil => simp [mergeFrom]
  | cons first rest ih =>
    obtain ⟨hfirst, hrest⟩ := List.pairwise_cons.mp hsorted
    have hlater : hits ∈ mergeFrom pos prev (met ++ first.map pos) rest ↔
        hits ∈ rest ∧ ∃ h ∈ hits, prev h ∉ met ∧
          ∀ find ∈ first :: rest, rank find < rank hits → prev h ∉ find.map pos := by
      rw [ih hrest]
      refine and_congr_right fun hmem => exists_congr fun h => and_congr_right fun _ => ?_
      rw [List.mem_append, not_or, List.forall_mem_cons, and_assoc,
        forall_prop_of_true (hfirst hits hmem)]
    have hnew : (∃ h ∈ first, prev h ∉ met ∧
        ∀ find ∈ first :: rest, rank find < rank first → prev h ∉ find.map pos) ↔
        ¬first.all (prev · ∈ met) := by
      have hnone : ∀ find ∈ first :: rest, ¬rank find < rank first := by
        rw [List.forall_mem_cons]
        exact ⟨lt_irrefl _, fun find hfind => lt_asymm (hfirst find hfind)⟩
      rw [List.all_eq_true]
      push Not
      refine exists_congr fun h => and_congr_right fun _ => ?_
      rw [ne_eq, decide_eq_true_eq]
      exact and_iff_left fun find hfind hlt => absurd hlt (hnone find hfind)
    have hapart : hits ∈ rest → hits ≠ first := by
      rintro hmem rfl
      exact lt_irrefl _ (hfirst hits hmem)
    rw [mergeFrom]
    split
    · rename_i hall
      rw [hlater, List.mem_cons, or_and_right, or_iff_right]
      rintro ⟨rfl, hkept⟩
      exact hnew.mp hkept hall
    · rename_i hall
      rw [List.mem_cons, hlater, List.mem_cons, or_and_right]
      refine or_congr_left ?_
      constructor
      · rintro rfl
        exact ⟨rfl, hnew.mpr hall⟩
      · exact And.left

/-- **What is kept**: a find with a place that directly follows no place of an earlier find. -/
theorem mem_merge_iff {finds : List (List H)} (hsorted : finds.Pairwise (rank · < rank ·))
    {hits : List H} : hits ∈ merge pos prev finds ↔
      hits ∈ finds ∧ ∃ h ∈ hits,
        ∀ find ∈ finds, rank find < rank hits → prev h ∉ find.map pos := by
  rw [merge, mem_mergeFrom_iff hsorted]
  simp only [List.not_mem_nil, not_false_eq_true, true_and]

end Kroker
