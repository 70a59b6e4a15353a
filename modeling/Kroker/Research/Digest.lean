import Kroker.Library.JsonTree
import Kroker.Library.Keyed
import Mathlib.Data.List.Lex

/-!
# The digest of a research brief

`verify.py` hashes the source and the claim of every grounded finding, sorted, as one list.
`merge.py` drops a grounded finding that has been seen, with its quote: what is quoted twice to the
same claim is kept twice.  So the digest tells how often each pair of a source and a claim occurs,
and not only whether it does.

* `mem_triples_mergeBriefs_iff`, `nodup_triples_mergeBriefs` --- what is merged, each once;
* `briefDigest_mergeBriefs` --- merging sees neither the order nor the grouping of the findings.
-/

namespace Kroker.Research

open JsonText

/-! ## 1.  Briefs -/

structure SubQuestion where
  id : String
  question : String
  deriving DecidableEq

structure ConsultedSource where
  url : String
  title : String := ""
  assessment : String := ""
  relevance : String := ""
  deriving DecidableEq

structure GroundedFinding where
  sourceUrl : String
  quote : String
  claim : String
  subQuestionIds : List String := []
  deriving DecidableEq

structure InferredFinding where
  reasoning : String
  claim : String
  basedOn : List String := []
  fetchedAt : Option String := none
  deriving DecidableEq

structure Contradiction where
  topic : String
  positions : List String := []
  assessment : String := ""
  unresolved : Bool := true
  deriving DecidableEq

structure Gap where
  subQuestionId : String
  whatIsMissing : String
  whyItMatters : String := ""
  deriving DecidableEq

structure ResearchBrief where
  subQuestions : List SubQuestion := []
  sourcesConsulted : List ConsultedSource := []
  groundedFindings : List GroundedFinding := []
  inferredFindings : List InferredFinding := []
  contradictions : List Contradiction := []
  gaps : List Gap := []
  summary : String := ""
  deriving DecidableEq

structure SubQuestionFinding where
  subQuestion : SubQuestion
  brief : ResearchBrief := {}
  failed : Bool := false
  error : String := ""

/-! ## 2.  The digest -/

/-- What the digest knows of a finding. -/
def GroundedFinding.pair (f : GroundedFinding) : List Char × List Char :=
  (f.sourceUrl.toList, f.claim.toList)

def ResearchBrief.pairs (b : ResearchBrief) : List (List Char × List Char) :=
  b.groundedFindings.map GroundedFinding.pair

/-- What tuples of two texts are compared by. -/
def pairKey (p : List Char × List Char) : List (List Char) := [p.1, p.2]

/-- `json.dumps` of a list of tuples of two texts. -/
def payload (pairs : List (List Char × List Char)) : List Char :=
  Tree.print ascii (.array (pairs.map fun p => .array [.string p.1, .string p.2]))

def briefDigest (sha256 : List Char → String) (b : ResearchBrief) : String :=
  sha256 (payload (sortedBy pairKey b.pairs))

theorem payload_injective : Function.Injective payload := by
  intro l l' h
  have htree := Tree.print_injective h
  rw [Tree.array.injEq] at htree
  refine List.map_injective_iff.mpr (fun p q hpq => ?_) htree
  rw [Tree.array.injEq, List.cons.injEq, List.cons.injEq, Tree.string.injEq,
    Tree.string.injEq] at hpq
  exact Prod.ext hpq.1 hpq.2.1

theorem pairKey_injective : Function.Injective pairKey := by
  intro p q h
  rw [pairKey, pairKey, List.cons.injEq, List.cons.injEq] at h
  exact Prod.ext h.1 h.2.1

/-- The texts that are hashed. -/
def payloads : Set (List Char) := Set.range payload

variable {sha256 : List Char → String}

/-- **Two briefs have one digest** if each pair occurs equally often in them. -/
theorem briefDigest_eq_iff (hsha : payloads.InjOn sha256) (a b : ResearchBrief) :
    briefDigest sha256 a = briefDigest sha256 b ↔ a.pairs.Perm b.pairs := by
  rw [briefDigest, briefDigest, hsha.eq_iff ⟨_, rfl⟩ ⟨_, rfl⟩, payload_injective.eq_iff]
  constructor
  · intro h
    exact (sortedBy_perm pairKey a.pairs).symm.trans (h ▸ sortedBy_perm pairKey b.pairs)
  · exact sortedBy_eq_of_perm pairKey_injective

/-! ## 3.  What is merged -/

/-- What a finding is dropped by when it has been seen. -/
def GroundedFinding.triple (f : GroundedFinding) : String × String × String :=
  (f.sourceUrl, f.quote, f.claim)

def SubQuestionFinding.gap (f : SubQuestionFinding) : Gap where
  subQuestionId := f.subQuestion.id
  whatIsMissing := f.subQuestion.question
  whyItMatters := "this sub-question did not complete: " ++ f.error

def completed {α : Type} (field : ResearchBrief → List α) (findings : List SubQuestionFinding) :
    List α :=
  (findings.filter fun f => !f.failed).flatMap fun f => field f.brief

def mergeBriefs (findings : List SubQuestionFinding) : ResearchBrief where
  subQuestions := findings.map SubQuestionFinding.subQuestion
  sourcesConsulted :=
    firstBy ConsultedSource.url (completed ResearchBrief.sourcesConsulted findings)
  groundedFindings :=
    firstBy GroundedFinding.triple (completed ResearchBrief.groundedFindings findings)
  inferredFindings := completed ResearchBrief.inferredFindings findings
  contradictions := completed ResearchBrief.contradictions findings
  gaps := findings.flatMap fun f => if f.failed then [f.gap] else f.brief.gaps

/-! ## 4.  The set of the pairs -/

/-- The triples that are merged are those that were found, each once. -/
theorem mem_triples_mergeBriefs_iff {findings : List SubQuestionFinding}
    {t : String × String × String} :
    t ∈ (mergeBriefs findings).groundedFindings.map GroundedFinding.triple ↔
      ∃ f ∈ findings, f.failed = false ∧
        t ∈ f.brief.groundedFindings.map GroundedFinding.triple := by
  have hcompleted {g : GroundedFinding} : g ∈ completed ResearchBrief.groundedFindings findings ↔
      ∃ f ∈ findings, f.failed = false ∧ g ∈ f.brief.groundedFindings := by
    simp only [completed, List.mem_flatMap, List.mem_filter, Bool.not_eq_true', and_assoc]
  constructor
  · intro h
    obtain ⟨g, hg, rfl⟩ := List.mem_map.mp h
    obtain ⟨f, hf, hfailed, hmem⟩ := hcompleted.mp (mem_of_mem_firstBy hg)
    exact ⟨f, hf, hfailed, List.mem_map_of_mem hmem⟩
  · rintro ⟨f, hf, hfailed, h⟩
    obtain ⟨g, hg, rfl⟩ := List.mem_map.mp h
    have hseen : g.triple ∉ [] := List.not_mem_nil
    obtain ⟨g', hg', hsame⟩ := exists_mem_firstFrom (hcompleted.mpr ⟨f, hf, hfailed, hg⟩) hseen
    exact List.mem_map.mpr ⟨g', hg', hsame⟩

theorem nodup_triples_mergeBriefs (findings : List SubQuestionFinding) :
    ((mergeBriefs findings).groundedFindings.map GroundedFinding.triple).Nodup :=
  nodup_firstFrom GroundedFinding.triple _ []

/-- **Merging sees neither the order nor the grouping** of what was found, nor what was found more
than once with its quote. -/
theorem briefDigest_mergeBriefs {findings findings' : List SubQuestionFinding}
    (h : ∀ t, (∃ f ∈ findings, f.failed = false ∧
        t ∈ f.brief.groundedFindings.map GroundedFinding.triple) ↔
      ∃ f ∈ findings', f.failed = false ∧
        t ∈ f.brief.groundedFindings.map GroundedFinding.triple) :
    briefDigest sha256 (mergeBriefs findings) = briefDigest sha256 (mergeBriefs findings') := by
  have hperm : ((mergeBriefs findings).groundedFindings.map GroundedFinding.triple).Perm
      ((mergeBriefs findings').groundedFindings.map GroundedFinding.triple) := by
    refine (List.perm_ext_iff_of_nodup (nodup_triples_mergeBriefs findings)
      (nodup_triples_mergeBriefs findings')).mpr fun t => ?_
    rw [mem_triples_mergeBriefs_iff, mem_triples_mergeBriefs_iff]
    exact h t
  have hpairs (b : ResearchBrief) : b.pairs =
      (b.groundedFindings.map GroundedFinding.triple).map
        fun t => (t.1.toList, t.2.2.toList) := by
    rw [List.map_map]
    rfl
  rw [briefDigest, briefDigest, sortedBy_eq_of_perm pairKey_injective]
  rw [hpairs, hpairs]
  exact hperm.map _

/-- **The digest depends on the set of the pairs** exactly between briefs where having the same
pairs is having each equally often. -/
theorem same_facts_iff (hsha : payloads.InjOn sha256) (a b : ResearchBrief) :
    (briefDigest sha256 a = briefDigest sha256 b ↔ ∀ p, p ∈ a.pairs ↔ p ∈ b.pairs) ↔
      ((∀ p, p ∈ a.pairs ↔ p ∈ b.pairs) → ∀ p, a.pairs.count p = b.pairs.count p) := by
  rw [briefDigest_eq_iff hsha, ← List.perm_iff_count]
  exact ⟨fun h => h.mpr, fun h => ⟨fun hperm _ => hperm.mem_iff, h⟩⟩

def sampleFinding (quote : String) : GroundedFinding where
  sourceUrl := "https://example.org"
  quote
  claim := "it rains"

/-- One claim of one source, once with these quotes each. -/
def quotedBy (quotes : List String) : ResearchBrief :=
  mergeBriefs [{ subQuestion := ⟨"q1", "Does it rain?"⟩,
                 brief := { groundedFindings := quotes.map sampleFinding } }]

/-- A second quote for the same claim changes the digest. -/
theorem quoted_twice :
    (∀ p, p ∈ (quotedBy ["rain", "it rains"]).pairs ↔ p ∈ (quotedBy ["rain"]).pairs) ∧
      briefDigest String.ofList (quotedBy ["rain", "it rains"]) ≠
        briefDigest String.ofList (quotedBy ["rain"]) := by
  refine ⟨?_, fun h => ?_⟩
  · have hpairs : (quotedBy ["rain", "it rains"]).pairs =
        [(sampleFinding "rain").pair, (sampleFinding "rain").pair] := by decide
    have hpairs' : (quotedBy ["rain"]).pairs = [(sampleFinding "rain").pair] := by decide
    intro p
    rw [hpairs, hpairs', List.mem_cons, or_iff_right_of_imp fun hp => List.mem_singleton.mpr hp]
  · have hperm := (briefDigest_eq_iff (fun _ _ _ _ => String.ofList_injective) _ _).mp h
    exact absurd hperm.length_eq (by decide)

/-- Between findings in another order the digest does not change. -/
theorem same_facts_iff_sample :
    (briefDigest String.ofList (quotedBy ["rain", "it rains"]) =
        briefDigest String.ofList (quotedBy ["it rains", "rain"]) ↔
      ∀ p, p ∈ (quotedBy ["rain", "it rains"]).pairs ↔
        p ∈ (quotedBy ["it rains", "rain"]).pairs) := by
  have hpairs : (quotedBy ["rain", "it rains"]).pairs = (quotedBy ["it rains", "rain"]).pairs := by
    decide
  refine (same_facts_iff (fun _ _ _ _ => String.ofList_injective) _ _).mpr fun _ p => ?_
  rw [hpairs]

/-- A finding that comes again, and in another place, changes nothing. -/
theorem briefDigest_mergeBriefs_sample :
    briefDigest String.ofList (quotedBy ["rain", "it rains"]) =
      briefDigest String.ofList (quotedBy ["it rains", "rain", "it rains"]) :=
  briefDigest_mergeBriefs fun t => by simp [or_comm]

end Kroker.Research
