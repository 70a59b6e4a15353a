import Kroker.Assessment.Verification
import Kroker.Library.Ranking
import Mathlib.Algebra.Order.Field.Rat
import Mathlib.Data.Finset.Card

/-!
# The merge of clarification questions

`merge_clarification` of `stages/clarify/merge.py`.  The questions of the supervisor and of the
probes are clamped to the dimension of their author, discarded below a floor, reduced to one of each
wording, ranked, given distinct ids and cut.

Answers are routed by id, so the ids have to be distinct, and a replay has to give the same batch.
Neither holds of every input.  A repeated id is suffixed with a counter, and the result may be an id
that another question has; and the sort key is not total, so ties are left to the order in which the
questions come.

`lower` is `str.lower`.  The floor is the float nearest to `0.3`.  `spec_ref`, which is always
absent here, is left out.
-/

namespace Kroker.Clarify

open Ranking

/-! ## 1.  The questions -/

inductive ClarificationDimension where
  | functionalIntent
  | businessSemantics
  | technicalContext
  | interfaceSpec
  | codeStructure
  | dataSemantics
  deriving DecidableEq

def ClarificationDimension.canonical : ClarificationDimension → ℕ
  | functionalIntent => 0
  | businessSemantics => 1
  | technicalContext => 2
  | interfaceSpec => 3
  | codeStructure => 4
  | dataSemantics => 5

theorem canonical_injective : Function.Injective ClarificationDimension.canonical := by
  intro d d' h
  cases d <;> cases d' <;> first | rfl | exact nomatch h

def supervisorDimensions : List ClarificationDimension := [.functionalIntent, .businessSemantics]

structure OpenQuestion where
  id : String
  question : String
  whyItMatters : String := ""
  suggestedAnswer : Option String := none
  answer : Option String := none
  dimension : Option ClarificationDimension := none
  askedBy : Option String := none
  materiality : Option ℚ := none
  evidence : Option String := none
  deriving DecidableEq

structure ClarifyRoute where
  summary : String := ""
  functionalRequirements : List String := []
  nonFunctionalRequirements : List String := []
  outOfScope : List String := []
  questions : List OpenQuestion := []

structure ProbeResult where
  dimension : ClarificationDimension
  questions : List OpenQuestion := []

structure ClarifiedRequirements where
  summary : String
  functionalRequirements : List String
  nonFunctionalRequirements : List String
  outOfScope : List String
  openQuestions : List OpenQuestion
  dimensionsProbed : List ClarificationDimension
  dropped : List OpenQuestion
  deriving DecidableEq

def materialityFloor : ℚ := 5404319552844595 / 18014398509481984

def norm (lower : String → String) (q : OpenQuestion) : String :=
  strip (String.ofList
    ((Discover.collapseBlanks false (lower (strip q.question)).toList).rdropWhile (· = '?')))

def sortKey (q : OpenQuestion) : ℚ ×ₗ ℕ ×ₗ String :=
  toLex (match q.materiality with
    | some m => -m
    | none => 1, toLex (match q.dimension with
    | some d => d.canonical
    | none => 6, q.id))

theorem id_eq_of_sortKey {q q' : OpenQuestion} (h : sortKey q = sortKey q') : q.id = q'.id :=
  congrArg (fun k => (ofLex (ofLex k).2).2) h

/-! ## 2.  The merge -/

def clampSupervisor (q : OpenQuestion) : OpenQuestion :=
  if q.dimension.any (· ∈ supervisorDimensions) then q else { q with dimension := none }

/-- `q.dimension not in grounded or q.evidence`, and the floor. -/
def admitted (grounded : Finset ClarificationDimension) (q : OpenQuestion) : Bool :=
  (!(q.dimension.any (· ∈ grounded)) || q.evidence.any (· ≠ "")) &&
    q.materiality.any (materialityFloor ≤ ·)

def front (route : ClarifyRoute) (grounded : Finset ClarificationDimension) : List OpenQuestion :=
  (route.questions.map clampSupervisor).filter (admitted grounded)

def clampProbe (probe : ProbeResult) : List OpenQuestion :=
  probe.questions.map fun q => { q with dimension := some probe.dimension }

def block (grounded : Finset ClarificationDimension) (probe : ProbeResult) : List OpenQuestion :=
  (clampProbe probe).filter (admitted grounded)

/-- `candidates`, when everything has been discarded that is. -/
def candidates (route : ClarifyRoute) (probes : List ProbeResult)
    (grounded : Finset ClarificationDimension) : List OpenQuestion :=
  (route.questions.map clampSupervisor ++ probes.flatMap clampProbe).filter (admitted grounded)

/-- An id that is met for the `n`-th time, from zero on. -/
def tag (id : String) (n : ℕ) : String := if n = 0 then id else id ++ "-" ++ toString n

/-- The loop that suffixes repeated ids; `seen` counts them. -/
def label (seen : List (String × ℕ)) : List OpenQuestion → List OpenQuestion
  | [] => []
  | q :: qs =>
    { q with id := tag q.id ((Members.get? seen q.id).getD 0) } ::
      label (Members.set seen q.id ((Members.get? seen q.id).getD 0 + 1)) qs

def mergeClarification (lower : String → String) (route : ClarifyRoute) (probes : List ProbeResult)
    (cap : ℕ) (grounded : Finset ClarificationDimension) : ClarifiedRequirements :=
  let unique := label [] (ranked (norm lower) sortKey (candidates route probes grounded))
  { summary := route.summary
    functionalRequirements := route.functionalRequirements
    nonFunctionalRequirements := route.nonFunctionalRequirements
    outOfScope := route.outOfScope
    openQuestions := unique.take cap
    dropped := unique.drop cap
    dimensionsProbed := sortedBy ClarificationDimension.canonical (probes.map (·.dimension)) }

theorem candidates_eq (route : ClarifyRoute) (probes : List ProbeResult)
    (grounded : Finset ClarificationDimension) : candidates route probes grounded =
      front route grounded ++ (probes.map (block grounded)).flatten := by
  rw [candidates, List.filter_append, List.filter_flatMap]
  rfl

/-! ## 3.  Suffixes -/

def numbered (before : List String) : List String → List (String × ℕ)
  | [] => []
  | id :: ids => (id, before.count id) :: numbered (before ++ [id]) ids

theorem mem_numbered {before ids : List String} {id : String} {n : ℕ} :
    (id, n) ∈ numbered before ids ↔ before.count id ≤ n ∧ n < (before ++ ids).count id := by
  induction ids generalizing before with
  | nil =>
    rw [numbered, List.append_nil]
    exact iff_of_false List.not_mem_nil fun h => absurd h.2 (not_lt.mpr h.1)
  | cons a ids ih =>
    rw [numbered, List.mem_cons, ih, List.append_assoc, List.singleton_append, Prod.mk.injEq]
    simp only [List.count_append, List.count_cons, List.count_nil]
    by_cases ha : a = id
    · subst ha
      simp only [beq_self_eq_true, if_true, true_and]
      omega
    · simp only [Ne.symm ha, false_and, false_or, beq_iff_eq, ha, if_false]
      omega

theorem nodup_numbered (before ids : List String) : (numbered before ids).Nodup := by
  induction ids generalizing before with
  | nil => exact List.nodup_nil
  | cons a ids ih =>
    refine List.nodup_cons.mpr ⟨fun hmem => ?_, ih _⟩
    obtain ⟨hle, -⟩ := mem_numbered.mp hmem
    rw [List.count_append, List.count_singleton_self] at hle
    omega

theorem ids_label {seen : List (String × ℕ)} {before : List String}
    (hseen : ∀ id, (Members.get? seen id).getD 0 = before.count id) (qs : List OpenQuestion) :
    (label seen qs).map (·.id) = (numbered before (qs.map (·.id))).map fun m => tag m.1 m.2 := by
  induction qs generalizing seen before with
  | nil => rfl
  | cons q qs ih =>
    rw [label, List.map_cons, List.map_cons, numbered, List.map_cons, hseen, ih fun id => ?_]
    rw [Members.get?_set, List.count_append, List.count_singleton]
    by_cases hid : q.id = id
    · subst hid
      simp
    · simp [hid, hseen]

theorem tag_injective {s s' : String} {n n' : ℕ} (hn : n ≠ 0) (hn' : n' ≠ 0)
    (h : tag s n = tag s' n') : s = s' ∧ n = n' := by
  rw [tag, tag, if_neg hn, if_neg hn'] at h
  have hparts : ∀ (s : String) (n : ℕ),
      rpartition (s ++ "-" ++ toString n) '-' = (s, "-", toString n) := fun s n =>
    rpartition_append s (toString n) '-' (notMem_toString (by decide) n)
  have hsame := hparts s n
  rw [h, hparts, Prod.mk.injEq, Prod.mk.injEq] at hsame
  exact ⟨hsame.1.symm, toString_injective hsame.2.2.symm⟩

/-- **The ids are distinct** exactly if none of them is the suffixed form of another. -/
theorem nodup_label_iff (qs : List OpenQuestion) : ((label [] qs).map (·.id)).Nodup ↔
    ∀ s k, 0 < k → k < (qs.map (·.id)).count s → s ++ "-" ++ toString k ∉ qs.map (·.id) := by
  have hempty : ∀ id : String, (Members.get? ([] : List (String × ℕ)) id).getD 0 =
      ([] : List String).count id := fun id => rfl
  have hmem : ∀ {s : String} {n : ℕ}, (s, n) ∈ numbered [] (qs.map (·.id)) ↔
      n < (qs.map (·.id)).count s := by
    intro s n
    rw [mem_numbered, List.count_nil, List.nil_append, and_iff_right (Nat.zero_le n)]
  rw [ids_label hempty, List.nodup_map_iff_inj_on (nodup_numbered _ _)]
  constructor
  · intro hinj s k hk hcount htaken
    have htag : tag s k = tag (s ++ "-" ++ toString k) 0 := by
      rw [tag, if_neg hk.ne', tag, if_pos rfl]
    have heq := hinj (s, k) (hmem.mpr hcount) (s ++ "-" ++ toString k, 0)
      (hmem.mpr (List.count_pos_iff.mpr htaken)) htag
    exact hk.ne' (congrArg Prod.snd heq)
  · rintro hfree ⟨s, n⟩ hs ⟨s', n'⟩ hs' htag
    have hin : ∀ {s : String} {n : ℕ}, (s, n) ∈ numbered [] (qs.map (·.id)) →
        s ∈ qs.map (·.id) := fun h => List.count_pos_iff.mp (Nat.zero_lt_of_lt (hmem.mp h))
    by_cases hn : n = 0
    · by_cases hn' : n' = 0
      · rw [tag, if_pos hn, tag, if_pos hn'] at htag
        exact Prod.ext htag (hn.trans hn'.symm)
      · rw [tag, if_pos hn, tag, if_neg hn'] at htag
        exact absurd (htag ▸ hin hs) (hfree s' n' (Nat.pos_of_ne_zero hn') (hmem.mp hs'))
    · by_cases hn' : n' = 0
      · rw [tag, if_neg hn, tag, if_pos hn'] at htag
        exact absurd (htag ▸ hin hs') (hfree s n (Nat.pos_of_ne_zero hn) (hmem.mp hs))
      · obtain ⟨rfl, rfl⟩ := tag_injective hn hn' htag
        rfl

theorem eq_of_map_eq {α β : Type} {f : α → β} {l l' : List α} (h : l.map f = l'.map f)
    (hinj : ∀ a ∈ l, ∀ b ∈ l', f a = f b → a = b) : l = l' := by
  induction l generalizing l' with
  | nil => exact (List.map_eq_nil_iff.mp h.symm).symm
  | cons a l ih =>
    cases l' with
    | nil => exact nomatch h
    | cons b l' =>
      obtain ⟨hab, hrest⟩ := List.cons.inj h
      rw [hinj a List.mem_cons_self b List.mem_cons_self hab]
      refine congrArg (b :: ·) (ih hrest fun c hc d hd => ?_)
      exact hinj c (List.mem_cons_of_mem _ hc) d (List.mem_cons_of_mem _ hd)

/-! ## 4.  What the merge owes -/

section Sound

variable (lower : String → String) (route : ClarifyRoute) (probes : List ProbeResult) (cap : ℕ)
  (grounded : Finset ClarificationDimension)

/-- A candidate that no other wording of its question ranks before. -/
def BestRanked (qs : List OpenQuestion) (q : OpenQuestion) : Prop :=
  q ∈ qs ∧ ∀ q' ∈ qs, norm lower q' = norm lower q → sortKey q ≤ sortKey q'

instance (qs : List OpenQuestion) (q : OpenQuestion) : Decidable (BestRanked lower qs q) :=
  inferInstanceAs (Decidable (_ ∧ _))

def ClarifiedRequirements.all (c : ClarifiedRequirements) : List OpenQuestion :=
  c.openQuestions ++ c.dropped

/-- What the merge of the input has to satisfy. -/
structure Sound : Prop where
  /-- An answer reaches one question. -/
  ids : ((mergeClarification lower route probes cap grounded).all.map (·.id)).Nodup
  /-- Each distinct question is there once, and no other. -/
  once : ∀ n, ((mergeClarification lower route probes cap grounded).all.map (norm lower)).count n =
    if n ∈ (candidates route probes grounded).map (norm lower) then 1 else 0
  /-- It has its best-ranked wording, but for the id. -/
  wording : ∀ q ∈ (mergeClarification lower route probes cap grounded).all,
    ∃ best, BestRanked lower (candidates route probes grounded) best ∧
      q = { best with id := q.id }
  capped : (mergeClarification lower route probes cap grounded).openQuestions.length ≤ cap
  /-- What is asked ranks before what is dropped. -/
  ranks : ∀ q ∈ (mergeClarification lower route probes cap grounded).openQuestions,
    ∀ q' ∈ (mergeClarification lower route probes cap grounded).dropped, ∀ best best',
      BestRanked lower (candidates route probes grounded) best →
      BestRanked lower (candidates route probes grounded) best' →
      norm lower best = norm lower q → norm lower best' = norm lower q' →
        sortKey best ≤ sortKey best'
  /-- The order of the probes makes no difference. -/
  settled : ∀ probes' : List ProbeResult, probes'.Perm probes →
    mergeClarification lower route probes' cap grounded =
      mergeClarification lower route probes cap grounded

def carriers (qs : List OpenQuestion) (id : String) : Finset String :=
  ((qs.filter fun q => q.id = id ∧ BestRanked lower qs q).map (norm lower)).toFinset

/-- No suffixed id is taken, and the probes agree on the ties. -/
structure Unambiguous : Prop where
  free : ∀ id k, 0 < k → k < (carriers lower (candidates route probes grounded) id).card →
    carriers lower (candidates route probes grounded) (id ++ "-" ++ toString k) = ∅
  ties : Settled (norm lower) sortKey (front route grounded) (probes.map (block grounded))

end Sound

/-! ## 5.  When it is sound -/

section Merge

variable {lower : String → String} {route : ClarifyRoute} {probes : List ProbeResult} {cap : ℕ}
  {grounded : Finset ClarificationDimension} {qs : List OpenQuestion} {q : OpenQuestion}

theorem BestRanked.of_best (h : Best (norm lower) sortKey qs q) : BestRanked lower qs q :=
  ⟨h.mem, h.le⟩

theorem BestRanked.exists_ranked (h : BestRanked lower qs q) :
    ∃ best ∈ ranked (norm lower) sortKey qs, norm lower best = norm lower q ∧
      sortKey best = sortKey q := by
  obtain ⟨best, hbest, hcls⟩ : ∃ best, Best (norm lower) sortKey qs best ∧
      norm lower best = norm lower q := exists_best h.1
  exact ⟨best, mem_ranked_iff.mpr hbest, hcls,
    le_antisymm (hbest.le q h.1 hcls.symm) (h.2 best hbest.mem hcls)⟩

theorem carriers_eq (qs : List OpenQuestion) (id : String) : carriers lower qs id =
    (((ranked (norm lower) sortKey qs).filter (·.id = id)).map (norm lower)).toFinset := by
  ext n
  simp only [carriers, List.mem_toFinset, List.mem_map, List.mem_filter, decide_eq_true_eq]
  constructor
  · rintro ⟨q, ⟨-, hid, hbest⟩, rfl⟩
    obtain ⟨best, hmem, hcls, hkey⟩ := hbest.exists_ranked
    exact ⟨best, ⟨hmem, (id_eq_of_sortKey hkey).trans hid⟩, hcls⟩
  · rintro ⟨q, ⟨hmem, hid⟩, rfl⟩
    have hbest := mem_ranked_iff.mp hmem
    exact ⟨q, ⟨hbest.mem, hid, .of_best hbest⟩, rfl⟩

theorem card_carriers (qs : List OpenQuestion) (id : String) : (carriers lower qs id).card =
    ((ranked (norm lower) sortKey qs).map (·.id)).count id := by
  have hnodup : (((ranked (norm lower) sortKey qs).filter (·.id = id)).map (norm lower)).Nodup :=
    (nodup_map_ranked qs).sublist (List.filter_sublist.map _)
  rw [carriers_eq, List.toFinset_card_of_nodup hnodup, List.length_map, List.count,
    List.countP_map, List.countP_eq_length_filter]
  rfl

/-- **The ids are distinct** exactly if no suffixed id is taken. -/
theorem nodup_ids_iff (qs : List OpenQuestion) :
    ((label [] (ranked (norm lower) sortKey qs)).map (·.id)).Nodup ↔
      ∀ id k, 0 < k → k < (carriers lower qs id).card →
        carriers lower qs (id ++ "-" ++ toString k) = ∅ := by
  rw [nodup_label_iff]
  simp only [← Finset.card_eq_zero, card_carriers, List.count_eq_zero]

/-- Everything but the id. -/
def unlabelled (q : OpenQuestion) : OpenQuestion := { q with id := "" }

theorem map_unlabelled_label (seen : List (String × ℕ)) (qs : List OpenQuestion) :
    (label seen qs).map unlabelled = qs.map unlabelled := by
  induction qs generalizing seen with
  | nil => rfl
  | cons q qs ih =>
    rw [label, List.map_cons, List.map_cons, ih]
    rfl

theorem norm_of_unlabelled {q q' : OpenQuestion} (h : unlabelled q = unlabelled q') :
    norm lower q = norm lower q' := by
  have hquestion : (unlabelled q).question = (unlabelled q').question :=
    congrArg OpenQuestion.question h
  rw [norm, norm, show q.question = q'.question from hquestion]

theorem map_norm_label (seen : List (String × ℕ)) (qs : List OpenQuestion) :
    (label seen qs).map (norm lower) = qs.map (norm lower) := by
  have hnorm : norm lower ∘ unlabelled = norm lower := rfl
  have h := congrArg (List.map (norm lower)) (map_unlabelled_label seen qs)
  rwa [List.map_map, List.map_map, hnorm] at h

theorem all_mergeClarification :
    (mergeClarification lower route probes cap grounded).all =
      label [] (ranked (norm lower) sortKey (candidates route probes grounded)) :=
  List.take_append_drop cap _

theorem exists_ranked_of_mem (h : q ∈ label [] (ranked (norm lower) sortKey qs)) :
    ∃ best ∈ ranked (norm lower) sortKey qs, unlabelled best = unlabelled q := by
  have hmem := List.mem_map_of_mem (f := unlabelled) h
  rw [map_unlabelled_label] at hmem
  exact List.mem_map.mp hmem

theorem ranked_eq_of_label {qs qs' : List OpenQuestion} (hmem : ∀ q, q ∈ qs' ↔ q ∈ qs)
    (h : label [] (ranked (norm lower) sortKey qs') = label [] (ranked (norm lower) sortKey qs)) :
    ranked (norm lower) sortKey qs' = ranked (norm lower) sortKey qs := by
  have hmap := congrArg (List.map unlabelled) h
  rw [map_unlabelled_label, map_unlabelled_label] at hmap
  refine eq_of_map_eq hmap fun q hq q' hq' heq => ?_
  have hbest := BestRanked.of_best (mem_ranked_iff.mp hq)
  have hbest' := BestRanked.of_best (mem_ranked_iff.mp hq')
  have hnorm : norm lower q = norm lower q' := norm_of_unlabelled heq
  have hkey : sortKey q = sortKey q' :=
    le_antisymm (hbest.2 q' ((hmem q').mpr hbest'.1) hnorm.symm)
      (hbest'.2 q ((hmem q).mp hbest.1) hnorm)
  cases q
  cases q'
  have hid := id_eq_of_sortKey hkey
  simp_all [unlabelled]

theorem count_ranked (n : String) : ((ranked (norm lower) sortKey qs).map (norm lower)).count n =
    if n ∈ qs.map (norm lower) then 1 else 0 := by
  have hmem : n ∈ (ranked (norm lower) sortKey qs).map (norm lower) ↔ n ∈ qs.map (norm lower) := by
    rw [List.mem_map, List.mem_map]
    constructor
    · rintro ⟨q, hq, rfl⟩
      exact ⟨q, (mem_ranked_iff.mp hq).mem, rfl⟩
    · rintro ⟨q, hq, rfl⟩
      obtain ⟨best, hbest, hcls⟩ : ∃ best, Best (norm lower) sortKey qs best ∧
          norm lower best = norm lower q := exists_best hq
      exact ⟨best, mem_ranked_iff.mpr hbest, hcls⟩
  rw [(nodup_map_ranked qs).count]
  simp only [hmem]

theorem eq_with_id {q q' : OpenQuestion} (h : unlabelled q = unlabelled q') :
    q' = { q with id := q'.id } := by
  cases q
  cases q'
  simp_all [unlabelled]

theorem mem_candidates_perm {probes' : List ProbeResult} (hperm : probes'.Perm probes)
    (q : OpenQuestion) :
    q ∈ candidates route probes' grounded ↔ q ∈ candidates route probes grounded := by
  rw [candidates_eq, candidates_eq]
  exact mem_blocks_perm (hperm.map _)

/-- **The order of the probes makes no difference** exactly if they agree on the ties. -/
theorem settled_iff : (∀ probes' : List ProbeResult, probes'.Perm probes →
      mergeClarification lower route probes' cap grounded =
        mergeClarification lower route probes cap grounded) ↔
    Settled (norm lower) sortKey (front route grounded) (probes.map (block grounded)) := by
  rw [← ranked_perm_iff]
  constructor
  · intro h blocks' hperm
    have hblocks : List.Forall₂ (fun b p => b = block grounded p) (probes.map (block grounded))
        probes := by
      rw [List.forall₂_map_left_iff, List.forall₂_same]
      exact fun p _ => rfl
    obtain ⟨probes', hall, hprobes⟩ := List.perm_comp_forall₂ hperm hblocks
    have hmap : blocks' = probes'.map (block grounded) := by
      have heq := List.forall₂_map_right_iff.mpr hall
      rwa [List.forall₂_eq_eq_eq] at heq
    rw [hmap, ← candidates_eq, ← candidates_eq]
    have hmerge := congrArg ClarifiedRequirements.all (h probes' hprobes)
    rw [all_mergeClarification, all_mergeClarification] at hmerge
    exact ranked_eq_of_label (mem_candidates_perm hprobes) hmerge
  · intro h probes' hperm
    have hranked := h _ (hperm.map (block grounded))
    rw [← candidates_eq, ← candidates_eq] at hranked
    rw [mergeClarification, mergeClarification, hranked,
      sortedBy_eq_of_perm canonical_injective (hperm.map _)]

/-- **The merge is sound** exactly if no suffixed id is taken and the probes agree on the ties. -/
theorem merge_sound_iff (lower : String → String) (route : ClarifyRoute)
    (probes : List ProbeResult) (cap : ℕ) (grounded : Finset ClarificationDimension) :
    Sound lower route probes cap grounded ↔ Unambiguous lower route probes grounded := by
  constructor
  · intro h
    have hids := h.ids
    rw [all_mergeClarification] at hids
    exact ⟨(nodup_ids_iff _).mp hids, settled_iff.mp h.settled⟩
  · intro h
    refine { ids := ?_, once := fun n => ?_, wording := fun q hq => ?_, capped := ?_,
             ranks := ?_, settled := settled_iff.mpr h.ties }
    · rw [all_mergeClarification]
      exact (nodup_ids_iff _).mpr h.free
    · rw [all_mergeClarification, map_norm_label]
      exact count_ranked n
    · rw [all_mergeClarification] at hq
      obtain ⟨best, hbest, hsame⟩ := exists_ranked_of_mem hq
      exact ⟨best, .of_best (mem_ranked_iff.mp hbest), eq_with_id hsame⟩
    · exact List.length_take_le _ _
    · intro q hq q' hq' best best' hbest hbest' hnorm hnorm'
      have hmem := List.mem_map_of_mem (f := unlabelled) hq
      have hmem' := List.mem_map_of_mem (f := unlabelled) hq'
      rw [mergeClarification, List.map_take, map_unlabelled_label, ← List.map_take] at hmem
      rw [mergeClarification, List.map_drop, map_unlabelled_label, ← List.map_drop] at hmem'
      obtain ⟨x, hx, hsame⟩ := List.mem_map.mp hmem
      obtain ⟨y, hy, hsame'⟩ := List.mem_map.mp hmem'
      have hbestx := mem_ranked_iff.mp (List.mem_of_mem_take hx)
      have hbesty := mem_ranked_iff.mp (List.mem_of_mem_drop hy)
      have hxy : (ranked (norm lower) sortKey (candidates route probes grounded)).Pairwise
          (sortKey · ≤ sortKey ·) := pairwise_rank_ranked _
      rw [← List.take_append_drop cap (ranked _ _ _), List.pairwise_append] at hxy
      calc sortKey best ≤ sortKey x :=
            hbest.2 x hbestx.mem ((norm_of_unlabelled hsame).trans hnorm.symm)
        _ ≤ sortKey y := hxy.2.2 x hx y hy
        _ ≤ sortKey best' :=
            hbesty.le best' hbest'.1 (hnorm'.trans (norm_of_unlabelled hsame').symm)

end Merge

/-- Three questions of the supervisor, of which two have one id and the third its suffixed form. -/
def suffixTaken : ClarifyRoute where
  questions :=
    [{ id := "a", question := "One?", materiality := some 1 },
     { id := "a", question := "Two?", materiality := some (3 / 4) },
     { id := "a-1", question := "Three?", materiality := some (1 / 2) }]

def sampleProbe (question : String) : ProbeResult where
  dimension := .interfaceSpec
  questions := [{ id := "q", question, materiality := some 1, evidence := some "api.py" }]

/-- `str.lower`, of ASCII texts. -/
def asciiLower (s : String) : String := String.ofList (s.toList.map Char.toLower)

/-- Two open questions have one id, so an answer to one is taken for the other; and of two probes
that ask the same question in two wordings, the one that comes first decides. -/
theorem merge_unsound : ¬Sound asciiLower suffixTaken [] 5 ∅ ∧
    ¬Sound asciiLower {} [sampleProbe "Paging?", sampleProbe "paging"] 5 ∅ := by
  refine ⟨fun h => absurd h.ids (by decide +kernel), fun h => ?_⟩
  have hsame := h.settled [sampleProbe "paging", sampleProbe "Paging?"] (List.Perm.swap _ _ _)
  exact absurd hsame (by decide +kernel)

end Kroker.Clarify
