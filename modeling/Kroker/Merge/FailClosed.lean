import Kroker.Merge.QualityGate

/-!
# The quality gate fails closed

`evaluate_quality_gate` on any list of results and overrides: repeated names, unknown names, any
class.

## 1.  The verdict

`Cleared` says when a report passes, in terms of what was handed in: no failing result is absolute,
every absolute name of the manifest is there, and what fails or is absent as advisory is overridden.
`passed_iff_cleared` is that reading.

## 2.  What cannot help

The verdict depends on which results there are, not on their order or number; failing a result does
not help, more overrides do not harm, and the checks of a report are judged as the report was.
Leaving out the results of a required name does not help either, with one exception: the absent name
is judged at the class of the manifest, so a failing result handed in as absolute under a name that
the manifest has as advisory is harder to pass than its absence (`absence_waived`).
-/

namespace Kroker

/-! ## 1.  The verdict -/

def CheckResult.effectiveClass (c : CheckResult) : CheckClass :=
  if c.name ∈ absoluteFloor then .absolute else c.classification

def Overridden (overrides : List GateOverride) (name : String) : Prop :=
  ∃ o ∈ overrides, o.check = name

theorem mem_overrideNames_iff {overrides : List GateOverride} {name : String} :
    name ∈ overrides.map (·.check) ↔ Overridden overrides name := List.mem_map

def Present (checks : List CheckResult) (name : String) : Prop := ∃ c ∈ checks, c.name = name

/-- What a report that passes takes. -/
structure Cleared (checks : List CheckResult) (overrides : List GateOverride) : Prop where
  absolute_passed : ∀ c ∈ checks, c.passed = false → c.effectiveClass ≠ .absolute
  absolute_present : ∀ m ∈ mergeRequiredChecks, m.2 = .absolute → Present checks m.1
  advisory_overridden : ∀ c ∈ checks, c.passed = false → c.effectiveClass = .advisory →
    Overridden overrides c.name
  absent_overridden : ∀ m ∈ mergeRequiredChecks, m.2 = .advisory → ¬Present checks m.1 →
    Overridden overrides m.1

theorem mem_normalized_iff {checks : List CheckResult} {c : CheckResult} :
    c ∈ normalized checks ↔ ∃ d ∈ checks, { d with classification := d.effectiveClass } = c := by
  rw [normalized, List.mem_map]
  refine exists_congr fun d => and_congr_right fun _ => ?_
  unfold buildCheck CheckResult.effectiveClass
  split
  · rfl
  · rfl

theorem present_normalized {checks : List CheckResult} {name : String} :
    name ∈ (normalized checks).map (·.name) ↔ Present checks name := by
  rw [List.mem_map]
  constructor
  · rintro ⟨c, hc, rfl⟩
    obtain ⟨d, hd, rfl⟩ := mem_normalized_iff.mp hc
    exact ⟨d, hd, rfl⟩
  · rintro ⟨d, hd, rfl⟩
    exact ⟨_, mem_normalized_iff.mpr ⟨d, hd, rfl⟩, rfl⟩

theorem required_class : ∀ m ∈ mergeRequiredChecks,
    (if m.1 ∈ absoluteFloor then CheckClass.absolute else m.2) = m.2 := by
  decide

/-- **The results that are judged**: those handed in, at the class they are judged at, and a failing
one for every absent name of the manifest. -/
theorem mem_evaluatedChecks_iff {checks : List CheckResult} {c : CheckResult} :
    c ∈ evaluatedChecks checks ↔
      (∃ d ∈ checks, { d with classification := d.effectiveClass } = c) ∨
        ∃ m ∈ mergeRequiredChecks, ¬Present checks m.1 ∧
          c = ⟨m.1, false, m.2,
            "MISCONFIGURED: required check " ++ quoted m.1 ++ " absent from gate input"⟩ := by
  rw [evaluatedChecks, List.mem_append, mem_normalized_iff]
  refine or_congr_right ?_
  rw [synthesized, List.mem_map]
  refine exists_congr fun m => ?_
  rw [List.mem_filter, decide_eq_true_eq, present_normalized, and_assoc]
  refine and_congr_right fun hm => and_congr_right fun _ => ?_
  rw [buildCheck, required_class m hm]
  exact eq_comm

/-- **When a report passes.** -/
theorem passed_iff_cleared {checks : List CheckResult} {overrides : List GateOverride} :
    (evaluateQualityGate checks overrides).passed = true ↔ Cleared checks overrides := by
  have hblocks : ∀ c : CheckResult, ¬c.Blocks (overrides.map (·.check)) ↔
      (c.passed = false → c.classification ≠ .absolute) ∧
        (c.passed = false → c.classification = .advisory → Overridden overrides c.name) := by
    intro c
    rw [CheckResult.Blocks, mem_overrideNames_iff]
    cases c.passed <;> cases c.classification <;> simp
  rw [passed_iff]
  constructor
  · intro h
    have hgiven : ∀ c ∈ checks, _ := fun c hc =>
      (hblocks _).mp (h _ (mem_evaluatedChecks_iff.mpr (.inl ⟨c, hc, rfl⟩)))
    have habsent : ∀ m ∈ mergeRequiredChecks, ¬Present checks m.1 → _ := fun m hm hnot =>
      (hblocks _).mp (h _ (mem_evaluatedChecks_iff.mpr (.inr ⟨m, hm, hnot, rfl⟩)))
    refine ⟨fun c hc => (hgiven c hc).1, ?_, fun c hc => (hgiven c hc).2, ?_⟩
    · intro m hm hclass
      by_contra hnot
      exact (habsent m hm hnot).1 rfl hclass
    · exact fun m hm hclass hnot => (habsent m hm hnot).2 rfl hclass
  · intro h c hc
    rw [hblocks]
    rcases mem_evaluatedChecks_iff.mp hc with ⟨d, hd, rfl⟩ | ⟨m, hm, hnot, rfl⟩
    · exact ⟨h.absolute_passed d hd, h.advisory_overridden d hd⟩
    · refine ⟨fun _ hclass => hnot (h.absolute_present m hm hclass), fun _ hclass => ?_⟩
      exact h.absent_overridden m hm hclass hnot

/-! ## 2.  What cannot help -/

section Consequences

variable {checks : List CheckResult} {overrides : List GateOverride}

theorem present_congr {checks' : List CheckResult} (h : ∀ c, c ∈ checks ↔ c ∈ checks')
    (name : String) : Present checks name ↔ Present checks' name :=
  exists_congr fun c => and_congr_left fun _ => h c

/-- **Order and repetition do not matter**, of results and of overrides. -/
theorem cleared_congr {checks' : List CheckResult} {overrides' : List GateOverride}
    (hchecks : ∀ c, c ∈ checks ↔ c ∈ checks')
    (hoverrides : ∀ name, Overridden overrides name ↔ Overridden overrides' name) :
    Cleared checks overrides ↔ Cleared checks' overrides' := by
  have hone : ∀ {l l' : List CheckResult} {o o' : List GateOverride}, (∀ c, c ∈ l ↔ c ∈ l') →
      (∀ name, Overridden o name ↔ Overridden o' name) → Cleared l o → Cleared l' o' := by
    intro l l' o o' hl ho h
    refine ⟨fun c hc => h.absolute_passed c ((hl c).mpr hc), ?_, ?_, ?_⟩
    · exact fun m hm hclass => (present_congr hl m.1).mp (h.absolute_present m hm hclass)
    · exact fun c hc hfail hclass =>
        (ho _).mp (h.advisory_overridden c ((hl c).mpr hc) hfail hclass)
    · exact fun m hm hclass hnot => (ho _).mp
        (h.absent_overridden m hm hclass fun hp => hnot ((present_congr hl m.1).mp hp))
  exact ⟨hone hchecks hoverrides, hone (fun c => (hchecks c).symm) fun name => (hoverrides name).symm⟩

/-- **Failing a result does not help.** -/
theorem cleared_of_failed {before after : List CheckResult} {c : CheckResult}
    (hpassed : c.passed = true)
    (h : Cleared (before ++ { c with passed := false } :: after) overrides) :
    Cleared (before ++ c :: after) overrides := by
  have hmem : ∀ d ∈ before ++ c :: after, d.passed = false →
      d ∈ before ++ { c with passed := false } :: after := by
    intro d hd hfail
    rw [List.mem_append, List.mem_cons] at hd ⊢
    rcases hd with hd | rfl | hd
    · exact .inl hd
    · rw [hpassed] at hfail
      cases hfail
    · exact .inr (.inr hd)
  have hpresent : ∀ name, Present (before ++ { c with passed := false } :: after) name ↔
      Present (before ++ c :: after) name := by
    intro name
    unfold Present
    simp only [List.mem_append, List.mem_cons, or_and_right, exists_or, exists_eq_left]
  refine ⟨fun d hd hfail => h.absolute_passed d (hmem d hd hfail) hfail, ?_,
    fun d hd hfail => h.advisory_overridden d (hmem d hd hfail) hfail, ?_⟩
  · exact fun m hm hclass => (hpresent m.1).mp (h.absolute_present m hm hclass)
  · exact fun m hm hclass hnot =>
      h.absent_overridden m hm hclass fun hp => hnot ((hpresent m.1).mp hp)

/-- **More overrides do no harm.** -/
theorem Cleared.mono {overrides' : List GateOverride} (hsub : overrides ⊆ overrides')
    (h : Cleared checks overrides) : Cleared checks overrides' := by
  have hmore : ∀ name, Overridden overrides name → Overridden overrides' name :=
    fun _ ⟨o, ho, hname⟩ => ⟨o, hsub ho, hname⟩
  exact ⟨h.absolute_passed, h.absolute_present,
    fun c hc hfail hclass => hmore _ (h.advisory_overridden c hc hfail hclass),
    fun m hm hclass hnot => hmore _ (h.absent_overridden m hm hclass hnot)⟩

def Overclassed (checks : List CheckResult) (name : String) : Prop :=
  (name, CheckClass.advisory) ∈ mergeRequiredChecks ∧
    ∃ c ∈ checks, c.name = name ∧ c.passed = false ∧ c.classification = .absolute

theorem absolute_of_required_floor : ∀ m ∈ mergeRequiredChecks, m.1 ∈ absoluteFloor →
    m.2 = .absolute := by
  decide

/-- **Leaving out the results of a required name does not help**, unless one of them failed at a
class above the manifest's and the name is overridden. -/
theorem cleared_of_dropped {m : String × CheckClass} (hm : m ∈ mergeRequiredChecks)
    (hclass : ¬(Overclassed checks m.1 ∧ Overridden overrides m.1))
    (h : Cleared (checks.filter fun c => c.name ≠ m.1) overrides) : Cleared checks overrides := by
  have hkept : ∀ c ∈ checks, c.name ≠ m.1 → c ∈ checks.filter fun c => c.name ≠ m.1 :=
    fun c hc hne => List.mem_filter.mpr ⟨hc, decide_eq_true hne⟩
  have hgone : ¬Present (checks.filter fun c => c.name ≠ m.1) m.1 := by
    rintro ⟨c, hc, hname⟩
    rw [List.mem_filter, decide_eq_true_eq] at hc
    exact hc.2 hname
  -- The name was absent, so it is one the manifest has as advisory and an override names.
  have hadvisory : m.2 = .advisory := by
    cases hm2 : m.2 with
    | absolute => exact absurd (h.absolute_present m hm hm2) hgone
    | advisory => rfl
  have hoverridden : Overridden overrides m.1 := h.absent_overridden m hm hadvisory hgone
  have hfloor : m.1 ∉ absoluteFloor := by
    intro hin
    rw [absolute_of_required_floor m hm hin] at hadvisory
    cases hadvisory
  have hmore : ∀ name, Present (checks.filter fun c => c.name ≠ m.1) name →
      Present checks name := fun _ ⟨c, hc, hname⟩ => ⟨c, List.mem_of_mem_filter hc, hname⟩
  refine ⟨?_, fun n hn habs => hmore _ (h.absolute_present n hn habs), ?_, ?_⟩
  · intro c hc hfail
    by_cases hname : c.name = m.1
    · rw [CheckResult.effectiveClass, if_neg (hname ▸ hfloor)]
      exact fun habs => hclass ⟨⟨hadvisory ▸ hm, c, hc, hname, hfail, habs⟩, hoverridden⟩
    · exact h.absolute_passed c (hkept c hc hname) hfail
  · intro c hc hfail hadv
    by_cases hname : c.name = m.1
    · exact hname ▸ hoverridden
    · exact h.advisory_overridden c (hkept c hc hname) hfail hadv
  · intro n hn hadv hnot
    exact h.absent_overridden n hn hadv fun hp => hnot (hmore _ hp)

/-- **The checks of a report are judged as they are**: a second evaluation adds and changes
nothing. -/
theorem evaluatedChecks_evaluatedChecks (checks : List CheckResult) :
    evaluatedChecks (evaluatedChecks checks) = evaluatedChecks checks := by
  have hnormalized : normalized (evaluatedChecks checks) = evaluatedChecks checks := by
    refine (List.map_congr_left fun c hc => ?_).trans (List.map_id _)
    by_cases hfloor : c.name ∈ absoluteFloor
    · rw [if_pos hfloor, buildCheck, if_pos hfloor, ← absolute_of_floor hc hfloor]
      rfl
    · rw [if_neg hfloor]
      rfl
  have hsynthesized : synthesized ((evaluatedChecks checks).map (·.name)) = [] := by
    rw [synthesized, List.map_eq_nil_iff, List.filter_eq_nil_iff]
    intro m hm hnot
    rw [decide_eq_true_eq] at hnot
    obtain ⟨c, hc, hname⟩ := exists_required checks hm
    exact hnot (hname ▸ List.mem_map_of_mem hc)
  have hnames : evaluatedChecks (evaluatedChecks checks) = normalized (evaluatedChecks checks) ++
      synthesized ((normalized (evaluatedChecks checks)).map (·.name)) := rfl
  rw [hnames, hnormalized, hsynthesized, List.append_nil]

end Consequences

/-- **The gate fails closed.**  It passes exactly what is cleared: order and repetition of the
results do not matter, failing or leaving out a result does not help, unless one had failed at a
class above the manifest's and its name is overridden, and a report's own checks are judged as the
report was. -/
theorem gate_fails_closed (checks : List CheckResult) (overrides : List GateOverride) :
    ((evaluateQualityGate checks overrides).passed = true ↔ Cleared checks overrides) ∧
    (∀ checks', (∀ c, c ∈ checks ↔ c ∈ checks') →
      (evaluateQualityGate checks' overrides).passed =
        (evaluateQualityGate checks overrides).passed) ∧
    (∀ before c after, checks = before ++ c :: after → c.passed = true →
      (evaluateQualityGate checks overrides).passed = false →
      (evaluateQualityGate (before ++ { c with passed := false } :: after) overrides).passed =
        false) ∧
    (∀ m ∈ mergeRequiredChecks, ¬(Overclassed checks m.1 ∧ Overridden overrides m.1) →
      (evaluateQualityGate checks overrides).passed = false →
      (evaluateQualityGate (checks.filter fun c => c.name ≠ m.1) overrides).passed = false) ∧
    (∀ overrides', overrides ⊆ overrides' →
      (evaluateQualityGate checks overrides).passed = true →
      (evaluateQualityGate checks overrides').passed = true) ∧
    (evaluateQualityGate (evaluateQualityGate checks overrides).checks overrides).passed =
      (evaluateQualityGate checks overrides).passed := by
  refine ⟨passed_iff_cleared, ?_, ?_, ?_, ?_, ?_⟩
  · intro checks' h
    rw [Bool.eq_iff_iff, passed_iff_cleared, passed_iff_cleared]
    exact (cleared_congr h fun _ => Iff.rfl).symm
  · rintro before c after rfl hpassed hfails
    rw [← Bool.not_eq_true, passed_iff_cleared] at hfails ⊢
    exact fun h => hfails (cleared_of_failed hpassed h)
  · intro m hm hclass hfails
    rw [← Bool.not_eq_true, passed_iff_cleared] at hfails ⊢
    exact fun h => hfails (cleared_of_dropped hm hclass h)
  · intro overrides' hsub h
    rw [passed_iff_cleared] at h ⊢
    exact h.mono hsub
  · rw [Bool.eq_iff_iff, passed_iff, passed_iff]
    show (∀ c ∈ evaluatedChecks (evaluatedChecks checks), _) ↔ _
    rw [evaluatedChecks_evaluatedChecks]

def sampleOverclassed : List CheckResult :=
  mergeRequiredChecks.map fun m =>
    if m.1 = "coverage" then ⟨m.1, false, .absolute, "61% of 80%"⟩ else ⟨m.1, true, m.2, ""⟩

/-- With an override for coverage the report fails, and without its result it passes. -/
theorem absence_waived :
    (evaluateQualityGate sampleOverclassed [⟨"coverage", "alice", "legacy gap"⟩]).passed = false ∧
      (evaluateQualityGate (sampleOverclassed.filter fun c => c.name ≠ "coverage")
        [⟨"coverage", "alice", "legacy gap"⟩]).passed = true := by
  decide +kernel

end Kroker
