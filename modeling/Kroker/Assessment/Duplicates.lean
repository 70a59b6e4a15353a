import Kroker.Assessment.Conservation
import Kroker.Assessment.Risk
import Kroker.Capability.Identity

/-!
# A disposition given twice

A proposer that gives two rows for one key contradicts itself, and neither row should land, also
where verification has refused one of them.

## 1.  Discover

`stamp` counts a refusal as a row, so two rows for one candidate make a dropped flag, whichever of
them verification refused (`flag_of_repeated`).

## 2.  Risk

`apply_judgment` refuses a repeated key among the rows it is given, which are the survivors.  A
contradiction of which just one row survives is no contradiction any more, and that row lands.
`leavesRepeated_judge_iff` says exactly when none does, and `second_row_lands` is a run of the code
in which one does.
-/

namespace Kroker.Risk

open Discover

def Repeated {P K : Type} [DecidableEq K] (key : P → K) (rows : List P) (k : K) : Prop :=
  2 ≤ (rows.map key).count k

instance {P K : Type} [DecidableEq K] (key : P → K) (rows : List P) (k : K) :
    Decidable (Repeated key rows k) := inferInstanceAs (Decidable (_ ≤ _))

/-! ## 1.  Discover -/

section Discover

variable {D : UnicodeDigits} {blobs : String → Option String} {errorText : String → String}
  {context : DiscoverContext}

def verifyRefs (D : UnicodeDigits) (blobs : String → Option String)
    (rows : List ProposedDisposition) : RowVerification ProposedDisposition :=
  verifyRows D blobs ProposedDisposition.candidateId rows

theorem one_lt_totalEmitted {rows : List ProposedDisposition} {id : String}
    (h : Repeated ProposedDisposition.candidateId rows id)
    (hsurvivor : rowsFor (verifyRefs D blobs rows).survivors id ≠ []) :
    1 < totalEmitted (rowsFor (verifyRefs D blobs rows).survivors id)
      (verifyRefs D blobs rows).refusals[id]? := by
  -- The rows of the candidate, those that survive and those that do not.
  have hsurvivors : rowsFor (verifyRefs D blobs rows).survivors id =
      (rowsFor rows id).filter fun row => Accepted D blobs row := by
    rw [verifyRefs, survivors_verifyRows, rowsFor, rowsFor, List.filter_comm]
  have htwo : 2 ≤ (rowsFor rows id).length := by
    have hcount : (rows.map ProposedDisposition.candidateId).count id =
        (rowsFor rows id).length := by
      rw [List.count_eq_length_filter, List.filter_map, List.length_map, rowsFor]
      congr 1
    exact hcount ▸ h
  have hpos : 0 < (rowsFor (verifyRefs D blobs rows).survivors id).length :=
    List.length_pos_iff.mpr hsurvivor
  rw [totalEmitted]
  by_cases hall : ∀ row ∈ rowsFor rows id, Accepted D blobs row
  · rw [hsurvivors, List.filter_eq_self.mpr fun row hrow => decide_eq_true (hall row hrow)]
    omega
  · push Not at hall
    obtain ⟨row, hrow, hrefused⟩ := hall
    have hid : row.candidateId = id := by
      rw [rowsFor, List.mem_filter, decide_eq_true_eq] at hrow
      exact hrow.2
    have hin : row ∈ rows := List.mem_of_mem_filter hrow
    have hsome : ((verifyRefs D blobs rows).refusals[id]?).isSome = true :=
      (refused_verifyRows_iff rows id).mpr ⟨row, hin, hrefused, hid⟩
    rw [if_pos hsome]
    omega

theorem stampOne_dropped {c : CandidateContext} {rows : List ProposedDisposition}
    {known : Table CandidateContext.candidateId} {refusal : Option (String × String)}
    (h : rows ≠ [] → 1 < totalEmitted rows refusal) :
    (stampOne errorText c rows known refusal).action = .flag ∧
      (stampOne errorText c rows known refusal).source = .dropped := by
  unfold stampOne
  split
  · exact ⟨rfl, rfl⟩
  · rename_i hone
    cases rows with
    | nil => cases refusal <;> exact ⟨rfl, rfl⟩
    | cons row rows => exact absurd (h (List.cons_ne_nil row rows)) hone

theorem demote_dropped (first : List CandidateDisposition) {d : CandidateDisposition}
    (h : d.action = .flag ∧ d.source = .dropped) :
    (demote first d).action = .flag ∧ (demote first d).source = .dropped := by
  rw [demote_of_ne_merge (by rw [h.1]; decide)]
  exact h

/-- **A candidate with two rows is flagged**, and its disposition carries no verdict of the
proposer. -/
theorem flag_of_repeated {rows : List ProposedDisposition} {stamped : StampedProposal}
    (h : stamp errorText context (some (verifyRefs D blobs rows).survivors)
      (verifyRefs D blobs rows).refusals = .ok stamped)
    {d : CandidateDisposition} (hd : d ∈ stamped.dispositions)
    (hrepeated : Repeated ProposedDisposition.candidateId rows d.candidateId) :
    d.action = .flag ∧ d.source = .dropped := by
  rw [StampedProposal.of_eq_ok h] at hd
  obtain ⟨e, he, rfl⟩ := List.mem_map.mp hd
  rw [demote_candidateId] at hrepeated
  obtain ⟨c, -, rfl⟩ := List.mem_map.mp he
  rw [(stampOne_cases rfl).1] at hrepeated
  exact demote_dropped _ (stampOne_dropped (one_lt_totalEmitted hrepeated))

end Discover

/-! ## 2.  Risk -/

/-! ### One family -/

section Family

variable {Row P K : Type} [DecidableEq K] {key : P → K} {rows : List P}

def Keeps (key : P → K) (rows : List P) (keyOf : Row → K) (row row' : Row) : Prop :=
  Repeated key rows (keyOf row) → row' = row

/-- Of the rows with the key of `p`, verification accepts `p` and no other. -/
def Sole (accepted : P → Prop) [DecidablePred accepted] (key : P → K) (rows : List P) (p : P) :
    Prop :=
  p ∈ rows.filter (fun q => accepted q) ∧
    ((rows.filter fun q => accepted q).map key).count (key p) = 1

/-- No contradiction reduced to one row changes a row of the baseline: where its key is repeated, a
row of the proposal that alone is accepted is not admitted, or says what the row says already. -/
def Harmless (accepted : P → Prop) [DecidablePred accepted] (key : P → K) (rows : List P)
    (keyOf : Row → K) (admits : Row → P → Bool) (stamped : Row → P → Row) (row : Row) : Prop :=
  Repeated key rows (keyOf row) → ∀ p, Sole accepted key rows p → key p = keyOf row →
    admits row p = true → stamped row p = row

theorem disposed_eq_self_iff {find : Row → Option P} {admits : Row → P → Bool}
    {stamped : Row → P → Row} {row : Row} : disposed find admits stamped row = row ↔
      ∀ p, find row = some p → admits row p = true → stamped row p = row := by
  rw [disposed]
  cases find row with
  | none => simp
  | some p =>
    simp only [Option.some.injEq, forall_eq']
    split
    · rename_i h
      exact ⟨fun heq _ => heq, fun heq => heq h⟩
    · rename_i h
      exact ⟨fun _ hadmits => absurd hadmits h, fun _ => rfl⟩

/-- **A family keeps the rows of repeated keys exactly when its contradictions are harmless.** -/
theorem keeps_disposed_iff {accepted : P → Prop} [DecidablePred accepted] {keyOf : Row → K}
    {find : Row → Option P} {admits : Row → P → Bool} {stamped : Row → P → Row} {l : List Row}
    (hfind : ∀ row ∈ l, find row = unique key (rows.filter fun q => accepted q) (keyOf row)) :
    List.Forall₂ (Keeps key rows keyOf) l (l.map (disposed find admits stamped)) ↔
      ∀ row ∈ l, Harmless accepted key rows keyOf admits stamped row := by
  rw [List.forall₂_map_right_iff, List.forall₂_same]
  refine forall₂_congr fun row hrow => imp_congr_right fun _ => ?_
  rw [disposed_eq_self_iff, hfind row hrow]
  refine forall_congr' fun p => ?_
  rw [unique_eq_some_iff, Sole]
  constructor
  · rintro h ⟨hin, hcount⟩ hkey hadmits
    exact h ⟨hin, hkey, hkey ▸ hcount⟩ hadmits
  · rintro h ⟨hin, hkey, hcount⟩ hadmits
    exact h ⟨hin, hkey ▸ hcount⟩ hkey hadmits

end Family

/-! ### The map -/

variable {D : UnicodeDigits} {blobs : String → Option String} {rateText : ℕ → ℕ → String}
  {baseline : UnifiedRiskMap} {proposal : RiskProposal}

/-- Every row of the baseline whose key the proposal has more than once is in the result as it
was. -/
def LeavesRepeated (baseline : UnifiedRiskMap) (proposal : RiskProposal)
    (result : UnifiedRiskMap) : Prop :=
  List.Forall₂ (fun c c' : CapabilityRisk =>
      List.Forall₂ (Keeps threatKey proposal.threats fun row => (c.bcId, row.category))
        c.threats c'.threats ∧
      List.Forall₂ (Keeps ProposedVulnerability.key proposal.vulnerabilities Vulnerability.key)
        c.vulnerabilities c'.vulnerabilities ∧
      List.Forall₂ (Keeps controlKey proposal.controls fun row => (c.bcId, row.family))
        c.controls c'.controls)
    baseline.capabilities result.capabilities ∧
  List.Forall₂ (Keeps boundaryKey proposal.boundaries fun row => (row.sourceBcId, row.targetBcId))
    baseline.system.trustBoundaries result.system.trustBoundaries ∧
  List.Forall₂ (Keeps escalationKey proposal.escalations fun row => normalizePathId row.pathId)
    baseline.system.escalationPaths result.system.escalationPaths

/-- The contradictions of a proposal change no row of the baseline. -/
def HarmlessIn (D : UnicodeDigits) (blobs : String → Option String) (baseline : UnifiedRiskMap)
    (proposal : RiskProposal) : Prop :=
  (∀ c ∈ baseline.capabilities,
    (∀ row ∈ c.threats, Harmless (fun p => Accepted D blobs (ProposedRow.threat p)) threatKey
      proposal.threats (fun row => (c.bcId, row.category)) (admitsThreat c) stampedThreat row) ∧
    (∀ row ∈ c.vulnerabilities, Harmless
      (fun p => Accepted D blobs (ProposedRow.vulnerability p)) ProposedVulnerability.key
      proposal.vulnerabilities Vulnerability.key admitsVulnerability stampedVulnerability row) ∧
    (∀ row ∈ c.controls, Harmless (fun p => Accepted D blobs (ProposedRow.control p)) controlKey
      proposal.controls (fun row => (c.bcId, row.family)) admitsControl stampedControl row)) ∧
  (∀ row ∈ baseline.system.trustBoundaries, Harmless
    (fun p => Accepted D blobs (ProposedRow.boundary p)) boundaryKey proposal.boundaries
    (fun row => (row.sourceBcId, row.targetBcId))
    (admitsBoundary baseline.system.trustBoundariesCollected) stampedBoundary row) ∧
  ∀ row ∈ baseline.system.escalationPaths, Harmless
    (fun p => Accepted D blobs (ProposedRow.escalation p)) escalationKey proposal.escalations
    (fun row => normalizePathId row.pathId)
    (admitsEscalation baseline.system.escalationPathsCollected) stampedEscalation row

/-! ### What is judged -/

theorem ofRows_survivors (proposal : RiskProposal) :
    RiskProposal.ofRows (verifyRiskRefs D blobs proposal).survivors =
      { threats := proposal.threats.filter fun p => Accepted D blobs (ProposedRow.threat p)
        vulnerabilities :=
          proposal.vulnerabilities.filter fun p => Accepted D blobs (ProposedRow.vulnerability p)
        controls := proposal.controls.filter fun p => Accepted D blobs (ProposedRow.control p)
        boundaries := proposal.boundaries.filter fun p => Accepted D blobs (ProposedRow.boundary p)
        escalations :=
          proposal.escalations.filter fun p => Accepted D blobs (ProposedRow.escalation p) } := by
  have hother : ∀ {α β : Type} (l : List α), l.filterMap (fun _ => (none : Option β)) = [] :=
    fun l => List.filterMap_eq_nil_iff.mpr fun _ _ => rfl
  rw [verifyRiskRefs, survivors_verifyRows, RiskProposal.rows, RiskProposal.ofRows]
  simp only [List.filter_append, List.filterMap_append, List.filter_map, List.filterMap_map,
    Function.comp_def, ProposedRow.threat?, ProposedRow.vulnerability?, ProposedRow.control?,
    ProposedRow.boundary?, ProposedRow.escalation?, List.filterMap_some, hother,
    List.nil_append, List.append_nil]

theorem map_disposed_eq_self {Row P : Type} {find : Row → Option P} {admits : Row → P → Bool}
    {stamped : Row → P → Row} {source : Row → RiskSource}
    (hstamped : ∀ row p, source (stamped row p) = .proposer) {l : List Row}
    (h : (l.map (disposed find admits stamped)).countP (fun row => source row = .proposer) = 0) :
    l.map (disposed find admits stamped) = l := by
  refine (List.map_congr_left fun row hrow => ?_).trans (List.map_id l)
  have hsource : ¬source (disposed find admits stamped row) = .proposer := by
    simpa using List.countP_eq_zero.mp h _ (List.mem_map_of_mem hrow)
  rw [disposed] at hsource ⊢
  cases hfind : find row with
  | none => rfl
  | some p =>
    rw [hfind] at hsource
    simp only at hsource ⊢
    split
    · rename_i hadmits
      rw [if_pos hadmits, hstamped] at hsource
      exact absurd rfl hsource
    · rfl

theorem eq_of_appliedCount {known : List String} {p : RiskProposal} {caps : List CapabilityRisk}
    {system : SystemRisk}
    (h : appliedCount (caps.map (judgedCapability known p)) (applySystemJudgment system p) = 0) :
    caps.map (judgedCapability known p) = caps ∧ applySystemJudgment system p = system := by
  rw [appliedCount, Nat.add_eq_zero_iff, Nat.add_eq_zero_iff,
    List.sum_eq_zero_iff_forall_eq_nat] at h
  obtain ⟨⟨hcaps, hboundaries⟩, hescalations⟩ := h
  constructor
  · refine (List.map_congr_left fun c hc => ?_).trans (List.map_id caps)
    have hzero := hcaps _ (List.mem_map_of_mem (List.mem_map_of_mem hc))
    rw [Nat.add_eq_zero_iff, Nat.add_eq_zero_iff] at hzero
    obtain ⟨⟨hthreats, hvulnerabilities⟩, hcontrols⟩ := hzero
    have hthreats : threats c _ = c.threats := map_disposed_eq_self (fun _ _ => rfl) hthreats
    have hvulnerabilities : vulnerabilities c _ = c.vulnerabilities :=
      map_disposed_eq_self (fun _ _ => rfl) hvulnerabilities
    have hcontrols : controls c _ = c.controls := map_disposed_eq_self (fun _ _ => rfl) hcontrols
    rw [judgedCapability, hthreats, hvulnerabilities, hcontrols]
    rfl
  · have hboundaries : boundaries system _ = system.trustBoundaries :=
      map_disposed_eq_self (fun _ _ => rfl) hboundaries
    have hescalations : escalations system _ = system.escalationPaths :=
      map_disposed_eq_self (fun _ _ => rfl) hescalations
    rw [applySystemJudgment, hboundaries, hescalations]

/-- **What a collected baseline becomes.**  Where no verdict stands the layer is degraded, but the
rows are the same either way. -/
theorem applyJudgment_rows (hcollected : baseline.collected = .measured) (p : RiskProposal)
    (total : ℕ) :
    (applyJudgment baseline p total).capabilities =
        baseline.capabilities.map (judgedCapability (baseline.capabilities.map (·.bcId)) p) ∧
      (applyJudgment baseline p total).system = applySystemJudgment baseline.system p := by
  rw [applyJudgment, if_neg (not_not.mpr hcollected)]
  simp only
  split
  · rename_i hzero
    obtain ⟨hcaps, hsystem⟩ := eq_of_appliedCount hzero
    split <;> exact ⟨hcaps.symm, hsystem.symm⟩
  · exact ⟨rfl, rfl⟩

theorem knownOnly_of_mem {κ P : Type} {known : List String} {table : String × κ → Option P}
    {id : String} (h : id ∈ known) (k : κ) : knownOnly known table (id, k) = table (id, k) :=
  if_pos h

theorem leavesRepeated_of_eq {result : UnifiedRiskMap}
    (hcaps : result.capabilities = baseline.capabilities) (hsystem : result.system = baseline.system) :
    LeavesRepeated baseline proposal result := by
  have hsame : ∀ {Row P K : Type} [DecidableEq K] (key : P → K) (rows : List P) (keyOf : Row → K)
      (l : List Row), List.Forall₂ (Keeps key rows keyOf) l l :=
    fun key rows keyOf l => List.forall₂_same.mpr fun row _ _ => rfl
  rw [LeavesRepeated, hcaps, hsystem, List.forall₂_same]
  exact ⟨fun c _ => ⟨hsame _ _ _ _, hsame _ _ _ _, hsame _ _ _ _⟩, hsame _ _ _ _, hsame _ _ _ _⟩

/-- **When no contradiction lands.**  The guard refuses the proposal, or the baseline was not
collected, or the contradictions are harmless. -/
theorem leavesRepeated_judge_iff :
    LeavesRepeated baseline proposal (judge D rateText blobs baseline proposal) ↔
      guardReason rateText (verifyRiskRefs D blobs proposal) ≠ "" ∨
        baseline.collected ≠ .measured ∨ HarmlessIn D blobs baseline proposal := by
  rw [judge]
  by_cases hguard : guardReason rateText (verifyRiskRefs D blobs proposal) ≠ ""
  · rw [if_pos hguard]
    exact iff_of_true (leavesRepeated_of_eq rfl rfl) (.inl hguard)
  · rw [if_neg hguard, or_iff_right hguard]
    by_cases hcollected : baseline.collected = .measured
    · rw [or_iff_right (not_not.mpr hcollected), ofRows_survivors, LeavesRepeated]
      obtain ⟨hcaps, hsystem⟩ := applyJudgment_rows hcollected
        { threats := proposal.threats.filter fun p => Accepted D blobs (ProposedRow.threat p)
          vulnerabilities :=
            proposal.vulnerabilities.filter fun p => Accepted D blobs (ProposedRow.vulnerability p)
          controls := proposal.controls.filter fun p => Accepted D blobs (ProposedRow.control p)
          boundaries :=
            proposal.boundaries.filter fun p => Accepted D blobs (ProposedRow.boundary p)
          escalations :=
            proposal.escalations.filter fun p => Accepted D blobs (ProposedRow.escalation p) }
        proposal.rows.length
      rw [hcaps, hsystem, List.forall₂_map_right_iff, List.forall₂_same]
      refine and_congr (forall₂_congr fun c hc => and_congr ?_ (and_congr ?_ ?_)) (and_congr ?_ ?_)
      · exact keeps_disposed_iff fun row _ => knownOnly_of_mem (List.mem_map_of_mem hc) _
      · exact keeps_disposed_iff fun row _ => rfl
      · exact keeps_disposed_iff fun row _ => knownOnly_of_mem (List.mem_map_of_mem hc) _
      · exact keeps_disposed_iff fun row _ => rfl
      · exact keeps_disposed_iff fun row _ => rfl
    · rw [applyJudgment, if_pos hcollected]
      exact iff_of_true (leavesRepeated_of_eq rfl rfl) (.inl hcollected)

/-- **A disposition given twice never lands, in either flow, exactly when** the guard refuses the
proposal, or the baseline was not collected, or the contradictions are harmless. -/
theorem duplicates_never_land_iff (D : UnicodeDigits) (blobs : String → Option String)
    (errorText : String → String) (rateText : ℕ → ℕ → String) (context : DiscoverContext)
    (rows : List ProposedDisposition) (baseline : UnifiedRiskMap) (proposal : RiskProposal) :
    ((∀ stamped, stamp errorText context (some (verifyRefs D blobs rows).survivors)
          (verifyRefs D blobs rows).refusals = .ok stamped →
        ∀ d ∈ stamped.dispositions, Repeated ProposedDisposition.candidateId rows d.candidateId →
          d.action = .flag ∧ d.source = .dropped) ∧
      LeavesRepeated baseline proposal (judge D rateText blobs baseline proposal)) ↔
    guardReason rateText (verifyRiskRefs D blobs proposal) ≠ "" ∨
      baseline.collected ≠ .measured ∨ HarmlessIn D blobs baseline proposal := by
  rw [leavesRepeated_judge_iff, and_iff_right]
  exact fun stamped hstamped d hd hrepeated => flag_of_repeated hstamped hd hrepeated

/-! ### A second row that lands -/

/-- One capability, every category not applicable. -/
def sampleBaseline : UnifiedRiskMap where
  capabilities :=
    [{ bcId := "BC-001"
       criticality := { level := some .high, collected := .measured }
       threats := [.spoofing, .tampering, .repudiation, .informationDisclosure, .denialOfService,
         .elevationOfPrivilege].map fun category =>
           { category := category, applicable := false, rationale := "no signal" }
       controls := [.authentication, .authorization, .validation, .monitoring, .encryption].map
         fun family =>
           { family := family, collected := .notCollected "no scan ran", rule := "no_source" }
       security := { value := { collected := .notCollected "no scan ran" } }
       qa := { value := { collected := .notCollected "no scan ran" } }
       unified := { value := { collected := .notCollected "no scan ran" } } }]
  collected := .measured

/-- The first row cites a file that does not exist; the second contradicts it and cites one that
does, nine times. -/
def sampleContradiction : RiskProposal where
  threats :=
    [{ bcId := "BC-001", category := .spoofing, applicable := false, rationale := "tokens are signed"
       evidence := [⟨"src/tokens.py", ""⟩] },
      { bcId := "BC-001", category := .spoofing, applicable := true, rationale := "no login"
        evidence := List.replicate 9 ⟨"src/auth.py", ""⟩ }]

def sampleBlobs (path : String) : Option String :=
  if path = "src/auth.py" then some "def login(): ..." else none

theorem second_row_lands : ¬LeavesRepeated sampleBaseline sampleContradiction
    (judge asciiDigits (fun _ _ => "0.10") sampleBlobs sampleBaseline sampleContradiction) := by
  rw [leavesRepeated_judge_iff]
  rintro (hguard | hcollected | hharmless)
  · exact hguard (by decide +kernel)
  · exact hcollected rfl
  · have hrow := (hharmless.1 _ List.mem_cons_self).1 _ List.mem_cons_self (by decide)
      { bcId := "BC-001"
        category := .spoofing
        applicable := true
        rationale := "no login"
        evidence := List.replicate 9 ⟨"src/auth.py", ""⟩ }
      ⟨by decide +kernel, by decide +kernel⟩ rfl (by decide +kernel)
    exact absurd hrow (by decide +kernel)

end Kroker.Risk
