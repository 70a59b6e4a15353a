import Kroker.Assessment.Scores
import Kroker.Dispositions.Store
import Kroker.Merge.QualityGate

/-!
# The risk gate

`assessment/gates/checks.py`: three clauses over the risk map, the capability map and a person's
decisions, and the report they make.  A clause that cannot be evaluated, for the map or for one
element of it, makes no check; it is deferred, and the report names it.

* `Blocks` says what blocks, `report_block_iff` that the report does so then, and `report_warn_iff`
  when it warns.
* The report is the same whatever the order of the capabilities, the findings and the decisions
  (`SameButOrder.report_eq`): what the loops gather are sets, but for the lists of the composites,
  and those follow the ids.
* An unknown criticality shows at each blocker (`exists_blocker_deferral`).  An unknown composite
  shows where the risk map has a row for it; a capability without one appears under a blocker, or
  nowhere.  `gate_lawful_iff` says that nothing else stands between the gate and its law.

The thresholds are rationals, as the scores are.  `repr` of a list of texts is a parameter.
-/

namespace Kroker.RiskGate

open Discover Risk Scores

/-! ## 1.  The report -/

inductive RiskGateVerdict where
  | block
  | warn
  | pass
  deriving DecidableEq

/-- `RiskGateReport`, with what its validators ask of it. -/
@[ext]
structure RiskGateReport where
  verdict : RiskGateVerdict
  checks : List CheckResult := []
  deferred : List String := []
  reasons : List String := []
  checks_sorted : (checks.map CheckResult.name).Pairwise (· < ·)
  deferred_sorted : deferred.Pairwise (· < ·)
  reasons_sorted : reasons.Pairwise (· < ·)

/-- What could not be evaluated: the composite of a row, a blocker of a capability that has no row
or whose criticality did not collect, or the clause over the vulnerabilities. -/
inductive Deferral where
  | composite (bcId reason : String)
  | unmatched (bcId finding : String)
  | unrated (bcId finding : String)
  | judgment (reason : String)

def Deferral.text : Deferral → String
  | .composite bcId reason => "unified composite for " ++ bcId ++ ": " ++ reason
  | .unmatched bcId finding => "testability blocker for " ++ bcId ++ " (" ++ finding ++
      "): no matching capability in the risk map"
  | .unrated bcId finding => "testability blocker for " ++ bcId ++ " (" ++ finding ++
      "): criticality is not_collected"
  | .judgment reason => "unaccepted-confirmed-vulnerability clause: judgment layer did not run (" ++
      reason ++ ")"

/-- The capability it names. -/
def Deferral.bcId : Deferral → Option String
  | .composite bcId _ => some bcId
  | .unmatched bcId _ => some bcId
  | .unrated bcId _ => some bcId
  | .judgment _ => none

def Deferral.finding : Deferral → Option String
  | .composite _ _ => none
  | .unmatched _ finding => some finding
  | .unrated _ finding => some finding
  | .judgment _ => none

/-! ## 2.  The clauses -/

def testabilityIdentity (f : TestabilityFinding) : String :=
  "QS3:" ++ f.pattern ++ ":" ++ f.path ++ ":" ++ f.key

/-- The keys that a person has decided over. -/
def accepted (kind : FindingKind) (dispositions : List FindingDisposition) : List String :=
  (dispositions.filter (·.kind = kind)).map (·.key)

section Clauses

-- `repr` of a list of strings
variable (reprList : List String → String)

/-- The keys of the confirmed vulnerabilities that nobody accepted. -/
def offendingVulnerabilities (riskMap : UnifiedRiskMap) (dispositions : List FindingDisposition) :
    List String :=
  sortedSet (riskMap.capabilities.flatMap fun cap =>
    (cap.vulnerabilities.filter fun v =>
      v.classification = .confirmed ∧ v.key ∉ accepted .vulnerability dispositions).map (·.key))

def unacceptedConfirmedVulnerabilities (riskMap : UnifiedRiskMap)
    (dispositions : List FindingDisposition) : Option CheckResult :=
  if riskMap.judgment ≠ .measured then none
  else
    let offending := offendingVulnerabilities riskMap dispositions
    some
      { name := "risk_no_unaccepted_confirmed_vuln"
        passed := offending = []
        classification := .absolute
        detail := if offending = [] then ""
          else "unaccepted confirmed vulnerabilities: " ++ reprList offending }

/-- The round of the loop for one capability: what it adds to `offending` and to `deferred`. -/
def blockerRound (rating : Option CriticalityRating) (accepted : List String) (bcId : String)
    (findings : List TestabilityFinding) : List String × List Deferral :=
  let blockers := findings.filter fun f => f.severity = .blocks
  if blockers = [] then ([], [])
  else
    match rating with
    | none => ([], (sortedBy testabilityIdentity blockers).map fun f =>
        .unmatched bcId (testabilityIdentity f))
    | some rating =>
      if rating.collected ≠ .measured then
        ([], (sortedBy testabilityIdentity blockers).map fun f =>
          .unrated bcId (testabilityIdentity f))
      else if rating.level = some .high then
        ((blockers.map testabilityIdentity).filter (· ∉ accepted), [])
      else ([], [])

/-- The rounds, in the order of the ids. -/
def blockerRounds (riskMap : UnifiedRiskMap) (capabilityMap : CapabilityMap)
    (dispositions : List FindingDisposition) : List (List String × List Deferral) :=
  let testabilityByBcId :=
    Dict.ofItems (capabilityMap.capabilities.map fun cap => (cap.bcId, cap.testability))
  let criticalityByBcId :=
    Dict.ofItems (riskMap.capabilities.map fun c => (c.bcId, c.criticality))
  testabilityByBcId.keys.map fun bcId =>
    blockerRound criticalityByBcId[bcId]? (accepted .testability dispositions) bcId
      (testabilityByBcId.getD bcId [])

def highCriticalityTestabilityBlockers (riskMap : UnifiedRiskMap) (capabilityMap : CapabilityMap)
    (dispositions : List FindingDisposition) : CheckResult × List Deferral :=
  let rounds := blockerRounds riskMap capabilityMap dispositions
  let offending := sortedSet (rounds.flatMap Prod.fst)
  ({ name := "risk_no_high_criticality_testability_blocker"
     passed := offending = []
     classification := .absolute
     detail := if offending = [] then ""
       else "testability blockers on HIGH capabilities: " ++ reprList offending },
    sortedBy Deferral.text (rounds.flatMap Prod.snd))

/-- The lists that `composite_threshold` fills. -/
structure Bands where
  block : List String := []
  warn : List String := []
  deferred : List Deferral := []
  anyMeasured : Bool := false

def Bands.row (bands : Bands) (cap : CapabilityRisk) : Except String Bands :=
  let m := cap.unified.value
  if m.collected ≠ .measured then
    .ok { bands with deferred := bands.deferred ++ [.composite cap.bcId m.collected.reason] }
  else
    match m.value with
    | none =>
      .error ("unified composite for " ++ cap.bcId ++ " is MEASURED but has no numeric value")
    | some v =>
      if 4 / 5 ≤ v then .ok { bands with block := bands.block ++ [cap.bcId], anyMeasured := true }
      else if 3 / 5 ≤ v then
        .ok { bands with warn := bands.warn ++ [cap.bcId], anyMeasured := true }
      else .ok { bands with anyMeasured := true }

/-- `composite_threshold`: the lists, from which the check, the warning and what is deferred are
read. -/
def compositeThreshold (riskMap : UnifiedRiskMap) : Except String Bands :=
  (sortedBy CapabilityRisk.bcId riskMap.capabilities).foldlM Bands.row {}

def Bands.check (bands : Bands) : Option CheckResult :=
  if bands.anyMeasured then
    some
      { name := "risk_composite_below_threshold"
        passed := bands.block = []
        classification := .absolute
        detail := joinWith "; "
          ((if bands.block = [] then []
            else ["unified composite >= 0.8 for: " ++ reprList (sortedBy id bands.block)]) ++
            if bands.warn = [] then []
            else ["unified composite in [0.6, 0.8) for: " ++ reprList (sortedBy id bands.warn)]) }
  else none

def Bands.verdict (bands : Bands) : Option RiskGateVerdict :=
  if bands.anyMeasured ∧ bands.block = [] ∧ bands.warn ≠ [] then some .warn else none

def sortedChecks (vulnerabilities : Option CheckResult) (testability : CheckResult)
    (composites : Option CheckResult) : List CheckResult :=
  sortedBy CheckResult.name (vulnerabilities.toList ++ testability :: composites.toList)

theorem sortedChecks_sorted (riskMap : UnifiedRiskMap) (capabilityMap : CapabilityMap)
    (dispositions : List FindingDisposition) (bands : Bands) :
    ((sortedChecks (unacceptedConfirmedVulnerabilities reprList riskMap dispositions)
      (highCriticalityTestabilityBlockers reprList riskMap capabilityMap dispositions).1
      (bands.check reprList)).map CheckResult.name).Pairwise (· < ·) := by
  refine sortedBy_strict ?_
  rw [unacceptedConfirmedVulnerabilities, Bands.check]
  split
  · split
    · exact (by decide : ["risk_no_high_criticality_testability_blocker",
        "risk_composite_below_threshold"].Nodup)
    · exact (by decide : ["risk_no_high_criticality_testability_blocker"].Nodup)
  · split
    · exact (by decide : ["risk_no_unaccepted_confirmed_vuln",
        "risk_no_high_criticality_testability_blocker", "risk_composite_below_threshold"].Nodup)
    · exact (by decide : ["risk_no_unaccepted_confirmed_vuln",
        "risk_no_high_criticality_testability_blocker"].Nodup)

/-- All that is deferred. -/
def deferrals (riskMap : UnifiedRiskMap) (capabilityMap : CapabilityMap)
    (dispositions : List FindingDisposition) (bands : Bands) : List Deferral :=
  (highCriticalityTestabilityBlockers reprList riskMap capabilityMap dispositions).2 ++
    sortedBy Deferral.text bands.deferred ++
    if (unacceptedConfirmedVulnerabilities reprList riskMap dispositions).isNone then
      [.judgment riskMap.judgment.reason]
    else []

/-- The report, once the composites have been read. -/
def report (riskMap : UnifiedRiskMap) (capabilityMap : CapabilityMap)
    (dispositions : List FindingDisposition) (bands : Bands) : RiskGateReport :=
  let checks := sortedChecks (unacceptedConfirmedVulnerabilities reprList riskMap dispositions)
    (highCriticalityTestabilityBlockers reprList riskMap capabilityMap dispositions).1
    (bands.check reprList)
  { verdict :=
      if checks.any fun c => !c.passed then .block
      else if bands.verdict = some .warn then .warn
      else .pass
    checks
    deferred := sortedSet
      ((deferrals reprList riskMap capabilityMap dispositions bands).map Deferral.text)
    reasons := sortedSet ((checks.map CheckResult.detail).filter (· ≠ ""))
    checks_sorted := sortedChecks_sorted reprList riskMap capabilityMap dispositions bands
    deferred_sorted := (lists_sortedSet _).1
    reasons_sorted := (lists_sortedSet _).1 }

def evaluate (riskMap : UnifiedRiskMap) (capabilityMap : CapabilityMap)
    (dispositions : List FindingDisposition) : Except String RiskGateReport :=
  (compositeThreshold riskMap).map (report reprList riskMap capabilityMap dispositions)

end Clauses

/-! ## 3.  The bands -/

/-- A measured score has its number, as `Measurement` asks. -/
def ScoreValid (s : Score) : Prop := s.collected = .measured → s.value.isSome

def measuredAt (test : ℚ → Bool) (cap : CapabilityRisk) : Bool :=
  decide (cap.unified.value.collected = .measured) && cap.unified.value.value.any test

def blockBand : CapabilityRisk → Bool := measuredAt fun v => 4 / 5 ≤ v

def warnBand : CapabilityRisk → Bool := measuredAt fun v => 3 / 5 ≤ v ∧ v < 4 / 5

def measuredBand (cap : CapabilityRisk) : Bool := cap.unified.value.collected = .measured

def compositeDeferral (cap : CapabilityRisk) : Deferral :=
  .composite cap.bcId cap.unified.value.collected.reason

def bandsOf (rows : List CapabilityRisk) : Bands where
  block := (rows.filter blockBand).map (·.bcId)
  warn := (rows.filter warnBand).map (·.bcId)
  deferred := (rows.filter fun cap => !measuredBand cap).map compositeDeferral
  anyMeasured := rows.any measuredBand

def Bands.append (bands bands' : Bands) : Bands where
  block := bands.block ++ bands'.block
  warn := bands.warn ++ bands'.warn
  deferred := bands.deferred ++ bands'.deferred
  anyMeasured := bands.anyMeasured || bands'.anyMeasured

theorem row_eq (bands : Bands) {cap : CapabilityRisk} (hvalid : ScoreValid cap.unified.value) :
    bands.row cap = .ok (bands.append (bandsOf [cap])) := by
  rw [Bands.row]
  by_cases hmeasured : cap.unified.value.collected = .measured
  · obtain ⟨v, hv⟩ := Option.isSome_iff_exists.mp (hvalid hmeasured)
    rw [if_neg (not_not.mpr hmeasured), hv]
    by_cases hblock : 4 / 5 ≤ v
    · have hnotLt : ¬ v < 4 / 5 := not_lt.mpr hblock
      simp [Bands.append, bandsOf, blockBand, warnBand, measuredBand, measuredAt, hmeasured, hv,
        hblock, hnotLt]
    · have hlt : v < 4 / 5 := not_le.mp hblock
      by_cases hwarn : 3 / 5 ≤ v
      · simp [Bands.append, bandsOf, blockBand, warnBand, measuredBand, measuredAt, hmeasured, hv,
          hblock, hwarn, hlt]
      · simp [Bands.append, bandsOf, blockBand, warnBand, measuredBand, measuredAt, hmeasured, hv,
          hblock, hwarn]
  · rw [if_pos hmeasured]
    simp [Bands.append, bandsOf, blockBand, warnBand, measuredBand, measuredAt, hmeasured,
      compositeDeferral]

theorem bandsOf_cons (cap : CapabilityRisk) (rows : List CapabilityRisk) :
    bandsOf (cap :: rows) = (bandsOf [cap]).append (bandsOf rows) := by
  have hsplit : cap :: rows = [cap] ++ rows := rfl
  rw [hsplit, bandsOf, Bands.append, bandsOf, bandsOf, List.filter_append, List.filter_append,
    List.filter_append, List.map_append, List.map_append, List.map_append, List.any_append]

theorem foldlM_row {rows : List CapabilityRisk}
    (hvalid : ∀ row ∈ rows, ScoreValid row.unified.value) (bands : Bands) :
    rows.foldlM Bands.row bands = .ok (bands.append (bandsOf rows)) := by
  induction rows generalizing bands with
  | nil => simp [Bands.append, bandsOf, pure, Except.pure]
  | cons cap rows ih =>
    rw [List.foldlM_cons, row_eq bands (hvalid cap List.mem_cons_self)]
    refine (ih (fun row hrow => hvalid row (List.mem_cons_of_mem _ hrow)) _).trans ?_
    rw [bandsOf_cons cap rows]
    simp only [Bands.append, List.append_assoc, Bool.or_assoc]

/-- **With numbers where they belong nothing is raised**, and the rows are read in the order of
their ids. -/
theorem compositeThreshold_eq {riskMap : UnifiedRiskMap}
    (hvalid : ∀ row ∈ riskMap.capabilities, ScoreValid row.unified.value) :
    compositeThreshold riskMap =
      .ok (bandsOf (sortedBy CapabilityRisk.bcId riskMap.capabilities)) := by
  rw [compositeThreshold, foldlM_row fun row hrow => hvalid row (mem_sortedBy.mp hrow)]
  simp [Bands.append]

/-! ## 4.  What the clauses find -/

/-- Nobody has decided over the finding. -/
def Undecided (dispositions : List FindingDisposition) (kind : FindingKind) (key : String) : Prop :=
  ∀ d ∈ dispositions, d.kind = kind → d.key ≠ key

theorem notMem_accepted_iff {kind : FindingKind} {dispositions : List FindingDisposition}
    {key : String} : key ∉ accepted kind dispositions ↔ Undecided dispositions kind key := by
  constructor
  · intro hnot d hd hkind hkey
    exact hnot (List.mem_map.mpr ⟨d, List.mem_filter.mpr ⟨hd, decide_eq_true hkind⟩, hkey⟩)
  · intro hundecided hmem
    obtain ⟨d, hd, hkey⟩ := List.mem_map.mp hmem
    obtain ⟨hd, hkind⟩ := List.mem_filter.mp hd
    exact hundecided d hd (of_decide_eq_true hkind) hkey

/-- A confirmed vulnerability with this key that nobody has decided over. -/
def OpenVulnerability (riskMap : UnifiedRiskMap) (dispositions : List FindingDisposition)
    (key : String) : Prop :=
  ∃ row ∈ riskMap.capabilities, ∃ v ∈ row.vulnerabilities,
    v.classification = .confirmed ∧ v.key = key ∧ Undecided dispositions .vulnerability key

theorem lists_offendingVulnerabilities (riskMap : UnifiedRiskMap)
    (dispositions : List FindingDisposition) :
    Lists (offendingVulnerabilities riskMap dispositions)
      (OpenVulnerability riskMap dispositions) := by
  refine (lists_sortedSet _).congr fun key => List.mem_flatMap.trans (exists_congr fun row => ?_)
  refine and_congr_right fun _ => List.mem_map.trans ⟨?_, ?_⟩
  · rintro ⟨v, hv, rfl⟩
    obtain ⟨hv, hopen⟩ := List.mem_filter.mp hv
    obtain ⟨hconfirmed, hnot⟩ := of_decide_eq_true hopen
    exact ⟨v, hv, hconfirmed, rfl, notMem_accepted_iff.mp hnot⟩
  · rintro ⟨v, hv, hconfirmed, rfl, hundecided⟩
    exact ⟨v, List.mem_filter.mpr
      ⟨hv, decide_eq_true ⟨hconfirmed, notMem_accepted_iff.mpr hundecided⟩⟩, rfl⟩

def RatedHigh (rating : CriticalityRating) : Prop :=
  rating.collected = .measured ∧ rating.level = some .high

theorem mem_blockerRound_fst {rating : Option CriticalityRating} {accepted : List String}
    {bcId : String} {findings : List TestabilityFinding} {key : String} :
    key ∈ (blockerRound rating accepted bcId findings).1 ↔
      ∃ f ∈ findings, f.severity = .blocks ∧ testabilityIdentity f = key ∧ key ∉ accepted ∧
        ∃ r, rating = some r ∧ RatedHigh r := by
  have hmem : ∀ f, f ∈ findings.filter (fun f => decide (f.severity = .blocks)) ↔
      f ∈ findings ∧ f.severity = .blocks := by
    intro f
    rw [List.mem_filter, decide_eq_true_iff]
  unfold blockerRound
  dsimp only
  by_cases hnil : findings.filter (fun f => decide (f.severity = .blocks)) = []
  · rw [if_pos hnil]
    refine iff_of_false List.not_mem_nil fun ⟨f, hf, hblocks, _⟩ => ?_
    have hin := (hmem f).mpr ⟨hf, hblocks⟩
    rw [hnil] at hin
    exact List.not_mem_nil hin
  rw [if_neg hnil]
  cases rating with
  | none => exact iff_of_false List.not_mem_nil fun ⟨_, _, _, _, _, _, h, _⟩ => nomatch h
  | some r =>
    dsimp only
    by_cases hmeasured : r.collected = .measured
    · rw [if_neg (not_not.mpr hmeasured)]
      by_cases hlevel : r.level = some .high
      · rw [if_pos hlevel, List.mem_filter, List.mem_map, decide_eq_true_iff]
        constructor
        · rintro ⟨⟨f, hf, rfl⟩, hnot⟩
          obtain ⟨hf, hblocks⟩ := (hmem f).mp hf
          exact ⟨f, hf, hblocks, rfl, hnot, r, rfl, hmeasured, hlevel⟩
        · rintro ⟨f, hf, hblocks, rfl, hnot, -⟩
          exact ⟨⟨f, (hmem f).mpr ⟨hf, hblocks⟩, rfl⟩, hnot⟩
      · rw [if_neg hlevel]
        refine iff_of_false List.not_mem_nil fun ⟨_, _, _, _, _, r', hr, hhigh⟩ => ?_
        exact hlevel (Option.some.inj hr ▸ hhigh.2)
    · rw [if_pos hmeasured]
      refine iff_of_false List.not_mem_nil fun ⟨_, _, _, _, _, r', hr, hhigh⟩ => ?_
      exact hmeasured (Option.some.inj hr ▸ hhigh.1)

/-- What a blocker of this capability is deferred as, when it is. -/
def blockerDeferral (rating : Option CriticalityRating) (bcId finding : String) :
    Option Deferral :=
  match rating with
  | none => some (.unmatched bcId finding)
  | some rating => if rating.collected ≠ .measured then some (.unrated bcId finding) else none

theorem mem_blockerRound_snd {rating : Option CriticalityRating} {accepted : List String}
    {bcId : String} {findings : List TestabilityFinding} {d : Deferral} :
    d ∈ (blockerRound rating accepted bcId findings).2 ↔
      ∃ f ∈ findings, f.severity = .blocks ∧
        blockerDeferral rating bcId (testabilityIdentity f) = some d := by
  have hmem : ∀ f, f ∈ findings.filter (fun f => decide (f.severity = .blocks)) ↔
      f ∈ findings ∧ f.severity = .blocks := by
    intro f
    rw [List.mem_filter, decide_eq_true_iff]
  have hmap : ∀ g : String → Deferral,
      d ∈ (sortedBy testabilityIdentity
        (findings.filter fun f => decide (f.severity = .blocks))).map
          (fun f => g (testabilityIdentity f)) ↔
        ∃ f ∈ findings, f.severity = .blocks ∧ some (g (testabilityIdentity f)) = some d := by
    intro g
    rw [List.mem_map]
    refine exists_congr fun f => ?_
    rw [mem_sortedBy, hmem, and_assoc, Option.some.injEq]
  unfold blockerRound
  dsimp only
  by_cases hnil : findings.filter (fun f => decide (f.severity = .blocks)) = []
  · rw [if_pos hnil]
    refine iff_of_false List.not_mem_nil fun ⟨f, hf, hblocks, _⟩ => ?_
    have hin := (hmem f).mpr ⟨hf, hblocks⟩
    rw [hnil] at hin
    exact List.not_mem_nil hin
  rw [if_neg hnil]
  cases rating with
  | none => exact hmap (.unmatched bcId)
  | some r =>
    dsimp only [blockerDeferral]
    by_cases hmeasured : r.collected = .measured
    · rw [if_neg (not_not.mpr hmeasured)]
      refine iff_of_false ?_ fun ⟨_, _, _, h⟩ => ?_
      · split <;> exact List.not_mem_nil
      · rw [if_neg (not_not.mpr hmeasured)] at h
        exact nomatch h
    · simp only [if_pos hmeasured]
      exact hmap (.unrated bcId)

section Rounds

variable {riskMap : UnifiedRiskMap} {capabilityMap : CapabilityMap}
  {dispositions : List FindingDisposition}

def ratings (riskMap : UnifiedRiskMap) : Dict CriticalityRating :=
  Dict.ofItems (riskMap.capabilities.map fun c => (c.bcId, c.criticality))

theorem ratings_eq_some_iff (hrisk : (riskMap.capabilities.map (·.bcId)).Nodup) {bcId : String}
    {rating : CriticalityRating} : (ratings riskMap)[bcId]? = some rating ↔
      ∃ row ∈ riskMap.capabilities, row.bcId = bcId ∧ row.criticality = rating := by
  rw [ratings, Dict.get?_ofItems_of_nodup (by rwa [List.map_map]), List.mem_map]
  exact exists_congr fun row => and_congr_right fun _ => Prod.mk.injEq .. ▸ Iff.rfl

theorem mem_blockerRounds (hcap : (capabilityMap.capabilities.map (·.bcId)).Nodup)
    {round : List String × List Deferral} :
    round ∈ blockerRounds riskMap capabilityMap dispositions ↔
      ∃ cap ∈ capabilityMap.capabilities,
        blockerRound (ratings riskMap)[cap.bcId]? (accepted .testability dispositions) cap.bcId
          cap.testability = round := by
  have hfound : ∀ cap ∈ capabilityMap.capabilities,
      (Dict.ofItems (capabilityMap.capabilities.map fun cap =>
        (cap.bcId, cap.testability)))[cap.bcId]? = some cap.testability := fun cap hmem =>
    (Dict.get?_ofItems_of_nodup (by rwa [List.map_map]) _ _).mpr (List.mem_map.mpr ⟨cap, hmem, rfl⟩)
  refine List.mem_map.trans ⟨?_, ?_⟩
  · rintro ⟨bcId, hkey, rfl⟩
    obtain ⟨findings, hsome⟩ := (Dict.mem_iff_get? _ _).mp (((lists_keys _).2 bcId).mp hkey)
    obtain ⟨cap, hmem, heq⟩ := Dict.exists_of_get?_ofItems_map hsome
    obtain rfl : cap.bcId = bcId := congrArg Prod.fst heq
    refine ⟨cap, hmem, ?_⟩
    rw [Dict.getD_eq, hfound cap hmem]
    rfl
  · rintro ⟨cap, hmem, rfl⟩
    refine ⟨cap.bcId, ((lists_keys _).2 _).mpr ?_, ?_⟩
    · exact (Dict.mem_iff_get? _ _).mpr ⟨_, hfound cap hmem⟩
    rw [Dict.getD_eq, hfound cap hmem]
    rfl

/-- A `blocks` finding of a capability whose row is rated high, and nobody has decided over it. -/
def OpenBlocker (riskMap : UnifiedRiskMap) (capabilityMap : CapabilityMap)
    (dispositions : List FindingDisposition) (key : String) : Prop :=
  ∃ cap ∈ capabilityMap.capabilities,
    (∃ f ∈ cap.testability, f.severity = .blocks ∧ testabilityIdentity f = key) ∧
      Undecided dispositions .testability key ∧
      ∃ row ∈ riskMap.capabilities, row.bcId = cap.bcId ∧ RatedHigh row.criticality

theorem mem_rounds_fst (hrisk : (riskMap.capabilities.map (·.bcId)).Nodup)
    (hcap : (capabilityMap.capabilities.map (·.bcId)).Nodup) {key : String} :
    key ∈ (blockerRounds riskMap capabilityMap dispositions).flatMap Prod.fst ↔
      OpenBlocker riskMap capabilityMap dispositions key := by
  have hrated : ∀ {bcId : String}, (∃ r, (ratings riskMap)[bcId]? = some r ∧ RatedHigh r) ↔
      ∃ row ∈ riskMap.capabilities, row.bcId = bcId ∧ RatedHigh row.criticality := by
    intro bcId
    constructor
    · rintro ⟨r, hr, hhigh⟩
      obtain ⟨row, hrow, heq, rfl⟩ := (ratings_eq_some_iff hrisk).mp hr
      exact ⟨row, hrow, heq, hhigh⟩
    · rintro ⟨row, hrow, heq, hhigh⟩
      exact ⟨_, (ratings_eq_some_iff hrisk).mpr ⟨row, hrow, heq, rfl⟩, hhigh⟩
  rw [List.mem_flatMap]
  constructor
  · rintro ⟨round, hround, hkey⟩
    obtain ⟨cap, hmem, rfl⟩ := (mem_blockerRounds hcap).mp hround
    obtain ⟨f, hf, hblocks, hid, hnot, hr⟩ := mem_blockerRound_fst.mp hkey
    exact ⟨cap, hmem, ⟨f, hf, hblocks, hid⟩, notMem_accepted_iff.mp hnot, hrated.mp hr⟩
  · rintro ⟨cap, hmem, ⟨f, hf, hblocks, hid⟩, hundecided, hr⟩
    exact ⟨_, (mem_blockerRounds hcap).mpr ⟨cap, hmem, rfl⟩, mem_blockerRound_fst.mpr
      ⟨f, hf, hblocks, hid, notMem_accepted_iff.mpr hundecided, hrated.mpr hr⟩⟩

theorem mem_rounds_snd (hcap : (capabilityMap.capabilities.map (·.bcId)).Nodup) {d : Deferral} :
    d ∈ (blockerRounds riskMap capabilityMap dispositions).flatMap Prod.snd ↔
      ∃ cap ∈ capabilityMap.capabilities, ∃ f ∈ cap.testability, f.severity = .blocks ∧
        blockerDeferral (ratings riskMap)[cap.bcId]? cap.bcId (testabilityIdentity f) = some d := by
  rw [List.mem_flatMap]
  constructor
  · rintro ⟨round, hround, hd⟩
    obtain ⟨cap, hmem, rfl⟩ := (mem_blockerRounds hcap).mp hround
    exact ⟨cap, hmem, mem_blockerRound_snd.mp hd⟩
  · rintro ⟨cap, hmem, hd⟩
    exact ⟨_, (mem_blockerRounds hcap).mpr ⟨cap, hmem, rfl⟩, mem_blockerRound_snd.mpr hd⟩

end Rounds

/-! ## 5.  The verdict -/

def CompositeAt (riskMap : UnifiedRiskMap) (test : ℚ → Prop) : Prop :=
  ∃ row ∈ riskMap.capabilities, row.unified.value.collected = .measured ∧
    ∃ v, row.unified.value.value = some v ∧ test v

/-- **What blocks**: a clause over vulnerabilities, one over blockers, and one over composites. -/
def Blocks (riskMap : UnifiedRiskMap) (capabilityMap : CapabilityMap)
    (dispositions : List FindingDisposition) : Prop :=
  (riskMap.judgment = .measured ∧ ∃ key, OpenVulnerability riskMap dispositions key) ∨
    (∃ key, OpenBlocker riskMap capabilityMap dispositions key) ∨
    CompositeAt riskMap (4 / 5 ≤ ·)

section Verdict

variable (reprList : List String → String) {riskMap : UnifiedRiskMap}
  {capabilityMap : CapabilityMap} {dispositions : List FindingDisposition}

/-- The lists that the rows of a map fill. -/
def bandsIn (riskMap : UnifiedRiskMap) : Bands :=
  bandsOf (sortedBy CapabilityRisk.bcId riskMap.capabilities)

theorem exists_measuredAt_iff {test : ℚ → Prop} [DecidablePred test] {rows : List CapabilityRisk} :
    ((sortedBy CapabilityRisk.bcId rows).filter (measuredAt fun v => test v)).map (·.bcId) ≠ [] ↔
      ∃ row ∈ rows, row.unified.value.collected = .measured ∧
        ∃ v, row.unified.value.value = some v ∧ test v := by
  have hmem : ∀ row, row ∈ (sortedBy CapabilityRisk.bcId rows).filter (measuredAt fun v => test v) ↔
      row ∈ rows ∧ row.unified.value.collected = .measured ∧
        ∃ v, row.unified.value.value = some v ∧ test v := by
    intro row
    rw [List.mem_filter, mem_sortedBy, measuredAt, Bool.and_eq_true, decide_eq_true_iff,
      Option.any_eq_true]
    simp only [decide_eq_true_eq]
  rw [ne_eq, List.map_eq_nil_iff]
  constructor
  · intro hne
    obtain ⟨row, hrow⟩ := List.exists_mem_of_ne_nil _ hne
    exact ⟨row, (hmem row).mp hrow⟩
  · rintro ⟨row, hrow⟩
    exact List.ne_nil_of_mem ((hmem row).mpr hrow)

theorem block_ne_nil_iff : (bandsIn riskMap).block ≠ [] ↔ CompositeAt riskMap (4 / 5 ≤ ·) :=
  exists_measuredAt_iff

theorem warn_ne_nil_iff : (bandsIn riskMap).warn ≠ [] ↔
    CompositeAt riskMap fun v => 3 / 5 ≤ v ∧ v < 4 / 5 :=
  exists_measuredAt_iff

theorem CompositeAt.anyMeasured {test : ℚ → Prop} (h : CompositeAt riskMap test) :
    (bandsIn riskMap).anyMeasured = true := by
  obtain ⟨row, hrow, hmeasured, -⟩ := h
  exact List.any_eq_true.mpr ⟨row, mem_sortedBy.mpr hrow, decide_eq_true hmeasured⟩

theorem exists_failed_iff {vulnerabilities composites : Option CheckResult}
    {testability : CheckResult} :
    ((sortedChecks vulnerabilities testability composites).any fun c => !c.passed) = true ↔
      (∃ c ∈ vulnerabilities, c.passed = false) ∨ testability.passed = false ∨
        ∃ c ∈ composites, c.passed = false := by
  rw [List.any_eq_true]
  simp only [sortedChecks, mem_sortedBy, List.mem_append, List.mem_cons, Option.mem_toList,
    Bool.not_eq_true', or_and_right, exists_or, exists_eq_left, Option.mem_def]

theorem vulnerabilities_failed_iff :
    (∃ c ∈ unacceptedConfirmedVulnerabilities reprList riskMap dispositions, c.passed = false) ↔
      riskMap.judgment = .measured ∧ ∃ key, OpenVulnerability riskMap dispositions key := by
  have hlists := lists_offendingVulnerabilities riskMap dispositions
  rw [unacceptedConfirmedVulnerabilities]
  by_cases hjudged : riskMap.judgment = .measured
  · rw [if_neg (not_not.mpr hjudged)]
    simp only [Option.mem_def, Option.some.injEq, exists_eq_left', decide_eq_false_iff_not]
    refine ⟨fun hne => ?_, fun ⟨_, key, hopen⟩ => List.ne_nil_of_mem ((hlists.2 key).mpr hopen)⟩
    obtain ⟨key, hkey⟩ := List.exists_mem_of_ne_nil _ hne
    exact ⟨hjudged, key, (hlists.2 key).mp hkey⟩
  · rw [if_pos hjudged]
    exact iff_of_false (fun ⟨_, h, _⟩ => nomatch h) fun h => hjudged h.1

theorem testability_failed_iff (hrisk : (riskMap.capabilities.map (·.bcId)).Nodup)
    (hcap : (capabilityMap.capabilities.map (·.bcId)).Nodup) :
    (highCriticalityTestabilityBlockers reprList riskMap capabilityMap dispositions).1.passed =
        false ↔
      ∃ key, OpenBlocker riskMap capabilityMap dispositions key := by
  simp only [highCriticalityTestabilityBlockers, decide_eq_false_iff_not]
  constructor
  · intro hne
    obtain ⟨key, hkey⟩ := List.exists_mem_of_ne_nil _ hne
    exact ⟨key, (mem_rounds_fst hrisk hcap).mp (mem_sortedSet.mp hkey)⟩
  · rintro ⟨key, hopen⟩
    exact List.ne_nil_of_mem (mem_sortedSet.mpr ((mem_rounds_fst hrisk hcap).mpr hopen))

theorem composites_failed_iff :
    (∃ c ∈ (bandsIn riskMap).check reprList, c.passed = false) ↔
      CompositeAt riskMap (4 / 5 ≤ ·) := by
  rw [← block_ne_nil_iff, Bands.check]
  constructor
  · rintro ⟨c, hc, hfailed⟩
    split at hc
    · obtain rfl := Option.some.inj hc
      exact of_decide_eq_false hfailed
    · exact nomatch hc
  · intro hne
    rw [if_pos (block_ne_nil_iff.mp hne).anyMeasured]
    exact ⟨_, rfl, decide_eq_false hne⟩

/-- **The report blocks** exactly where one of the three clauses finds something. -/
theorem report_block_iff (hrisk : (riskMap.capabilities.map (·.bcId)).Nodup)
    (hcap : (capabilityMap.capabilities.map (·.bcId)).Nodup) :
    (report reprList riskMap capabilityMap dispositions (bandsIn riskMap)).verdict = .block ↔
      Blocks riskMap capabilityMap dispositions := by
  rw [Blocks, ← vulnerabilities_failed_iff reprList, ← testability_failed_iff reprList hrisk hcap,
    ← composites_failed_iff reprList, ← exists_failed_iff, report]
  dsimp only
  split
  · rename_i hfailed
    exact iff_of_true rfl hfailed
  · rename_i hpassed
    refine iff_of_false ?_ hpassed
    split <;> exact nofun

/-- **The report warns** exactly where nothing blocks and a composite lies between. -/
theorem report_warn_iff (hrisk : (riskMap.capabilities.map (·.bcId)).Nodup)
    (hcap : (capabilityMap.capabilities.map (·.bcId)).Nodup) :
    (report reprList riskMap capabilityMap dispositions (bandsIn riskMap)).verdict = .warn ↔
      ¬ Blocks riskMap capabilityMap dispositions ∧
        CompositeAt riskMap fun v => 3 / 5 ≤ v ∧ v < 4 / 5 := by
  rw [← report_block_iff reprList hrisk hcap, report]
  dsimp only
  split
  · exact iff_of_false nofun fun h => h.1 rfl
  · rename_i hpassed
    have hbands : (bandsIn riskMap).verdict = some .warn ↔
        CompositeAt riskMap fun v => 3 / 5 ≤ v ∧ v < 4 / 5 := by
      rw [← warn_ne_nil_iff, Bands.verdict]
      constructor
      · intro h
        split at h
        · rename_i hwarn
          exact hwarn.2.2
        · exact nomatch h
      · intro hwarn
        refine if_pos ⟨(warn_ne_nil_iff.mp hwarn).anyMeasured, not_not.mp fun hne => ?_, hwarn⟩
        exact hpassed (exists_failed_iff.mpr (.inr (.inr
          ((composites_failed_iff reprList).mpr (block_ne_nil_iff.mp hne)))))
    rw [← hbands]
    split
    · rename_i hwarn
      exact iff_of_true rfl ⟨nofun, hwarn⟩
    · rename_i hnot
      exact iff_of_false nofun fun h => hnot h.2

end Verdict

/-! ## 6.  What is deferred -/

def CompositeUnknown (riskMap : UnifiedRiskMap) (capabilityMap : CapabilityMap) (bcId : String) :
    Prop :=
  (∃ row ∈ riskMap.capabilities, row.bcId = bcId ∧ row.unified.value.collected ≠ .measured) ∨
    (∃ cap ∈ capabilityMap.capabilities, cap.bcId = bcId) ∧
      ∀ row ∈ riskMap.capabilities, row.bcId ≠ bcId

def CriticalityUnknown (riskMap : UnifiedRiskMap) (bcId : String) : Prop :=
  ∀ row ∈ riskMap.capabilities, row.bcId = bcId → row.criticality.collected ≠ .measured

section Deferred

variable {reprList : List String → String} {riskMap : UnifiedRiskMap}
  {capabilityMap : CapabilityMap} {dispositions : List FindingDisposition}

theorem mem_deferrals (hcap : (capabilityMap.capabilities.map (·.bcId)).Nodup) {d : Deferral} :
    d ∈ deferrals reprList riskMap capabilityMap dispositions (bandsIn riskMap) ↔
      (∃ cap ∈ capabilityMap.capabilities, ∃ f ∈ cap.testability, f.severity = .blocks ∧
          blockerDeferral (ratings riskMap)[cap.bcId]? cap.bcId (testabilityIdentity f) = some d) ∨
        (∃ row ∈ riskMap.capabilities, row.unified.value.collected ≠ .measured ∧
          compositeDeferral row = d) ∨
        riskMap.judgment ≠ .measured ∧ d = .judgment riskMap.judgment.reason := by
  have hblockers :
      d ∈ (highCriticalityTestabilityBlockers reprList riskMap capabilityMap dispositions).2 ↔ _ :=
    mem_sortedBy.trans (mem_rounds_snd hcap)
  have hcomposites : d ∈ sortedBy Deferral.text (bandsIn riskMap).deferred ↔
      ∃ row ∈ riskMap.capabilities, row.unified.value.collected ≠ .measured ∧
        compositeDeferral row = d := by
    refine mem_sortedBy.trans (List.mem_map.trans (exists_congr fun row => ?_))
    rw [List.mem_filter, mem_sortedBy, measuredBand, Bool.not_eq_true', decide_eq_false_iff_not,
      and_assoc]
  have hjudgment : d ∈ (if (unacceptedConfirmedVulnerabilities reprList riskMap
        dispositions).isNone then [Deferral.judgment riskMap.judgment.reason] else []) ↔
      riskMap.judgment ≠ .measured ∧ d = .judgment riskMap.judgment.reason := by
    rw [unacceptedConfirmedVulnerabilities]
    by_cases hjudged : riskMap.judgment = .measured
    · rw [if_neg (not_not.mpr hjudged)]
      exact iff_of_false List.not_mem_nil fun h => h.1 hjudged
    · rw [if_pos hjudged]
      exact List.mem_singleton.trans (and_iff_right hjudged).symm
  rw [deferrals, List.mem_append, List.mem_append, hblockers, hcomposites, hjudgment, or_assoc]

/-- **A blocker whose criticality is unknown** is deferred, whatever else the maps say. -/
theorem exists_blocker_deferral (hrisk : (riskMap.capabilities.map (·.bcId)).Nodup)
    (hcap : (capabilityMap.capabilities.map (·.bcId)).Nodup) {cap : Scores.Capability}
    (hmem : cap ∈ capabilityMap.capabilities) {f : TestabilityFinding} (hf : f ∈ cap.testability)
    (hblocks : f.severity = .blocks) (hunknown : CriticalityUnknown riskMap cap.bcId) :
    ∃ d ∈ deferrals reprList riskMap capabilityMap dispositions (bandsIn riskMap),
      d.bcId = some cap.bcId ∧ d.finding = some (testabilityIdentity f) := by
  cases hrating : (ratings riskMap)[cap.bcId]? with
  | none =>
    refine ⟨.unmatched cap.bcId (testabilityIdentity f), ?_, rfl, rfl⟩
    exact (mem_deferrals hcap).mpr (.inl ⟨cap, hmem, f, hf, hblocks, by rw [hrating]; rfl⟩)
  | some rating =>
    obtain ⟨row, hrow, hid, rfl⟩ := (ratings_eq_some_iff hrisk).mp hrating
    refine ⟨.unrated cap.bcId (testabilityIdentity f), ?_, rfl, rfl⟩
    refine (mem_deferrals hcap).mpr (.inl ⟨cap, hmem, f, hf, hblocks, ?_⟩)
    rw [hrating]
    exact if_pos (hunknown row hrow hid)

theorem exists_blocker_of_deferral (hcap : (capabilityMap.capabilities.map (·.bcId)).Nodup)
    {cap : Scores.Capability} (hmem : cap ∈ capabilityMap.capabilities)
    (hnone : ∀ row ∈ riskMap.capabilities, row.bcId ≠ cap.bcId) {d : Deferral}
    (hd : d ∈ deferrals reprList riskMap capabilityMap dispositions (bandsIn riskMap))
    (hid : d.bcId = some cap.bcId) : ∃ f ∈ cap.testability, f.severity = .blocks := by
  rcases (mem_deferrals hcap).mp hd with ⟨cap', hmem', f, hf, hblocks, heq⟩ | ⟨row, hrow, -, rfl⟩ |
    ⟨-, rfl⟩
  · have hsame : d.bcId = some cap'.bcId := by
      unfold blockerDeferral at heq
      split at heq
      · exact Option.some.inj heq ▸ rfl
      · split at heq
        · exact Option.some.inj heq ▸ rfl
        · exact nomatch heq
    have hcap' : cap' = cap :=
      List.inj_on_of_nodup_map hcap hmem' hmem (Option.some.inj (hsame.symm.trans hid))
    exact ⟨f, hcap' ▸ hf, hblocks⟩
  · exact absurd (Option.some.inj hid) (hnone row hrow)
  · exact nomatch hid

end Deferred

/-! ## 7.  The order of the maps -/

/-- The rows correspond, in some order. -/
def Reordered {α : Type} (R : α → α → Prop) (l l' : List α) : Prop :=
  ∃ m, l.Perm m ∧ List.Forall₂ R m l'

theorem Reordered.exists_iff {α : Type} {R : α → α → Prop} {l l' : List α} (h : Reordered R l l')
    {p q : α → Prop} (hpq : ∀ a b, R a b → (p a ↔ q b)) : (∃ a ∈ l, p a) ↔ ∃ b ∈ l', q b := by
  obtain ⟨m, hperm, hm⟩ := h
  have hm' : (∃ a ∈ m, p a) ↔ ∃ b ∈ l', q b := by
    clear hperm
    induction hm with
    | nil => exact iff_of_false (fun ⟨_, h, _⟩ => List.not_mem_nil h) fun ⟨_, h, _⟩ =>
        List.not_mem_nil h
    | cons hab _ ih => rw [List.exists_mem_cons_iff, List.exists_mem_cons_iff, hpq _ _ hab, ih]
  rw [← hm']
  exact exists_congr fun a => and_congr_left' hperm.mem_iff

theorem Reordered.map_perm {α κ : Type} {R : α → α → Prop} {l l' : List α} (h : Reordered R l l')
    {key : α → κ} (hkey : ∀ a b, R a b → key b = key a) : (l.map key).Perm (l'.map key) := by
  obtain ⟨m, hperm, hm⟩ := h
  have hmap : m.map key = l'.map key := by
    clear hperm
    induction hm with
    | nil => rfl
    | cons hab _ ih => rw [List.map_cons, List.map_cons, ih, hkey _ _ hab]
  exact hmap ▸ hperm.map key

/-- A row whose vulnerabilities are in another order. -/
structure RowReordered (row row' : CapabilityRisk) : Prop where
  bcId : row'.bcId = row.bcId
  criticality : row'.criticality = row.criticality
  unified : row'.unified = row.unified
  vulnerabilities : row.vulnerabilities.Perm row'.vulnerabilities

/-- A capability whose findings are in another order. -/
structure CapabilityReordered (cap cap' : Scores.Capability) : Prop where
  bcId : cap'.bcId = cap.bcId
  testability : cap.testability.Perm cap'.testability

theorem bandsOf_reordered {rows rows' : List CapabilityRisk}
    (h : List.Forall₂ RowReordered rows rows') : bandsOf rows' = bandsOf rows := by
  induction h with
  | nil => rfl
  | @cons row row' rows rows' hrow _ ih =>
    have hone : bandsOf [row'] = bandsOf [row] := by
      have hblock : blockBand row' = blockBand row := by
        rw [blockBand, measuredAt, hrow.unified]
        rfl
      have hwarn : warnBand row' = warnBand row := by
        rw [warnBand, measuredAt, hrow.unified]
        rfl
      have hmeasured : measuredBand row' = measuredBand row := by
        rw [measuredBand, measuredBand, hrow.unified]
      have hdeferral : compositeDeferral row' = compositeDeferral row := by
        rw [compositeDeferral, compositeDeferral, hrow.unified, hrow.bcId]
      simp only [bandsOf, List.filter_cons, List.filter_nil, List.any_cons, List.any_nil, hblock,
        hwarn, hmeasured]
      congr 1
      · split <;> simp [hrow.bcId]
      · split <;> simp [hrow.bcId]
      · split <;> simp [hdeferral]
    rw [bandsOf_cons row' rows', bandsOf_cons row rows, hone, ih]

structure SameButOrder (riskMap riskMap' : UnifiedRiskMap)
    (capabilityMap capabilityMap' : CapabilityMap)
    (dispositions dispositions' : List FindingDisposition) : Prop where
  judgment : riskMap'.judgment = riskMap.judgment
  rows : Reordered RowReordered riskMap.capabilities riskMap'.capabilities
  capabilities :
    Reordered CapabilityReordered capabilityMap.capabilities capabilityMap'.capabilities
  dispositions : dispositions.Perm dispositions'

namespace SameButOrder

variable {reprList : List String → String} {riskMap riskMap' : UnifiedRiskMap}
  {capabilityMap capabilityMap' : CapabilityMap}
  {dispositions dispositions' : List FindingDisposition}
  (h : SameButOrder riskMap riskMap' capabilityMap capabilityMap' dispositions dispositions')

include h

theorem nodup_rows (hrisk : (riskMap.capabilities.map (·.bcId)).Nodup) :
    (riskMap'.capabilities.map (·.bcId)).Nodup :=
  (h.rows.map_perm fun _ _ hrow => hrow.bcId).nodup_iff.mp hrisk

theorem nodup_capabilities (hcap : (capabilityMap.capabilities.map (·.bcId)).Nodup) :
    (capabilityMap'.capabilities.map (·.bcId)).Nodup :=
  (h.capabilities.map_perm fun _ _ hcap => hcap.bcId).nodup_iff.mp hcap

theorem undecided_iff {kind : FindingKind} {key : String} :
    Undecided dispositions kind key ↔ Undecided dispositions' kind key :=
  forall_congr' fun _ => imp_congr_left h.dispositions.mem_iff

theorem exists_row_iff {p q : CapabilityRisk → Prop}
    (hpq : ∀ row row', RowReordered row row' → (p row ↔ q row')) :
    (∃ row ∈ riskMap.capabilities, p row) ↔ ∃ row ∈ riskMap'.capabilities, q row :=
  h.rows.exists_iff hpq

theorem openVulnerability_iff {key : String} :
    OpenVulnerability riskMap dispositions key ↔ OpenVulnerability riskMap' dispositions' key := by
  refine h.exists_row_iff fun row row' hrow => exists_congr fun v => ?_
  rw [hrow.vulnerabilities.mem_iff, h.undecided_iff]

theorem openBlocker_iff {key : String} : OpenBlocker riskMap capabilityMap dispositions key ↔
    OpenBlocker riskMap' capabilityMap' dispositions' key := by
  refine h.capabilities.exists_iff fun cap cap' hcap => and_congr ?_ (and_congr h.undecided_iff ?_)
  · exact exists_congr fun f => and_congr_left' hcap.testability.mem_iff
  · refine h.exists_row_iff fun row row' hrow => ?_
    rw [hrow.bcId, hcap.bcId, hrow.criticality]

theorem bands_eq (hrisk : (riskMap.capabilities.map (·.bcId)).Nodup) :
    bandsIn riskMap' = bandsIn riskMap := by
  obtain ⟨m, hperm, hm⟩ := h.rows
  have hsorted : sortedBy CapabilityRisk.bcId riskMap.capabilities =
      sortedBy CapabilityRisk.bcId m :=
    sortedBy_congr hrisk ((hperm.map _).nodup_iff.mp hrisk) fun _ => hperm.mem_iff
  have hrows : List.Forall₂ RowReordered (sortedBy CapabilityRisk.bcId m)
      (sortedBy CapabilityRisk.bcId riskMap'.capabilities) :=
    forall₂_sortedBy (fun _ _ hrow => hrow.bcId.symm) hm
  rw [bandsIn, bandsIn, hsorted, bandsOf_reordered hrows]

theorem ratings_eq (hrisk : (riskMap.capabilities.map (·.bcId)).Nodup) :
    ratings riskMap' = ratings riskMap := by
  refine Dict.ext fun bcId => Option.ext fun rating => ?_
  rw [ratings_eq_some_iff hrisk, ratings_eq_some_iff (h.nodup_rows hrisk)]
  refine (h.exists_row_iff fun row row' hrow => ?_).symm
  rw [hrow.bcId, hrow.criticality]

/-- **The report does not depend on the order** of what the maps and the decisions list. -/
theorem report_eq (hrisk : (riskMap.capabilities.map (·.bcId)).Nodup)
    (hcap : (capabilityMap.capabilities.map (·.bcId)).Nodup) :
    report reprList riskMap' capabilityMap' dispositions' (bandsIn riskMap') =
      report reprList riskMap capabilityMap dispositions (bandsIn riskMap) := by
  have hvulnerabilities : unacceptedConfirmedVulnerabilities reprList riskMap' dispositions' =
      unacceptedConfirmedVulnerabilities reprList riskMap dispositions := by
    have hoffending : offendingVulnerabilities riskMap' dispositions' =
        offendingVulnerabilities riskMap dispositions :=
      (lists_offendingVulnerabilities riskMap' dispositions').unique
        ((lists_offendingVulnerabilities riskMap dispositions).congr fun _ =>
          h.openVulnerability_iff)
    rw [unacceptedConfirmedVulnerabilities, unacceptedConfirmedVulnerabilities, h.judgment,
      hoffending]
  have htestability :
      (highCriticalityTestabilityBlockers reprList riskMap' capabilityMap' dispositions').1 =
        (highCriticalityTestabilityBlockers reprList riskMap capabilityMap dispositions).1 := by
    have hoffending :
        sortedSet ((blockerRounds riskMap' capabilityMap' dispositions').flatMap Prod.fst) =
          sortedSet ((blockerRounds riskMap capabilityMap dispositions).flatMap Prod.fst) := by
      refine (lists_sortedSet _).unique ((lists_sortedSet _).congr fun key => ?_)
      rw [mem_rounds_fst hrisk hcap, mem_rounds_fst (h.nodup_rows hrisk)
        (h.nodup_capabilities hcap), h.openBlocker_iff]
    simp only [highCriticalityTestabilityBlockers, hoffending]
  have hchecks : (report reprList riskMap' capabilityMap' dispositions' (bandsIn riskMap')).checks =
      (report reprList riskMap capabilityMap dispositions (bandsIn riskMap)).checks := by
    simp only [report, hvulnerabilities, htestability, h.bands_eq hrisk]
  refine RiskGateReport.ext ?_ hchecks ?_ ?_
  · simp only [report, hvulnerabilities, htestability, h.bands_eq hrisk]
  · refine (lists_sortedSet _).unique ((lists_sortedSet _).congr fun text => ?_)
    simp only [List.mem_map]
    refine exists_congr fun d => and_congr_left' ?_
    rw [mem_deferrals hcap, mem_deferrals (h.nodup_capabilities hcap), h.ratings_eq hrisk,
      h.judgment]
    refine or_congr ?_ (or_congr_left ?_)
    · refine h.capabilities.exists_iff fun cap cap' hcap => exists_congr fun f => ?_
      rw [hcap.testability.mem_iff, hcap.bcId]
    · refine h.exists_row_iff fun row row' hrow => ?_
      rw [compositeDeferral, compositeDeferral, hrow.unified, hrow.bcId]
  · simp only [report, hvulnerabilities, htestability, h.bands_eq hrisk]

end SameButOrder

/-! ## 8.  The law of the gate -/

structure MapsValid (riskMap : UnifiedRiskMap) (capabilityMap : CapabilityMap) : Prop where
  rows : (riskMap.capabilities.map (·.bcId)).Nodup
  capabilities : (capabilityMap.capabilities.map (·.bcId)).Nodup
  scores : ∀ row ∈ riskMap.capabilities, ScoreValid row.unified.value

/-- **The law of the gate**, of the report over two maps and the decisions. -/
structure GateLaw (reprList : List String → String) (riskMap : UnifiedRiskMap)
    (capabilityMap : CapabilityMap) (dispositions : List FindingDisposition)
    (r : RiskGateReport) : Prop where
  block : r.verdict = .block ↔ Blocks riskMap capabilityMap dispositions
  warn : r.verdict = .warn ↔ ¬ Blocks riskMap capabilityMap dispositions ∧
    CompositeAt riskMap fun v => 3 / 5 ≤ v ∧ v < 4 / 5
  /-- An unknown composite shows. -/
  composites : ∀ bcId, CompositeUnknown riskMap capabilityMap bcId →
    ∃ d ∈ deferrals reprList riskMap capabilityMap dispositions (bandsIn riskMap),
      d.bcId = some bcId ∧ d.text ∈ r.deferred
  /-- An unknown criticality shows at each blocker. -/
  blockers : ∀ cap ∈ capabilityMap.capabilities, ∀ f ∈ cap.testability, f.severity = .blocks →
    CriticalityUnknown riskMap cap.bcId →
      ∃ d ∈ deferrals reprList riskMap capabilityMap dispositions (bandsIn riskMap),
        d.bcId = some cap.bcId ∧ d.finding = some (testabilityIdentity f) ∧ d.text ∈ r.deferred
  order : ∀ riskMap' capabilityMap' dispositions',
    SameButOrder riskMap riskMap' capabilityMap capabilityMap' dispositions dispositions' →
      evaluate reprList riskMap' capabilityMap' dispositions' = .ok r
  /-- Another decision does not block. -/
  disposition : ∀ dispositions' r', dispositions ⊆ dispositions' →
    evaluate reprList riskMap capabilityMap dispositions' = .ok r' →
      r'.verdict = .block → r.verdict = .block
  /-- Another capability does not unblock. -/
  capability : ∀ riskMap' capabilityMap' r', MapsValid riskMap' capabilityMap' →
    riskMap'.judgment = riskMap.judgment → riskMap.capabilities ⊆ riskMap'.capabilities →
      capabilityMap.capabilities ⊆ capabilityMap'.capabilities →
        evaluate reprList riskMap' capabilityMap' dispositions = .ok r' →
          r.verdict = .block → r'.verdict = .block

section Law

variable {reprList : List String → String} {riskMap riskMap' : UnifiedRiskMap}
  {capabilityMap capabilityMap' : CapabilityMap}
  {dispositions dispositions' : List FindingDisposition}

theorem MapsValid.evaluate_eq (h : MapsValid riskMap capabilityMap) :
    evaluate reprList riskMap capabilityMap dispositions =
      .ok (report reprList riskMap capabilityMap dispositions (bandsIn riskMap)) := by
  rw [evaluate, compositeThreshold_eq h.scores]
  rfl

theorem MapsValid.reordered (h : MapsValid riskMap capabilityMap)
    (hsame : SameButOrder riskMap riskMap' capabilityMap capabilityMap' dispositions
      dispositions') : MapsValid riskMap' capabilityMap' := by
  refine ⟨hsame.nodup_rows h.rows, hsame.nodup_capabilities h.capabilities, fun row' hrow' => ?_⟩
  have hiff : (∃ row ∈ riskMap.capabilities, ¬ ScoreValid row.unified.value) ↔
      ∃ row ∈ riskMap'.capabilities, ¬ ScoreValid row.unified.value :=
    hsame.exists_row_iff fun row row' hrow => by rw [hrow.unified]
  by_contra hinvalid
  obtain ⟨row, hrow, hnot⟩ := hiff.mpr ⟨row', hrow', hinvalid⟩
  exact hnot (h.scores row hrow)

theorem Undecided.mono {kind : FindingKind} {key : String} (h : dispositions ⊆ dispositions')
    (hundecided : Undecided dispositions' kind key) : Undecided dispositions kind key :=
  fun d hd => hundecided d (h hd)

theorem Blocks.of_dispositions (h : dispositions ⊆ dispositions')
    (hblocks : Blocks riskMap capabilityMap dispositions') :
    Blocks riskMap capabilityMap dispositions := by
  rcases hblocks with ⟨hjudged, key, row, hrow, v, hv, hconfirmed, hkey, hundecided⟩ |
    ⟨key, cap, hcap, hf, hundecided, hrow⟩ | hcomposite
  · exact .inl ⟨hjudged, key, row, hrow, v, hv, hconfirmed, hkey, hundecided.mono h⟩
  · exact .inr (.inl ⟨key, cap, hcap, hf, hundecided.mono h, hrow⟩)
  · exact .inr (.inr hcomposite)

theorem Blocks.of_capabilities (hjudgment : riskMap'.judgment = riskMap.judgment)
    (hrows : riskMap.capabilities ⊆ riskMap'.capabilities)
    (hcaps : capabilityMap.capabilities ⊆ capabilityMap'.capabilities)
    (hblocks : Blocks riskMap capabilityMap dispositions) :
    Blocks riskMap' capabilityMap' dispositions := by
  rcases hblocks with ⟨hjudged, key, row, hrow, hv⟩ |
    ⟨key, cap, hcap, hf, hundecided, row, hrow, hid, hhigh⟩ | ⟨row, hrow, hv⟩
  · exact .inl ⟨hjudgment.trans hjudged, key, row, hrows hrow, hv⟩
  · exact .inr (.inl ⟨key, cap, hcaps hcap, hf, hundecided, row, hrows hrow, hid, hhigh⟩)
  · exact .inr (.inr ⟨row, hrows hrow, hv⟩)

theorem text_mem_deferred {d : Deferral}
    (hd : d ∈ deferrals reprList riskMap capabilityMap dispositions (bandsIn riskMap)) :
    d.text ∈ (report reprList riskMap capabilityMap dispositions (bandsIn riskMap)).deferred :=
  mem_sortedSet.mpr (List.mem_map_of_mem hd)

/-- **An unknown composite shows**, where each capability without a row has a blocker. -/
theorem exists_composite_deferral (h : MapsValid riskMap capabilityMap)
    (hrowed : ∀ cap ∈ capabilityMap.capabilities,
      (∃ row ∈ riskMap.capabilities, row.bcId = cap.bcId) ∨
        ∃ f ∈ cap.testability, f.severity = .blocks) {bcId : String}
    (hunknown : CompositeUnknown riskMap capabilityMap bcId) :
    ∃ d ∈ deferrals reprList riskMap capabilityMap dispositions (bandsIn riskMap),
      d.bcId = some bcId := by
  rcases hunknown with ⟨row, hrow, rfl, hmeasured⟩ | ⟨⟨cap, hmem, rfl⟩, hnone⟩
  · exact ⟨compositeDeferral row, (mem_deferrals h.capabilities).mpr
      (.inr (.inl ⟨row, hrow, hmeasured, rfl⟩)), rfl⟩
  · rcases hrowed cap hmem with ⟨row, hrow, hid⟩ | ⟨f, hf, hblocks⟩
    · exact absurd hid (hnone row hrow)
    · obtain ⟨d, hd, hid, -⟩ := exists_blocker_deferral h.rows h.capabilities hmem hf hblocks
        fun row hrow hid => absurd hid (hnone row hrow)
      exact ⟨d, hd, hid⟩

/-- **The gate obeys its law** exactly where each capability has a row in the risk map, or at least
a blocker: the composites are read off the risk map alone, so a capability that it leaves out is
passed over without a word. -/
theorem gate_lawful_iff (reprList : List String → String) (riskMap : UnifiedRiskMap)
    (capabilityMap : CapabilityMap) (dispositions : List FindingDisposition)
    (h : MapsValid riskMap capabilityMap) :
    (∃ r, evaluate reprList riskMap capabilityMap dispositions = .ok r ∧
        GateLaw reprList riskMap capabilityMap dispositions r) ↔
      ∀ cap ∈ capabilityMap.capabilities, (∃ row ∈ riskMap.capabilities, row.bcId = cap.bcId) ∨
        ∃ f ∈ cap.testability, f.severity = .blocks := by
  constructor
  · rintro ⟨r, -, hlaw⟩ cap hmem
    by_cases hrow : ∃ row ∈ riskMap.capabilities, row.bcId = cap.bcId
    · exact .inl hrow
    · have hnone : ∀ row ∈ riskMap.capabilities, row.bcId ≠ cap.bcId := fun row hmem hid =>
        hrow ⟨row, hmem, hid⟩
      obtain ⟨d, hd, hid, -⟩ := hlaw.composites cap.bcId (.inr ⟨⟨cap, hmem, rfl⟩, hnone⟩)
      exact .inr (exists_blocker_of_deferral h.capabilities hmem hnone hd hid)
  · intro hrowed
    refine ⟨_, h.evaluate_eq, report_block_iff reprList h.rows h.capabilities,
      report_warn_iff reprList h.rows h.capabilities, ?_, ?_, ?_, ?_, ?_⟩
    · intro bcId hunknown
      obtain ⟨d, hd, hid⟩ := exists_composite_deferral h hrowed hunknown
      exact ⟨d, hd, hid, text_mem_deferred hd⟩
    · intro cap hmem f hf hblocks hunknown
      obtain ⟨d, hd, hid, hfinding⟩ :=
        exists_blocker_deferral h.rows h.capabilities hmem hf hblocks hunknown
      exact ⟨d, hd, hid, hfinding, text_mem_deferred hd⟩
    · intro riskMap' capabilityMap' dispositions' hsame
      rw [(h.reordered hsame).evaluate_eq, hsame.report_eq h.rows h.capabilities]
    · intro dispositions' r' hsub heq hblock
      obtain rfl := Except.ok.inj (h.evaluate_eq.symm.trans heq)
      rw [report_block_iff reprList h.rows h.capabilities] at hblock ⊢
      exact hblock.of_dispositions hsub
    · intro riskMap' capabilityMap' r' hvalid hjudgment hrows hcaps heq hblock
      obtain rfl := Except.ok.inj (hvalid.evaluate_eq.symm.trans heq)
      rw [report_block_iff reprList h.rows h.capabilities] at hblock
      exact (report_block_iff reprList hvalid.rows hvalid.capabilities).mpr
        (hblock.of_capabilities hjudgment hrows hcaps)

/-- A row whose composite is 0.9. -/
theorem gate_lawful_iff_sample :
    ∃ r, evaluate Corrections.reprList
        { capabilities := [{ assessed ∅ { bcId := "BC-001" } with
            unified := { value := scored (9 / 10) } }], collected := .measured }
        ⟨[{ bcId := "BC-001" }], .measured⟩ [] = .ok r ∧ r.verdict = .block := by
  have hvalid : MapsValid
      { capabilities := [{ assessed ∅ { bcId := "BC-001" } with
          unified := { value := scored (9 / 10) } }], collected := .measured }
      ⟨[{ bcId := "BC-001" }], .measured⟩ := by
    refine ⟨List.nodup_singleton _, List.nodup_singleton _, fun row hrow => ?_⟩
    obtain rfl := List.mem_singleton.mp hrow
    exact fun _ => rfl
  obtain ⟨r, heq, hlaw⟩ := (gate_lawful_iff Corrections.reprList _ _ [] hvalid).mpr fun cap hmem =>
    .inl ⟨_, List.mem_cons_self, by rw [List.mem_singleton.mp hmem]; rfl⟩
  refine ⟨r, heq, hlaw.block.mpr (.inr (.inr ⟨_, List.mem_cons_self, rfl, _, rfl, ?_⟩))⟩
  norm_num

/-- **A capability the risk map leaves out is passed over**: the report passes, and what it defers
says nothing of `BC-001`, whose composite nobody has seen. -/
theorem silent_capability :
    ∃ r, evaluate Corrections.reprList { collected := .measured }
        ⟨[{ bcId := "BC-001" }], .measured⟩ [] = .ok r ∧ r.verdict = .pass ∧
      r.deferred = ["unaccepted-confirmed-vulnerability clause: judgment layer did not run " ++
        "(no proposer output was applied)"] ∧
      CompositeUnknown { collected := .measured } ⟨[{ bcId := "BC-001" }], .measured⟩ "BC-001" ∧
      ∀ d ∈ deferrals Corrections.reprList { collected := .measured }
        ⟨[{ bcId := "BC-001" }], .measured⟩ [] (bandsIn { collected := .measured }),
        d.bcId ≠ some "BC-001" := by
  refine ⟨_, rfl, ?_, ?_, .inr ⟨⟨_, List.mem_cons_self, rfl⟩, fun _ hrow => ?_⟩, ?_⟩
  · decide
  · decide
  · exact nomatch hrow
  · decide

end Law

end Kroker.RiskGate
