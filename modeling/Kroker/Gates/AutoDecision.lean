import Kroker.Gates.Isolation
import Mathlib.Algebra.Order.Ring.Rat

/-!
# Which gate a decision names

A decision names a gate and a round.  `_gate` returns a decision it builds itself, one that was
recorded under the key of the gate, or one that its caller brings along: under `SOFT`, the automatic
approval that `auto_decision_for` builds out of the confidence of what is to be approved and the
calibration of the model that wrote it.  That approval names the gate and always the first round,
and its two callers, `_revisable_stage` and the gate node of a graph run, bring it to later rounds
too.
-/

namespace Kroker

/-! ## 1.  The automatic approval -/

inductive CalibrationState where
  | calibrated
  | uncalibrated
  | insufficientData
  deriving DecidableEq

/-- `CalibrationVerdict.verdict`. -/
def CalibrationState.value : CalibrationState → String
  | .calibrated => "calibrated"
  | .uncalibrated => "uncalibrated"
  | .insufficientData => "insufficient_data"

structure CalibrationVerdict where
  verdict : CalibrationState
  n : ℕ := 0
  agreementRate : ℚ := 0

/-- `GateConfig` with the confidence that a `SOFT` gate asks for. -/
structure SoftGateConfig extends GateConfig where
  threshold : ℚ := 4 / 5

/-- The fields of `PipelineConfig` that the gates read. -/
structure GatesConfig where
  gates : Dict SoftGateConfig := ∅
  defaultGatePolicy : GatePolicy := .hard
  gateTimeoutHours : ℤ := 48
  maxGateRounds : ℕ := 2

namespace GatesConfig

variable (cfg : GatesConfig)

def gateSettings : GateSettings where
  gates := cfg.gates.map fun _ gate => gate.toGateConfig
  defaultGatePolicy := cfg.defaultGatePolicy
  gateTimeoutHours := cfg.gateTimeoutHours

/-- `cfg.gates.get(name, GateConfig())`. -/
def gate (name : String) : SoftGateConfig := (cfg.gates[name]?).getD {}

end GatesConfig

section AutoDecision

-- `f"{...:.2f}"`
variable (fixed : ℚ → String)

def autoDecisionFor (name : String) (cfg : GatesConfig) (confidence : Option ℚ)
    (calibration : CalibrationVerdict) : Option GateDecision :=
  let gateCfg := cfg.gate name
  match confidence with
  | none => none
  | some confidence =>
    if gateCfg.policy ≠ .soft then none
    else if confidence < gateCfg.threshold then none
    else if calibration.verdict ≠ .calibrated then none
    else some
      { gate := name
        round := 1
        outcome := .approve
        decidedBy := .policy
        comments := some ("auto-approved: confidence=" ++ fixed confidence ++ " >= threshold=" ++
          fixed gateCfg.threshold ++ "; calibration=" ++ calibration.verdict.value ++ " (n=" ++
          toString calibration.n ++ ", agreement=" ++ fixed calibration.agreementRate ++ ")") }

/-- What is proposed to a gate: how sure the model is of it, and what the lookup of the calibration
answers. -/
structure Proposal where
  confidence : Option ℚ
  calibration : CalibrationVerdict

/-- What the callers bring along in a round in which there is a revision to ask for: only for `SOFT`
and with a confidence is the calibration looked up. -/
def broughtAlong (name : String) (cfg : GatesConfig) (proposal : Proposal) : Option GateDecision :=
  if proposal.confidence ≠ none ∧ (cfg.gate name).policy = .soft then
    autoDecisionFor fixed name cfg proposal.confidence proposal.calibration
  else none

/-! ## 2.  The calls -/

/-- The calls of `_gate` in the code. -/
inductive GateCall where
  /-- `_revisable_stage`, in its loop. -/
  | revisable (name : String) (cfg : GatesConfig) (round : ℕ) (proposal : Proposal)
  /-- `_revisable_stage`, when the rounds are exhausted. -/
  | exhausted (name : String) (cfg : GatesConfig)
  /-- A gate node's activation in a graph run, with a revision to ask for. -/
  | gateNode (node : String) (cfg : GatesConfig) (round : ℕ) (proposal : Proposal)
  /-- A gate node's activation without one. -/
  | finalGateNode (node : String) (cfg : GatesConfig) (round : ℕ)
  /-- The research, code, merge and deploy steps, the budget, the crew, the triage, the tidying up
  and the risk gate, which bring no decision along. -/
  | step (name : String) (settings : GateSettings) (round : ℕ) (defaultPolicy : Option GatePolicy)

def GateCall.request : GateCall → GateRequest
  | revisable name cfg round proposal =>
    { name, settings := cfg.gateSettings, autoDecision := broughtAlong fixed name cfg proposal,
      round }
  | exhausted name cfg => { name, settings := cfg.gateSettings, round := cfg.maxGateRounds + 1 }
  | gateNode node cfg round proposal =>
    { name := node, settings := cfg.gateSettings,
      autoDecision := broughtAlong fixed node cfg proposal, round }
  | finalGateNode node cfg round => { name := node, settings := cfg.gateSettings, round }
  | step name settings round defaultPolicy => { name, settings, round, defaultPolicy }

/-- The calls of `_revisable_stage` from a round on, with so many rounds left: `proposal` is what is
proposed in a round and `outcome` what the gate returns. -/
def revisableFrom (name : String) (cfg : GatesConfig) (proposal : ℕ → Proposal)
    (outcome : ℕ → GateOutcome) : ℕ → ℕ → List GateCall
  | 0, _ => [.exhausted name cfg]
  | left + 1, round => .revisable name cfg round (proposal round) ::
      if outcome round = .revise then revisableFrom name cfg proposal outcome left (round + 1)
      else []

def revisableStage (name : String) (cfg : GatesConfig) (proposal : ℕ → Proposal)
    (outcome : ℕ → GateOutcome) : List GateCall :=
  revisableFrom name cfg proposal outcome cfg.maxGateRounds 1

end AutoDecision

/-! ## 3.  What is asked of a decision -/

def GateRequest.Named (q : GateRequest) (d : GateDecision) : Prop :=
  d.gate = q.name ∧ d.round = q.round

/-- A configured `SOFT` gate would approve the proposal by itself. -/
structure AutoApproved (name : String) (cfg : GatesConfig) (proposal : Proposal) : Prop where
  soft : (cfg.gate name).policy = .soft
  confident : ∃ confidence, proposal.confidence = some confidence ∧
    (cfg.gate name).threshold ≤ confidence
  calibrated : proposal.calibration.verdict = .calibrated

/-- An automatic approval of a round other than the first. -/
def GateCall.Misfiled : GateCall → Prop
  | revisable name cfg round proposal => round ≠ 1 ∧ AutoApproved name cfg proposal
  | gateNode node cfg round proposal => round ≠ 1 ∧ AutoApproved node cfg proposal
  | _ => False

/-! ## 4.  The decisions of a host -/

/-- The call that is made. -/
def GateEvent.request? : GateEvent → Option GateRequest
  | .opened q => some q
  | _ => none

variable {q : GateRequest}

theorem GateEvent.request?_eq_some {e : GateEvent} (h : e.request? = some q) :
    e = .opened q := by
  cases e with
  | opened r =>
    cases h
    rfl
  | signal d => cases h
  | tick elapsed => cases h
  | resumed i => cases h

namespace GateHost

/-- Each recorded decision is recorded under the gate and the round it names. -/
def Filed (h : GateHost) : Prop :=
  ∀ (k : String) (d : GateDecision), h.decisions[k]? = some d → gateKey d.gate d.round = k

theorem filed_next {h h' : GateHost} {e : GateEvent} (hs : h.Filed) (he : next h e = some h') :
    h'.Filed := by
  intro k d hd
  cases e with
  | signal d' =>
    obtain rfl := Option.some.inj he
    change (if _ then h.decisions else h.decisions.insert _ _)[k]? = some d at hd
    split at hd
    · exact hs k d hd
    · rw [Dict.get?_insert] at hd
      split at hd
      · rename_i hkey
        rw [← hkey, ← Option.some.inj hd]
      · exact hs k d hd
  | tick elapsed =>
    obtain rfl := Option.some.inj he
    exact hs k d hd
  | opened q =>
    obtain rfl := Option.some.inj he
    rw [decisions_openGate] at hd
    exact hs k d hd
  | resumed i =>
    obtain ⟨o, p, -, -, rfl⟩ := resume_eq_some he
    exact hs k d hd

/-- **A recorded decision names its key**, in every reachable host. -/
theorem filed_of_reachable {t : ℤ} {h : GateHost}
    (hr : Reachable { now := t : GateHost } next h) : h.Filed := by
  refine hr.induct (fun k d hd => ?_) fun _ _ _ _ hs he => filed_next hs he
  rw [Dict.get?_empty] at hd
  cases hd

theorem requests_of_runScript {script : List GateEvent}
    {p q : List (Transition GateHost GateEvent) × GateHost}
    (h : runScript next p script = some q) : q.2.openings.map Opening.request =
      p.2.openings.map Opening.request ++ script.filterMap GateEvent.request? := by
  induction script generalizing p with
  | nil =>
    cases h
    exact (List.append_nil _).symm
  | cons e script ih =>
    obtain ⟨s, hs, hrest⟩ := Option.bind_eq_some_iff.mp h
    have hrequests : s.openings.map Opening.request =
        p.2.openings.map Opening.request ++ e.request?.toList := by
      cases hq : e.request? with
      | none =>
        rw [WorkflowGates.requests_of_host hs fun q he => by rw [he] at hq; cases hq]
        exact (List.append_nil _).symm
      | some q =>
        obtain rfl := GateEvent.request?_eq_some hq
        obtain rfl := Option.some.inj hs
        rw [openings_openGate, List.map_append]
        rfl
    rw [ih hrest, hrequests, List.append_assoc]
    cases hq : e.request? with
    | none => rw [List.filterMap_cons_none hq]; rfl
    | some q => rw [List.filterMap_cons_some hq]; rfl

/-- **Whoever opens a gate**: the decision it returns names it, unless it was brought along and
names another. -/
theorem named_iff {t : ℤ} {h : GateHost} (hr : Reachable { now := t : GateHost } next h) {i : ℕ}
    {o : Opening} (ho : h.openings[i]? = some o) {r : Resolution} (hphase : o.phase = .returned r) :
    o.request.Named (o.request.decision r) ↔
      ∀ d, o.request.immediate = some (.auto d) → o.request.Named d := by
  have hsound := sound_of_reachable hr i o ho
  rw [hphase] at hsound
  cases r with
  | policy =>
    have himmediate : o.request.immediate = some .policy := hsound
    rw [himmediate]
    exact iff_of_true ⟨rfl, rfl⟩ fun d hd => absurd hd (by simp)
  | auto d =>
    have himmediate : o.request.immediate = some (.auto d) := hsound
    rw [himmediate]
    constructor
    · rintro hnamed d' hd'
      cases hd'
      exact hnamed
    · exact fun h => h d rfl
  | recorded d =>
    obtain ⟨himmediate, hrecorded⟩ := hsound
    rw [himmediate]
    exact iff_of_true (gateKey_injective (filed_of_reachable hr _ _ hrecorded))
      fun d hd => absurd hd (by simp)
  | expired =>
    rw [hsound.1]
    exact iff_of_true ⟨rfl, rfl⟩ fun d hd => absurd hd (by simp)

end GateHost

/-! ## 5.  The decisions of the calls -/

variable {fixed : ℚ → String}

variable {proposal : Proposal}

theorem broughtAlong_eq_some {name : String} {cfg : GatesConfig} {d : GateDecision}
    (h : broughtAlong fixed name cfg proposal = some d) :
    AutoApproved name cfg proposal ∧ d.gate = name ∧ d.round = 1 ∧ d.approved = true := by
  rw [broughtAlong] at h
  split at h
  · rename_i hlooked
    unfold autoDecisionFor at h
    cases hconfidence : proposal.confidence with
    | none => exact absurd hconfidence hlooked.1
    | some confidence =>
      rw [hconfidence] at h
      simp only [hlooked.2, ne_eq, not_true_eq_false, if_false] at h
      split at h
      · cases h
      · rename_i hconfident
        split at h
        · cases h
        · rename_i hcalibrated
          cases h
          exact ⟨⟨hlooked.2, ⟨confidence, hconfidence, not_lt.mp hconfident⟩,
            not_not.mp hcalibrated⟩, rfl, rfl, rfl⟩
  · cases h

theorem exists_broughtAlong (fixed : ℚ → String) {name : String} {cfg : GatesConfig}
    (h : AutoApproved name cfg proposal) : ∃ d, broughtAlong fixed name cfg proposal = some d := by
  obtain ⟨hsoft, ⟨confidence, hconfidence, hle⟩, hcalibrated⟩ := h
  have hlooked : proposal.confidence ≠ none ∧ (cfg.gate name).policy = .soft := by
    rw [hconfidence]
    exact ⟨Option.some_ne_none _, hsoft⟩
  rw [broughtAlong, if_pos hlooked, hconfidence]
  unfold autoDecisionFor
  simp only [hsoft, hcalibrated, not_lt.mpr hle, ne_eq, not_true_eq_false, if_false]
  exact ⟨_, rfl⟩

theorem policy_of_soft {cfg : GatesConfig} (hsettings : q.settings = cfg.gateSettings)
    (hsoft : (cfg.gate q.name).policy = .soft) :
    q.config.policy = .soft := by
  rw [GatesConfig.gate] at hsoft
  cases hgate : cfg.gates[q.name]? with
  | none =>
    rw [hgate] at hsoft
    cases hsoft
  | some gate =>
    rw [hgate] at hsoft
    have hget : q.settings.gates[q.name]? = some gate.toGateConfig := by
      rw [hsettings]
      show (cfg.gates.map _)[q.name]? = _
      rw [Std.ExtTreeMap.getElem?_map, hgate]
      rfl
    rw [GateRequest.config, hget]
    exact hsoft

theorem autoDecision_of_immediate {d : GateDecision} (h : q.immediate = some (.auto d)) :
    q.autoDecision = some d := by
  unfold GateRequest.immediate at h
  split at h
  · cases h
  · split at h
    · split at h
      · rename_i d' hauto
        split at h
        · cases h
          exact hauto
        · cases h
      · cases h
    · cases h

theorem immediate_of_broughtAlong {cfg : GatesConfig} (hsettings : q.settings = cfg.gateSettings)
    (hauto : q.autoDecision = broughtAlong fixed q.name cfg proposal) {d : GateDecision}
    (hd : broughtAlong fixed q.name cfg proposal = some d) :
    q.immediate = some (.auto d) := by
  obtain ⟨happroved, -, -, hyes⟩ := broughtAlong_eq_some hd
  have hpolicy : q.config.policy = .soft := policy_of_soft hsettings happroved.soft
  rw [GateRequest.immediate, hpolicy, if_neg (by decide), if_pos rfl, hauto, hd]
  exact if_pos hyes

theorem named_broughtAlong_iff {cfg : GatesConfig} (hsettings : q.settings = cfg.gateSettings)
    (hauto : q.autoDecision = broughtAlong fixed q.name cfg proposal) :
    (∀ d, q.immediate = some (.auto d) → q.Named d) ↔
      ¬(q.round ≠ 1 ∧ AutoApproved q.name cfg proposal) := by
  constructor
  · rintro hnamed ⟨hround, happroved⟩
    obtain ⟨d, hd⟩ := exists_broughtAlong fixed happroved
    obtain ⟨-, -, hone, -⟩ := broughtAlong_eq_some hd
    have := (hnamed d (immediate_of_broughtAlong hsettings hauto hd)).2
    exact hround (this.symm.trans hone)
  · intro hround d himmediate
    have hd := autoDecision_of_immediate himmediate
    rw [hauto] at hd
    obtain ⟨happroved, hgate, hone, -⟩ := broughtAlong_eq_some hd
    refine ⟨hgate, hone.trans ?_⟩
    by_contra hne
    exact hround ⟨fun h => hne h.symm, happroved⟩

theorem named_of_none (h : q.autoDecision = none) :
    ∀ d, q.immediate = some (.auto d) → q.Named d := by
  intro d himmediate
  have hd := autoDecision_of_immediate himmediate
  rw [h] at hd
  cases hd

/-- **What the code's calls return** names the gate exactly where it is not an automatic approval of
a round other than the first. -/
theorem decision_named_iff {t : ℤ} {h : GateHost}
    (hr : Reachable { now := t : GateHost } GateHost.next h) {i : ℕ} {o : Opening}
    (ho : h.openings[i]? = some o) {r : Resolution} (hphase : o.phase = .returned r) {c : GateCall}
    (hc : o.request = c.request fixed) :
    o.request.Named (o.request.decision r) ↔ ¬c.Misfiled := by
  rw [GateHost.named_iff hr ho hphase, hc]
  cases c with
  | revisable name cfg round proposal => exact named_broughtAlong_iff rfl rfl
  | gateNode node cfg round proposal => exact named_broughtAlong_iff rfl rfl
  | exhausted name cfg => exact iff_of_true (named_of_none rfl) not_false
  | finalGateNode node cfg round => exact iff_of_true (named_of_none rfl) not_false
  | step name settings round defaultPolicy => exact iff_of_true (named_of_none rfl) not_false

/-! ## 6.  A stage of two rounds -/

/-- `f"{q:.2f}"`, of an amount of hundredths. -/
def twoPlaces (q : ℚ) : String :=
  let hundredths := (q * 100).floor.toNat
  toString (hundredths / 100) ++ "." ++ toString (hundredths % 100 / 10) ++
    toString (hundredths % 10)

def softConfig : GatesConfig :=
  { gates := (∅ : Dict SoftGateConfig).insert "architecture" { policy := .soft } }

/-- In the first round the model is not sure, in the second it is. -/
def draft (round : ℕ) : Proposal where
  confidence := some (if round = 1 then 1 / 2 else 9 / 10)
  calibration := { verdict := .calibrated, n := 40, agreementRate := 1 }

def draftCall (round : ℕ) : GateCall := .revisable "architecture" softConfig round (draft round)

def revision : GateDecision := { gate := "architecture", outcome := .revise, decidedBy := .human }

/-- A human asks for a revision, and the revised draft is approved automatically. -/
def draftScript : List GateEvent :=
  [.opened ((draftCall 1).request twoPlaces), .resumed 0, .resumed 0, .signal revision,
    .resumed 0, .resumed 0, .opened ((draftCall 2).request twoPlaces), .resumed 1]

def draftRun : List (Transition GateHost GateEvent) × GateHost :=
  (runScript GateHost.next ([], { now := 0 }) draftScript).get (by decide +kernel)

theorem reachable_draftRun : Reachable { now := 0 : GateHost } GateHost.next draftRun.2 :=
  ⟨_, Run.start.of_runScript (Option.some_get _).symm⟩

/-- What the second round returns. -/
def draftApproval : GateDecision where
  gate := "architecture"
  outcome := .approve
  decidedBy := .policy
  comments := some ("auto-approved: confidence=0.90 >= threshold=0.80; calibration=calibrated " ++
    "(n=40, agreement=1.00)")

theorem requests_draftRun : draftRun.2.openings.map Opening.request =
    [(draftCall 1).request twoPlaces, (draftCall 2).request twoPlaces] := by
  have hrun : runScript GateHost.next ([], { now := 0 }) draftScript = some draftRun :=
    (Option.some_get _).symm
  exact (GateHost.requests_of_runScript hrun).trans rfl

theorem phases_draftRun : draftRun.2.openings.map Opening.phase =
    [.returned (.recorded { revision with decidedAt := some 0 }),
      .returned (.auto draftApproval)] := by decide +kernel

theorem exists_draft {i : ℕ} {p : Phase}
    (hq : (draftRun.2.openings.map Opening.request)[i]? = some q)
    (hp : (draftRun.2.openings.map Opening.phase)[i]? = some p) :
    ∃ o, draftRun.2.openings[i]? = some o ∧ o.request = q ∧ o.phase = p := by
  rw [List.getElem?_map] at hq hp
  obtain ⟨o, ho, hrequest⟩ := Option.map_eq_some_iff.mp hq
  rw [ho] at hp
  exact ⟨o, ho, hrequest, Option.some.inj hp⟩

/-- The first round's gate returns the revision, which names it. -/
theorem decision_named_iff_sample :
    ∃ o, draftRun.2.openings[0]? = some o ∧ o.request = (draftCall 1).request twoPlaces ∧
      o.request.Named (o.request.decision (.recorded { revision with decidedAt := some 0 })) := by
  obtain ⟨o, ho, hrequest, hphase⟩ := exists_draft (show _[0]? = _ by rw [requests_draftRun]; rfl)
    (by rw [phases_draftRun]; rfl)
  exact ⟨o, ho, hrequest, (decision_named_iff reachable_draftRun ho hphase hrequest).mpr
    fun hmisfiled => hmisfiled.1 rfl⟩

/-- **The second round's gate** returns an approval of the first. -/
theorem second_round_misfiled : ¬∀ (h : GateHost) (i : ℕ) (o : Opening) (r : Resolution)
    (c : GateCall), Reachable { now := 0 : GateHost } GateHost.next h → h.openings[i]? = some o →
      o.phase = .returned r → o.request = c.request twoPlaces →
      o.request.Named (o.request.decision r) := by
  intro hall
  obtain ⟨o, ho, hrequest, hphase⟩ := exists_draft (show _[1]? = _ by rw [requests_draftRun]; rfl)
    (by rw [phases_draftRun]; rfl)
  have hnamed := hall _ 1 o _ _ reachable_draftRun ho hphase hrequest
  rw [hrequest] at hnamed
  exact absurd hnamed.2 (by decide)

end Kroker
