import Kroker.Gates.Host
import Kroker.Merge.QualityGate

/-!
# The merge step

The part of `stages/merge/step.py` from its quality checks to the pull request.  The step runs in a
workflow beside everything else the workflow does, so its state is put together with the workflow's
gate host, and its events are the host's events, what the step itself does between two awaits, and
the completion of what it awaits: a gate, the merge verdict, and the pull request.

No failing check should pass unattended.  An absolute check that fails ends the step; failing
advisory checks are waived by the merge gate, and `waive` records an override for each of them, as a
human's.

## Who waived

The gate may also be decided by its policy or by its timeout, and the step does not look at
`decided_by`.
-/

namespace Kroker

/-- What the merge step is given, as far as it decides. -/
structure MergeInput where
  checks : List CheckResult
  settings : GateSettings := {}
  caseId : Option String := none

/-- The data of the `GATE_DECIDED` event. -/
structure GateDecided where
  stage : String := "merge"
  gate : String := "merge"
  round : String := "1"
  policy : String := "soft"
  decidedBy : String
  approved : String := "true"
  overrides : String

/-- The await points of the step. -/
inductive MergePhase where
  | ready
  /-- At the gate that waives failing advisory checks, the call `i` of the host. -/
  | advisory (i : ℕ)
  /-- In the role that gives the merge verdict, or reading its calibration. -/
  | consulting
  /-- At the gate after a verdict that was not approved automatically. -/
  | soft (i : ℕ)
  /-- In `open_pull_request`. -/
  | opening
  | finished (result : String)

structure MergeRun where
  host : GateHost
  phase : MergePhase := .ready
  /-- The decision of the gate that waives. -/
  gate : Option GateDecision := none
  overrides : List GateOverride := []
  report : Option GateReport := none
  emitted : Option GateDecided := none
  /-- Whether `open_pull_request` has been called. -/
  requested : Bool := false

inductive MergeEvent where
  | host (e : GateEvent)
  | start
  /-- The awaited gate has returned. -/
  | decided
  /-- The verdict is in, with the automatic decision made of it. -/
  | verdict (auto : Option GateDecision)
  | pullRequest (url : String)

/-- The decision that call `i` of a host has returned. -/
def GateHost.returned (h : GateHost) (i : ℕ) : Option GateDecision :=
  h.openings[i]?.bind fun o => match o.phase with
    | .returned r => some (o.request.decision r)
    | _ => none

def GateReport.absoluteBlocking (r : GateReport) : List String :=
  (r.checks.filter fun c => c.name ∈ r.blocking && c.classification = .absolute).map (·.name)

def GateReport.advisoryBlocking (r : GateReport) : List String :=
  (r.checks.filter fun c => c.name ∈ r.blocking && c.classification = .advisory).map (·.name)

namespace MergeInput

variable (m : MergeInput)

def gate : GateRequest := { name := "merge", settings := m.settings }

/-- `cfg.gates.get("merge", GateConfig()).policy`. -/
def ownPolicy : GatePolicy := ((m.settings.gates["merge"]?).getD {}).policy

def report : GateReport := evaluateQualityGate m.checks

end MergeInput

namespace MergeRun

variable (m : MergeInput)

/-- From the records of a passed gate to the end. -/
def conclude (s : MergeRun) : MergeRun :=
  match m.caseId with
  | some _ => { s with phase := .finished "skipped:benchmark-run-has-no-remote" }
  | none => { s with phase := .opening, requested := true }

/-- The quality gate, up to the first await after it. -/
def start (s : MergeRun) : MergeRun :=
  let s := { s with report := some m.report }
  if m.report.absoluteBlocking ≠ [] then
    { s with phase := .finished ("rejected:merge:absolute-gate-failed:" ++
        joinWith "," m.report.absoluteBlocking) }
  else if m.report.passed = false then
    { s with host := s.host.openGate m.gate, phase := .advisory s.host.openings.length }
  else if m.ownPolicy = .soft then { s with phase := .consulting }
  else s.conclude m

/-- The overrides that an approval is recorded as. -/
def overridesOf (d : GateDecision) : List GateOverride :=
  let reviewer := orElseText d.reviewer "human"
  let reason := orElseText d.comments "advisory override"
  m.report.advisoryBlocking.map fun n => { check := n, approvedBy := reviewer, reason }

/-- What the step makes of the decision on its failing advisory checks. -/
def waive (s : MergeRun) (d : GateDecision) : MergeRun :=
  let s := { s with gate := some d }
  if d.approved = false then { s with phase := .finished "rejected:merge:advisory" }
  else
    let overrides := overridesOf m d
    conclude m { s with
      overrides
      emitted := some { decidedBy := orElseText d.reviewer "human"
                        overrides := joinWith "," (overrides.map (·.check)) }
      report := some (evaluateQualityGate m.checks overrides) }

def next (s : MergeRun) : MergeEvent → Option MergeRun
  | .host e => (GateHost.next s.host e).map fun h => { s with host := h }
  | .start =>
    match s.phase with
    | .ready => some (s.start m)
    | _ => none
  | .decided =>
    match s.phase with
    | .advisory i => (s.host.returned i).map (s.waive m)
    | .soft i => (s.host.returned i).map fun d =>
      if d.approved then s.conclude m
      else { s with phase := .finished "rejected:merge:soft-verdict" }
    | _ => none
  | .verdict auto =>
    match s.phase with
    | .consulting =>
      match auto with
      | some _ => some (s.conclude m)
      | none => some { s with host := s.host.openGate m.gate, phase := .soft s.host.openings.length }
    | _ => none
  | .pullRequest url =>
    match s.phase with
    | .opening => some { s with phase := .finished url }
    | _ => none

end MergeRun

/-- The runs of the step in a workflow that starts at the time `t`. -/
abbrev MergeRuns (m : MergeInput) (t : ℤ) :=
  Run { host := { now := t } : MergeRun } (MergeRun.next m)

/-! ## 1. What is promised -/

def ReturnedBy (m : MergeInput) (h : GateHost) (d : GateDecision) : Prop :=
  ∃ (i : ℕ) (r : Resolution), h.openings[i]? = some ⟨m.gate, .returned r⟩ ∧ d = m.gate.decision r

structure Attended (m : MergeInput) (s : MergeRun) : Prop where
  /-- Behind a pull request, every absolute check has passed. -/
  absolute : s.requested = true → ∀ c ∈ m.report.checks, c.classification = .absolute →
    c.passed = true
  /-- Behind a pull request, every failing check was waived by a human's decision. -/
  advisory : s.requested = true → ∀ c ∈ m.report.checks, c.passed = false →
    ∃ d, s.gate = some d ∧ ReturnedBy m s.host d ∧ d.approved = true ∧ d.decidedBy = .human ∧
      ∃ o ∈ s.overrides, o.check = c.name
  /-- What is on record as an override is a human's decision. -/
  audited : s.overrides ≠ [] ∨ s.emitted ≠ none →
    ∃ d, s.gate = some d ∧ ReturnedBy m s.host d ∧ d.decidedBy = .human

/-- No decision by policy or by timeout can waive a failing check: an absolute check blocks, or no
check fails, or the merge gate is not off and does not approve when it times out. -/
def MergeInput.Attendable (m : MergeInput) : Prop :=
  m.report.absoluteBlocking ≠ [] ∨ m.report.passed = true ∨
    m.gate.config.policy ≠ .off ∧ m.gate.config.onTimeout ≠ .approve

instance (m : MergeInput) : Decidable m.Attendable :=
  inferInstanceAs (Decidable (_ ∨ _ ∨ _ ∧ _))

def HumanSignal (x : Transition MergeRun MergeEvent) : Prop :=
  ∀ d, x.event = .host (.signal d) → d.gate = "merge" → d.round = 1 → d.approved = true →
    d.decidedBy = .human

/-! ## 2. The report -/

namespace MergeInput

variable {m : MergeInput}

theorem mem_blocking_report {n : String} :
    n ∈ m.report.blocking ↔ ∃ c ∈ m.report.checks, c.passed = false ∧ c.name = n := by
  refine mem_blocking.trans ?_
  simp only [List.map_nil, blocks_nil]
  rfl

theorem passed_report : m.report.passed = true ↔ ∀ c ∈ m.report.checks, c.passed = true := by
  refine passed_iff.trans ?_
  simp only [List.map_nil, blocks_nil, Bool.not_eq_false]
  rfl

theorem passed_of_absolute (h : m.report.absoluteBlocking = []) {c : CheckResult}
    (hc : c ∈ m.report.checks) (hclass : c.classification = .absolute) : c.passed = true := by
  by_contra hfails
  rw [Bool.not_eq_true] at hfails
  have hblocks := mem_blocking_report.mpr ⟨c, hc, hfails, rfl⟩
  have hmem : c.name ∈ m.report.absoluteBlocking := by
    refine List.mem_map_of_mem (List.mem_filter.mpr ⟨hc, ?_⟩)
    rw [hclass, decide_eq_true hblocks]
    rfl
  rw [h] at hmem
  exact List.not_mem_nil hmem

theorem mem_advisoryBlocking (h : m.report.absoluteBlocking = []) {c : CheckResult}
    (hc : c ∈ m.report.checks) (hfails : c.passed = false) :
    c.name ∈ m.report.advisoryBlocking := by
  have hblocks := mem_blocking_report.mpr ⟨c, hc, hfails, rfl⟩
  refine List.mem_map_of_mem (List.mem_filter.mpr ⟨hc, ?_⟩)
  cases hclass : c.classification with
  | absolute =>
    rw [passed_of_absolute h hc hclass] at hfails
    cases hfails
  | advisory =>
    rw [decide_eq_true hblocks]
    rfl

theorem advisoryBlocking_ne_nil (h : m.report.absoluteBlocking = [])
    (hfails : m.report.passed = false) : m.report.advisoryBlocking ≠ [] := by
  intro hnil
  have hall : ∀ c ∈ m.report.checks, c.passed = true := by
    intro c hc
    by_contra hcfails
    rw [Bool.not_eq_true] at hcfails
    have := mem_advisoryBlocking h hc hcfails
    rw [hnil] at this
    exact List.not_mem_nil this
  rw [passed_report.mpr hall] at hfails
  cases hfails

end MergeInput

/-! ## 3. The gate -/

variable {h : GateHost}

theorem GateHost.returned_eq_some {i : ℕ} {d : GateDecision} (hd : h.returned i = some d) :
    ∃ q r, h.openings[i]? = some ⟨q, .returned r⟩ ∧ d = q.decision r := by
  obtain ⟨⟨q, p⟩, ho, hd⟩ := Option.bind_eq_some_iff.mp hd
  cases p with
  | returned r => exact ⟨q, r, ho, (Option.some.inj hd).symm⟩
  | _ => exact absurd hd (by simp)

theorem GateHost.opening_kept {h' : GateHost} {e : GateEvent} (he : GateHost.next h e = some h')
    {i : ℕ} {q : GateRequest} {p : Phase} (ho : h.openings[i]? = some ⟨q, p⟩) :
    ∃ p', h'.openings[i]? = some ⟨q, p'⟩ ∧ ∀ r, p = .returned r → p' = .returned r := by
  cases e with
  | signal d =>
    obtain rfl := Option.some.inj he
    exact ⟨p, ho, fun _ h => h⟩
  | tick elapsed =>
    obtain rfl := Option.some.inj he
    exact ⟨p, ho, fun _ h => h⟩
  | opened q' =>
    obtain rfl := Option.some.inj he
    refine ⟨p, ?_, fun _ h => h⟩
    rw [GateHost.openings_openGate,
      List.getElem?_append_left (List.getElem?_eq_some_iff.mp ho).1]
    exact ho
  | resumed j =>
    obtain ⟨o, p', ho', hp', rfl⟩ := GateHost.resume_eq_some he
    rw [GateHost.getElem?_moveTo h p' ho']
    by_cases hij : j = i
    · subst hij
      rw [ho] at ho'
      obtain rfl := Option.some.inj ho'
      refine ⟨p', if_pos rfl, ?_⟩
      rintro r rfl
      exact absurd hp' (by simp [Phase.resume])
    · exact ⟨p, (if_neg hij).trans ho, fun _ h => h⟩

theorem ReturnedBy.next {m : MergeInput} {h' : GateHost} {e : GateEvent} {d : GateDecision}
    (hd : ReturnedBy m h d) (he : GateHost.next h e = some h') : ReturnedBy m h' d := by
  obtain ⟨i, r, ho, rfl⟩ := hd
  obtain ⟨p, ho', hp⟩ := GateHost.opening_kept he ho
  rw [hp r rfl] at ho'
  exact ⟨i, r, ho', rfl⟩

theorem getElem?_openGate_length (h : GateHost) (q : GateRequest) :
    ∃ p, (h.openGate q).openings[h.openings.length]? = some ⟨q, p⟩ := by
  rw [GateHost.openings_openGate, List.getElem?_append_right (Nat.le_refl _), Nat.sub_self]
  exact ⟨_, rfl⟩

def HumanRecorded (m : MergeInput) (h : GateHost) : Prop :=
  ∀ d, h.decisions[m.gate.key]? = some d → d.approved = true → d.decidedBy = .human

theorem HumanRecorded.next {m : MergeInput} {h' : GateHost} {e : GateEvent} (hh : HumanRecorded m h)
    (he : GateHost.next h e = some h')
    (hsignal : ∀ d, e = .signal d → d.gate = "merge" → d.round = 1 → d.approved = true →
      d.decidedBy = .human) : HumanRecorded m h' := by
  intro d hd happroved
  cases e with
  | signal d' =>
    obtain rfl := Option.some.inj he
    replace hd : (if gateKey d'.gate d'.round ∈ h.decisions then h.decisions else
      h.decisions.insert (gateKey d'.gate d'.round) { d' with decidedAt := some h.now })[m.gate.key]? =
        some d := hd
    split at hd
    · exact hh d hd happroved
    · rw [Dict.get?_insert] at hd
      split at hd
      · rename_i hkey
        obtain rfl := Option.some.inj hd
        obtain ⟨hgate, hround⟩ := gateKey_injective hkey
        exact hsignal d' rfl hgate hround happroved
      · exact hh d hd happroved
  | tick elapsed =>
    obtain rfl := Option.some.inj he
    exact hh d hd happroved
  | opened q =>
    obtain rfl := Option.some.inj he
    rw [GateHost.decisions_openGate] at hd
    exact hh d hd happroved
  | resumed i =>
    obtain ⟨o, p, -, -, rfl⟩ := GateHost.resume_eq_some he
    exact hh d hd happroved

/-- **Where neither its policy nor its timeout approves, the merge gate is approved by a human.** -/
theorem decidedBy_of_returned {m : MergeInput} (hsound : h.Sound) (hhuman : HumanRecorded m h)
    (hpolicy : m.gate.config.policy ≠ .off) (htimeout : m.gate.config.onTimeout ≠ .approve)
    {d : GateDecision} (hd : ReturnedBy m h d) (happroved : d.approved = true) :
    d.decidedBy = .human := by
  obtain ⟨i, r, ho, rfl⟩ := hd
  have hr : r.Sound m.gate h.decisions := hsound i _ ho
  have himmediate : m.gate.immediate = none := by
    unfold GateRequest.immediate
    rw [if_neg hpolicy]
    split <;> rfl
  cases r with
  | policy => exact absurd (himmediate.symm.trans hr) (by simp)
  | auto d => exact absurd (himmediate.symm.trans hr) (by simp)
  | recorded d => exact hhuman d hr.2 happroved
  | expired =>
    have hreject : (m.gate.decision .expired).approved = false := by
      simp [GateRequest.decision, GateDecision.approved, htimeout]
    rw [hreject] at happroved
    cases happroved

/-! ## 4. The step -/

/-- Nothing has been waived, recorded or requested. -/
structure Untouched (s : MergeRun) : Prop where
  overrides : s.overrides = []
  emitted : s.emitted = none
  requested : s.requested = false

variable {s : MergeRun}

theorem Untouched.attended {m : MergeInput} (h : Untouched s) : Attended m s where
  absolute hrequested := absurd (h.requested.symm.trans hrequested) (by simp)
  advisory hrequested := absurd (h.requested.symm.trans hrequested) (by simp)
  audited haudited := by
    rcases haudited with hoverrides | hemitted
    · exact absurd h.overrides hoverrides
    · exact absurd h.emitted hemitted

/-- What is known at each await. -/
structure Progress (m : MergeInput) (s : MergeRun) : Prop where
  attended : Attended m s
  ready : s.phase = .ready → Untouched s
  advisory : ∀ i, s.phase = .advisory i → Untouched s ∧ m.report.absoluteBlocking = [] ∧
    m.report.passed = false ∧ ∃ p, s.host.openings[i]? = some ⟨m.gate, p⟩
  clean : s.phase = .consulting ∨ (∃ i, s.phase = .soft i) →
    Untouched s ∧ m.report.passed = true

theorem Progress.done {m : MergeInput} (h : Attended m s)
    (hphase : s.phase = .opening ∨ ∃ result, s.phase = .finished result) : Progress m s := by
  refine ⟨h, fun hready => ?_, fun i hi => ?_, fun hclean => ?_⟩
  · rcases hphase with hp | ⟨_, hp⟩ <;> exact absurd (hp.symm.trans hready) (by simp)
  · rcases hphase with hp | ⟨_, hp⟩ <;> exact absurd (hp.symm.trans hi) (by simp)
  · rcases hphase with hp | ⟨_, hp⟩ <;> rcases hclean with hc | ⟨_, hc⟩ <;>
      exact absurd (hp.symm.trans hc) (by simp)

theorem phase_conclude (m : MergeInput) (s : MergeRun) :
    (s.conclude m).phase = .opening ∨ ∃ result, (s.conclude m).phase = .finished result := by
  unfold MergeRun.conclude
  cases m.caseId with
  | some _ => exact Or.inr ⟨_, rfl⟩
  | none => exact Or.inl rfl

theorem attended_conclude {m : MergeInput} (h : Attended m { s with requested := true }) :
    Attended m (s.conclude m) := by
  unfold MergeRun.conclude
  cases m.caseId with
  | some _ => exact ⟨fun _ => h.absolute rfl, fun _ => h.advisory rfl, h.audited⟩
  | none => exact ⟨fun _ => h.absolute rfl, fun _ => h.advisory rfl, h.audited⟩

theorem progress_conclude {m : MergeInput} (h : Untouched s) (hpassed : m.report.passed = true) :
    Progress m (s.conclude m) := by
  have hall := MergeInput.passed_report.mp hpassed
  refine .done (attended_conclude ⟨fun _ c hc _ => hall c hc, fun _ c hc hfails => ?_,
    h.attended.audited⟩) (phase_conclude m s)
  exact absurd (hfails.symm.trans (hall c hc)) (by simp)

theorem progress_start {m : MergeInput} (h : Untouched s) :
    Progress m (s.start m) := by
  unfold MergeRun.start
  by_cases habsolute : m.report.absoluteBlocking = []
  · rw [if_neg (not_not.mpr habsolute)]
    cases hpassed : m.report.passed with
    | false =>
      rw [if_pos rfl]
      have hu : Untouched { s with
          report := some m.report
          host := s.host.openGate m.gate
          phase := .advisory s.host.openings.length } := ⟨h.overrides, h.emitted, h.requested⟩
      refine ⟨hu.attended, fun hready => absurd hready (by simp), fun i hi => ?_,
        fun hclean => absurd hclean (by simp)⟩
      obtain rfl := MergePhase.advisory.inj hi
      exact ⟨hu, habsolute, hpassed, getElem?_openGate_length s.host m.gate⟩
    | true =>
      rw [if_neg (by simp)]
      split
      · have hu : Untouched { s with report := some m.report, phase := .consulting } :=
          ⟨h.overrides, h.emitted, h.requested⟩
        exact ⟨hu.attended, fun hready => absurd hready (by simp),
          fun i hi => absurd hi (by simp), fun _ => ⟨hu, hpassed⟩⟩
      · have hu : Untouched { s with report := some m.report } :=
          ⟨h.overrides, h.emitted, h.requested⟩
        exact progress_conclude hu hpassed
  · rw [if_pos habsolute]
    have hu : Untouched { s with
        report := some m.report
        phase := .finished ("rejected:merge:absolute-gate-failed:" ++
          joinWith "," m.report.absoluteBlocking) } := ⟨h.overrides, h.emitted, h.requested⟩
    exact .done hu.attended (Or.inr ⟨_, rfl⟩)

theorem progress_waive {m : MergeInput} (h : Untouched s)
    (habsolute : m.report.absoluteBlocking = []) {d : GateDecision} (hd : ReturnedBy m s.host d)
    (hhuman : d.approved = true → d.decidedBy = .human) : Progress m (s.waive m d) := by
  unfold MergeRun.waive
  cases happroved : d.approved with
  | false =>
    rw [if_pos rfl]
    have hu : Untouched { s with
        gate := some d
        phase := .finished "rejected:merge:advisory" } := ⟨h.overrides, h.emitted, h.requested⟩
    exact .done hu.attended (Or.inr ⟨_, rfl⟩)
  | true =>
    rw [if_neg (by simp)]
    refine .done (attended_conclude ⟨fun _ c hc => MergeInput.passed_of_absolute habsolute hc,
      fun _ c hc hfails => ⟨d, rfl, hd, happroved, hhuman happroved, ?_⟩,
      fun _ => ⟨d, rfl, hd, hhuman happroved⟩⟩) (phase_conclude m _)
    have hmem := MergeInput.mem_advisoryBlocking habsolute hc hfails
    exact ⟨_, List.mem_map_of_mem hmem, rfl⟩

theorem progress_host {m : MergeInput} {e : GateEvent} (hs : Progress m s)
    (he : GateHost.next s.host e = some h) :
    Progress m { s with host := h } := by
  have huntouched : Untouched s → Untouched { s with host := h } := fun hu =>
    ⟨hu.overrides, hu.emitted, hu.requested⟩
  refine ⟨⟨hs.attended.absolute, fun hrequested c hc hfails => ?_, fun haudited => ?_⟩,
    fun hready => huntouched (hs.ready hready), fun i hi => ?_,
    fun hclean => ⟨huntouched (hs.clean hclean).1, (hs.clean hclean).2⟩⟩
  · obtain ⟨d, hd, hreturned, hrest⟩ := hs.attended.advisory hrequested c hc hfails
    exact ⟨d, hd, hreturned.next he, hrest⟩
  · obtain ⟨d, hd, hreturned, hhuman⟩ := hs.attended.audited haudited
    exact ⟨d, hd, hreturned.next he, hhuman⟩
  · obtain ⟨hu, habsolute, hpassed, p, hp⟩ := hs.advisory i hi
    obtain ⟨p', hp', -⟩ := GateHost.opening_kept he hp
    exact ⟨huntouched hu, habsolute, hpassed, p', hp'⟩

/-- What every run keeps whose approvals are signalled by humans. -/
structure MergeRun.Stable (m : MergeInput) (t : ℤ) (s : MergeRun) : Prop where
  host : Reachable { now := t : GateHost } GateHost.next s.host
  human : HumanRecorded m s.host
  progress : Progress m s

theorem MergeRun.Stable.next {m : MergeInput} {t : ℤ} {s' : MergeRun} {e : MergeEvent}
    (hm : m.Attendable) (hs : s.Stable m t) (he : s.next m e = some s')
    (hsignal : HumanSignal ⟨s, e, s'⟩) : s'.Stable m t := by
  cases e with
  | host e =>
    obtain ⟨h, hh, rfl⟩ := Option.map_eq_some_iff.mp he
    exact ⟨hs.host.step hh, hs.human.next hh fun d hd => hsignal d (hd ▸ rfl),
      progress_host hs.progress hh⟩
  | start =>
    simp only [MergeRun.next] at he
    split at he
    · rename_i hphase
      obtain rfl := Option.some.inj he
      have hprogress := progress_start (m := m) (hs.progress.ready hphase)
      -- the step opens its gate, or leaves the host alone
      have hhost : (s.start m).host = s.host ∨ (s.start m).host = s.host.openGate m.gate := by
        unfold MergeRun.start MergeRun.conclude
        cases m.caseId <;> split_ifs <;> simp
      rcases hhost with hhost | hhost
      · exact ⟨hhost ▸ hs.host, hhost ▸ hs.human, hprogress⟩
      · exact ⟨hhost ▸ hs.host.step (e := .opened m.gate) rfl,
          hhost ▸ hs.human.next (e := .opened m.gate) rfl (by simp), hprogress⟩
    · exact absurd he (by simp)
  | decided =>
    simp only [MergeRun.next] at he
    split at he
    · rename_i i hphase
      obtain ⟨d, hd, rfl⟩ := Option.map_eq_some_iff.mp he
      obtain ⟨hu, habsolute, hpassed, p, hp⟩ := hs.progress.advisory i hphase
      obtain ⟨q, r, ho, rfl⟩ := GateHost.returned_eq_some hd
      obtain ⟨rfl, rfl⟩ := Opening.mk.inj (Option.some.inj (hp.symm.trans ho))
      have hreturned : ReturnedBy m s.host (m.gate.decision r) := ⟨i, r, ho, rfl⟩
      have hcannot : m.gate.config.policy ≠ .off ∧ m.gate.config.onTimeout ≠ .approve := by
        rcases hm with hm | hm | hm
        · exact absurd habsolute hm
        · exact absurd (hpassed.symm.trans hm) (by simp)
        · exact hm
      have hprogress := progress_waive hu habsolute hreturned fun happroved =>
        decidedBy_of_returned (GateHost.sound_of_reachable hs.host) hs.human hcannot.1 hcannot.2
          hreturned happroved
      have hhost : (s.waive m (m.gate.decision r)).host = s.host := by
        unfold MergeRun.waive MergeRun.conclude
        cases m.caseId <;> split_ifs <;> rfl
      exact ⟨hhost ▸ hs.host, hhost ▸ hs.human, hprogress⟩
    · rename_i i hphase
      obtain ⟨d, -, rfl⟩ := Option.map_eq_some_iff.mp he
      obtain ⟨hu, hpassed⟩ := hs.progress.clean (Or.inr ⟨i, hphase⟩)
      split
      · have hhost : (s.conclude m).host = s.host := by
          unfold MergeRun.conclude
          cases m.caseId <;> rfl
        exact ⟨hhost ▸ hs.host, hhost ▸ hs.human, progress_conclude hu hpassed⟩
      · have hu' : Untouched { s with phase := .finished "rejected:merge:soft-verdict" } :=
          ⟨hu.overrides, hu.emitted, hu.requested⟩
        exact ⟨hs.host, hs.human, .done hu'.attended (Or.inr ⟨_, rfl⟩)⟩
    · exact absurd he (by simp)
  | verdict auto =>
    simp only [MergeRun.next] at he
    split at he
    · rename_i hphase
      obtain ⟨hu, hpassed⟩ := hs.progress.clean (Or.inl hphase)
      cases auto with
      | some d =>
        obtain rfl := Option.some.inj he
        have hhost : (s.conclude m).host = s.host := by
          unfold MergeRun.conclude
          cases m.caseId <;> rfl
        exact ⟨hhost ▸ hs.host, hhost ▸ hs.human, progress_conclude hu hpassed⟩
      | none =>
        obtain rfl := Option.some.inj he
        have hu' : Untouched { s with
            host := s.host.openGate m.gate
            phase := .soft s.host.openings.length } := ⟨hu.overrides, hu.emitted, hu.requested⟩
        exact ⟨hs.host.step (e := .opened m.gate) rfl, hs.human.next (e := .opened m.gate) rfl nofun,
          hu'.attended, fun hready => absurd hready (by simp), fun i hi => absurd hi (by simp),
          fun _ => ⟨hu', hpassed⟩⟩
    · exact absurd he (by simp)
  | pullRequest url =>
    simp only [MergeRun.next] at he
    split at he
    · obtain rfl := Option.some.inj he
      have hattended := hs.progress.attended
      exact ⟨hs.host, hs.human, .done ⟨hattended.absolute, hattended.advisory, hattended.audited⟩
        (Or.inr ⟨url, rfl⟩)⟩
    · exact absurd he (by simp)

theorem stable_of_run {m : MergeInput} {t : ℤ} (hm : m.Attendable)
    {log : List (Transition MergeRun MergeEvent)} (run : MergeRuns m t log s)
    (hsignals : ∀ x ∈ log, HumanSignal x) : s.Stable m t := by
  induction run with
  | start =>
    have hu : Untouched { host := { now := t } } := ⟨rfl, rfl, rfl⟩
    refine ⟨.start, fun d hd => ?_, hu.attended, fun _ => hu, fun i hi => ?_, fun hclean => ?_⟩
    · exact absurd hd (by simp)
    · exact absurd hi (by simp)
    · exact absurd hclean (by simp)
  | step run accepted ih =>
    rw [List.forall_mem_cons] at hsignals
    exact (ih hsignals.2).next hm accepted hsignals.1

/-! ## 5. Runs that nobody attends -/

def Awaiting (m : MergeInput) (t : ℤ) (p : Phase) (now : ℤ) : Prop :=
  ∃ log s, MergeRuns m t log s ∧ (∀ x ∈ log, HumanSignal x) ∧ s.phase = .advisory 0 ∧
    s.host.openings[0]? = some ⟨m.gate, p⟩ ∧ s.host.now = now

theorem humanSignal_of_ne {s' : MergeRun} {e : MergeEvent} (h : ∀ d, e ≠ .host (.signal d)) :
    HumanSignal ⟨s, e, s'⟩ := fun d hd => absurd hd (h d)

theorem awaiting_start {m : MergeInput} {t : ℤ} (habsolute : m.report.absoluteBlocking = [])
    (hpassed : m.report.passed = false) :
    Awaiting m t ((m.gate.immediate.map Phase.deciding).getD .announcing) t := by
  have hstart : MergeRun.next m { host := { now := t } } .start =
      some { host := GateHost.openGate { now := t } m.gate, phase := .advisory 0,
             report := some m.report } := by
    show some (MergeRun.start m { host := { now := t } }) = _
    unfold MergeRun.start
    rw [if_neg (not_not.mpr habsolute), if_pos hpassed]
    rfl
  refine ⟨_, _, Run.start.step hstart, ?_, rfl, ?_, ?_⟩
  · rw [List.forall_mem_cons]
    exact ⟨humanSignal_of_ne (by simp), by simp⟩
  · rw [GateHost.openings_openGate]
    rfl
  · show (GateHost.openGate _ _).now = t
    unfold GateHost.openGate
    cases m.gate.immediate <;> rfl

theorem Awaiting.tick {m : MergeInput} {t : ℤ} {p : Phase} {now : ℤ} (h : Awaiting m t p now)
    (elapsed : ℕ) : Awaiting m t p (now + elapsed) := by
  obtain ⟨log, s, run, hsignals, hphase, ho, rfl⟩ := h
  refine ⟨_, { s with host := { s.host with now := s.host.now + elapsed } },
    run.step (e := .host (.tick elapsed)) rfl, ?_, hphase, ho, rfl⟩
  exact List.forall_mem_cons.mpr ⟨humanSignal_of_ne (by simp), hsignals⟩

theorem Awaiting.resume {m : MergeInput} {t : ℤ} {p p' : Phase} {now : ℤ} (h : Awaiting m t p now)
    (hp : ∀ recorded, p.resume m.gate now recorded = some p') : Awaiting m t p' now := by
  obtain ⟨log, s, run, hsignals, hphase, ho, rfl⟩ := h
  have hresume : MergeRun.next m s (.host (.resumed 0)) =
      some { s with host := s.host.moveTo 0 ⟨m.gate, p⟩ p' } := by
    show (s.host.resume 0).map _ = _
    rw [GateHost.resume, ho, Option.bind_some, hp]
    rfl
  refine ⟨_, _, run.step hresume, ?_, hphase, ?_, rfl⟩
  · exact List.forall_mem_cons.mpr ⟨humanSignal_of_ne (by simp), hsignals⟩
  · exact (GateHost.getElem?_moveTo s.host p' ho 0).trans (if_pos rfl)

theorem Awaiting.expire {m : MergeInput} {t : ℤ} {reason : NotifyReason} {rest : Schedule}
    {expires : Option ℤ} {now : ℤ} (h : Awaiting m t (.notifying reason rest expires) now)
    (hexpires : expires ≠ none) (hpast : ∀ e ∈ rest, e.1 ≤ now) :
    Awaiting m t (.returned .expired) now := by
  induction rest generalizing reason with
  | nil =>
    have hdeciding : Awaiting m t (.deciding .expired) now :=
      h.resume fun _ => congrArg some (if_neg hexpires)
    exact hdeciding.resume fun _ => rfl
  | cons e rest ih =>
    obtain ⟨hdue, hrest⟩ := List.forall_mem_cons.mp hpast
    exact ih (h.resume fun _ => congrArg some (if_pos hdue)) hrest

theorem exists_past (now : ℤ) (rest : Schedule) : ∃ n : ℕ, ∀ e ∈ rest, e.1 ≤ now + n := by
  induction rest with
  | nil => exact ⟨0, by simp⟩
  | cons e rest ih =>
    obtain ⟨n, hn⟩ := ih
    refine ⟨n + (e.1 - now).toNat, List.forall_mem_cons.mpr ⟨by omega, fun e' he' => ?_⟩⟩
    have := hn e' he'
    omega

theorem Awaiting.not_attended {m : MergeInput} {t : ℤ} {r : Resolution} {now : ℤ}
    (h : Awaiting m t (.returned r) now) (habsolute : m.report.absoluteBlocking = [])
    (hpassed : m.report.passed = false) (happroved : (m.gate.decision r).approved = true)
    (hhuman : (m.gate.decision r).decidedBy ≠ .human) :
    ¬∀ log s, MergeRuns m t log s → (∀ x ∈ log, HumanSignal x) → Attended m s := by
  intro hall
  obtain ⟨log, s, run, hsignals, hphase, ho, -⟩ := h
  have hdecided : s.next m .decided = some (s.waive m (m.gate.decision r)) := by
    have hreturned : s.host.returned 0 = some (m.gate.decision r) := by
      rw [GateHost.returned, ho]
      rfl
    simp only [MergeRun.next, hphase, hreturned, Option.map_some]
  have hattended := hall _ _ (run.step hdecided)
    (List.forall_mem_cons.mpr ⟨humanSignal_of_ne (by simp), hsignals⟩)
  have hwaive : (s.waive m (m.gate.decision r)).gate = some (m.gate.decision r) ∧
      (s.waive m (m.gate.decision r)).overrides ≠ [] := by
    have hne := MergeInput.advisoryBlocking_ne_nil habsolute hpassed
    unfold MergeRun.waive
    rw [if_neg (by simp [happroved])]
    unfold MergeRun.conclude
    cases m.caseId <;> exact ⟨rfl, by simpa [MergeRun.overridesOf] using hne⟩
  obtain ⟨d, hd, -, hdecidedBy⟩ := hattended.audited (Or.inl hwaive.2)
  rw [hwaive.1] at hd
  obtain rfl := Option.some.inj hd
  exact hhuman hdecidedBy

/-- **No failing check passes unattended exactly where no policy and no timeout can approve it**:
in all runs in which humans signal the approvals of the merge gate, behind a pull request every
absolute check has passed and a human has waived every failing one, if and only if an absolute
check blocks, or no check fails, or the merge gate is not off and does not approve on timeout. -/
theorem attended_iff (m : MergeInput) (t : ℤ) :
    (∀ log s, MergeRuns m t log s → (∀ x ∈ log, HumanSignal x) → Attended m s) ↔
      m.Attendable := by
  constructor
  · intro hall
    by_contra hm
    unfold MergeInput.Attendable at hm
    push Not at hm
    obtain ⟨habsolute, hpassed, hconfig⟩ := hm
    rw [ne_eq, Bool.not_eq_true] at hpassed
    have hstart := awaiting_start (t := t) habsolute hpassed
    by_cases hpolicy : m.gate.config.policy = .off
    · have himmediate : m.gate.immediate = some .policy := if_pos hpolicy
      rw [himmediate] at hstart
      exact (hstart.resume fun _ => rfl).not_attended habsolute hpassed rfl
        (by simp [GateRequest.decision])
        hall
    · have htimeout := hconfig hpolicy
      have himmediate : m.gate.immediate = none := by
        unfold GateRequest.immediate
        rw [if_neg hpolicy]
        split <;> rfl
      rw [himmediate] at hstart
      -- the announced gate notifies at once, and then every deadline passes
      obtain ⟨rest, hrest⟩ := buildSchedule_eq_cons m.gate.config m.gate.settings.gateTimeoutHours t
      have hnotifying : Awaiting m t (.notifying .opened rest
          (buildSchedule m.gate.config m.gate.settings.gateTimeoutHours t).2) t := by
        refine hstart.resume fun _ => ?_
        show some (proceed t _ (buildSchedule _ _ t).1) = _
        rw [hrest, proceed, if_pos (le_refl t)]
      have hexpires : (buildSchedule m.gate.config m.gate.settings.gateTimeoutHours t).2 ≠ none := by
        rw [buildSchedule_snd, expiresAt, htimeout]
        simp
      obtain ⟨n, hn⟩ := exists_past t rest
      refine ((hnotifying.tick n).expire hexpires hn).not_attended habsolute hpassed ?_ ?_ hall
      · simp [GateRequest.decision, GateDecision.approved, htimeout]
      · simp [GateRequest.decision]
  · exact fun hm log s run hsignals => (stable_of_run hm run hsignals).progress.attended

def uncovered : MergeInput where
  checks := mergeRequiredChecks.map fun r => buildCheck r.1 (r.1 ≠ "coverage") r.2
  settings := { gates := Dict.ofItems [("merge", { policy := .off })] }

theorem attended_iff_sample : ∀ log s, MergeRuns { uncovered with settings := {} } 0 log s →
    (∀ x ∈ log, HumanSignal x) → Attended { uncovered with settings := {} } s :=
  (attended_iff { uncovered with settings := {} } 0).mpr (by decide +kernel)

/-- A pull request is opened past a failing coverage check, and the override is on record as a
human's. -/
theorem waived_by_policy : ¬∀ log s, MergeRuns uncovered 0 log s → Attended uncovered s := by
  intro hall
  obtain ⟨log, s, run, hphase⟩ : ∃ log s, MergeRuns uncovered 0 log s ∧
      s.requested = true ∧ s.overrides =
        [{ check := "coverage", approvedBy := "human", reason := "advisory override" }] ∧
      s.gate.map (·.decidedBy) = some .policy := by
    cases h : runScript (MergeRun.next uncovered) ([], { host := { now := 0 } })
        [.start, .host (.resumed 0), .decided] with
    | none => exact absurd (congrArg Option.isSome h) (by decide +kernel)
    | some q =>
      refine ⟨q.1, q.2, Run.of_runScript Run.start h, ?_⟩
      have hview := congrArg (Option.map fun q => (q.2.requested, q.2.overrides,
        q.2.gate.map (·.decidedBy))) h
      have heval : (runScript (MergeRun.next uncovered) ([], { host := { now := 0 } })
        [.start, .host (.resumed 0), .decided]).map (fun q => (q.2.requested, q.2.overrides,
          q.2.gate.map (·.decidedBy))) = some (true,
            [{ check := "coverage", approvedBy := "human", reason := "advisory override" }],
            some .policy) := by decide +kernel
      have := Option.some.inj (hview.symm.trans heval)
      exact ⟨congrArg (·.1) this, congrArg (·.2.1) this, congrArg (·.2.2) this⟩
  obtain ⟨-, hoverrides, hgate⟩ := hphase
  obtain ⟨d, hd, -, hhuman⟩ := (hall log s run).audited (Or.inl (by rw [hoverrides]; simp))
  rw [hd, Option.map_some, hhuman] at hgate
  exact absurd hgate (by decide)

end Kroker
