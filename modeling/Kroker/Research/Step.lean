import Kroker.Core.Config
import Kroker.Library.Script
import Kroker.Research.Digest
import Kroker.Usage.Ledger

/-!
# The research step

`stages/research/step.py`: sub-questions are investigated, a brief is synthesized and verified, a
gate asks for approval, and a revision drafts the brief anew and verifies it again.

The activities and the services of the context are functions of a world that may do anything
(`Services`).  The brief, the findings and the spend are the variables that an exception in the
midst of a `try` leaves as they were last assigned, so they are part of the state.

* `quiet_foldUsage`, `quiet_fanOut` --- what does not touch the brief and does not verify;
* `drafts_redraft` --- a draft that raises an exception leaves the brief as it was: folding the
  usage raises none, whatever the price comes to (`noException_foldUsage`).
-/

namespace Kroker.Research

open Usage

/-! ## 1.  What the step asks for -/

/-- What is raised: an exception, or what `except Exception` does not catch. -/
inductive Failure where
  | exception (text : String)
  | base
  deriving DecidableEq

inductive ViolationKind where
  | quoteNotFound
  | sourceUnavailable
  | quoteEmpty

def ViolationKind.value : ViolationKind → String
  | .quoteNotFound => "quote_not_found"
  | .sourceUnavailable => "source_unavailable"
  | .quoteEmpty => "quote_empty"

structure Violation where
  kind : ViolationKind
  source : String
  quote : String

structure ResearchConfig where
  maxSubQuestions : ℤ := 4
  maxRefineRounds : ℤ := 1
  maxRequests : ℤ := 40
  maxRunCostUsd : ℚ := 4

structure PlanInput where
  ideaJson : String
  maxSubQuestions : ℤ
  model : String
  idOffset : ℕ
  guidance : String
  gaps : List Gap
  contradictions : List Contradiction

structure ResearchPlan where
  subQuestions : List SubQuestion := []
  usage : RoleUsage

structure SubQuestionInput where
  subQuestion : SubQuestion
  model : String
  maxRequests : ℤ
  maxRunCostUsd : ℚ

structure Investigation extends SubQuestionFinding where
  usage : RoleUsage

structure SynthesizeInput where
  ideaJson : String
  findings : List Investigation
  model : String

structure Quality where
  score : Option ℚ
  judge : String
  detail : String

/-- The activities that the step executes, and the services of its context. -/
structure Services (W : Type) where
  planResearch : PlanInput → W → Except Failure ResearchPlan × W
  /-- `asyncio.gather` of `research_subquestion`, with the exceptions as results. -/
  researchSubquestions :
    List SubQuestionInput → W → List (Except Failure Investigation) × W
  synthesizeBrief : SynthesizeInput → W → Except Failure (ResearchBrief × RoleUsage) × W
  verifyBrief : ResearchBrief → W → Except Failure (List Violation) × W
  priceUsage : RoleUsage → W → Except Failure (Option ℚ) × W
  readDeadAttempts : W → Except Failure (List RoleUsage) × W
  gate : ℤ → W → Except Failure GateDecision × W
  retain : String → String → W → Except Failure Unit × W
  judge : ResearchBrief → W → Except Failure Quality × W
  /-- A benchmark record, with its outcome and its error. -/
  record : Bool → Option String → RoleUsage → W → Except Failure Unit × W
  /-- `workflow.patched("017-research-ledger")`. -/
  ledgerV2 : Bool
  /-- `repr` of a text. -/
  repr : String → String

/-- What the step does that can be seen. -/
inductive Event where
  | stage (status : String)
  | modelUsage (usage : RoleUsage) (calls : ℕ) (usd : Option ℚ)
  | verified (brief : ResearchBrief) (violations : List Violation)
  | decided (round : ℤ) (decision : GateDecision)

def Event.verdict? : Event → Option (ResearchBrief × List Violation)
  | .verified brief violations => some (brief, violations)
  | _ => none

/-- The variables of the step that outlive an exception. -/
structure Locals (W : Type) where
  outside : W
  spend : RoleUsage
  findings : List Investigation := []
  brief : ResearchBrief := {}

abbrev Step (W : Type) := Script (Locals W) Event Failure

structure ResearchOutcome extends ResearchBrief where
  digest : String := ""
  rejection : Option String := none
  deriving DecidableEq

/-! ## 2.  The step -/

/-- What does not depend on the world. -/
structure Request where
  ideaJson : String
  model : String
  cfg : ResearchConfig := {}

section Source

variable {W : Type} (services : Services W) (request : Request)

/-- An activity is executed, or a service called. -/
def call {α : Type} (f : W → Except Failure α × W) : Step W α := fun s =>
  ⟨(f s.outside).1, { s with outside := (f s.outside).2 }, []⟩

/-- `try` and `except Exception`. -/
def attemptException {α : Type} (p : Step W α) : Step W (Except String α) := do
  match ← p.attempt with
  | .ok a => pure (.ok a)
  | .error (.exception text) => pure (.error text)
  | .error .base => Script.throw .base

def RoleUsage.fold (usage : RoleUsage) (calls : ℕ) (usd : Option ℚ) (into : RoleUsage) :
    RoleUsage :=
  { into with
    calls := into.calls + calls
    tokens := into.tokens + usage.tokens
    costUsd := addCost into.costUsd usd }

/-- `_fold_research_usage`. -/
def foldUsage (usage : RoleUsage) (calls : ℕ) : Step W Unit :=
  if usage.tokens.used then do
    let priced ← attemptException (call (services.priceUsage usage))
    let usd := match priced with
      | .ok usd => usd
      | .error _ => none
    Script.update fun s => { s with spend := RoleUsage.fold usage calls usd s.spend }
    Script.tell (.modelUsage usage calls usd)
  else pure ()

def foldUsages (calls : RoleUsage → ℕ) : List RoleUsage → Step W Unit
  | [] => pure ()
  | usage :: usages => do
    foldUsage services usage (calls usage)
    foldUsages calls usages

def foldDeadAttempts : Step W Unit :=
  if services.ledgerV2 then do
    let usages ← call services.readDeadAttempts
    foldUsages services RoleUsage.calls usages
  else pure ()

/-- `str` of what a sub-question raised. -/
def Failure.text : Failure → String
  | .exception text => text
  | .base => ""

def findingsFromResults (subs : List SubQuestion) (results : List (Except Failure Investigation)) :
    List Investigation :=
  (subs.zip results).map fun
    | (_, .ok finding) => finding
    | (sub, .error failure) =>
      { subQuestion := sub, failed := true, error := failure.text
        usage := { role := "research", model := "unknown" } }

/-- `_fan_out_research`. -/
def fanOut (idOffset : ℕ) (guidance : String) (gaps : List Gap)
    (contradictions : List Contradiction) : Step W (List Investigation) := do
  let plan ← call (services.planResearch
    { ideaJson := request.ideaJson, maxSubQuestions := request.cfg.maxSubQuestions
      model := request.model, idOffset, guidance, gaps, contradictions })
  foldUsage services plan.usage 1
  let results ← call fun w =>
    let answer := services.researchSubquestions
      (plan.subQuestions.map fun subQuestion =>
        { subQuestion, model := request.model, maxRequests := request.cfg.maxRequests
          maxRunCostUsd := request.cfg.maxRunCostUsd }) w
    (.ok answer.1, answer.2)
  let findings := findingsFromResults plan.subQuestions results
  foldUsages services (fun _ => 1) (findings.map Investigation.usage)
  pure findings

def synthesize : Step W Unit := do
  let findings ← Script.look Locals.findings
  let (brief, usage) ← call (services.synthesizeBrief
    { ideaJson := request.ideaJson, findings, model := request.model })
  Script.update fun s => { s with brief }
  foldUsage services usage 1

def degradedResearchBrief (text : String) : ResearchBrief where
  gaps := [{ subQuestionId := "research-stage"
             whatIsMissing := "the research stage did not complete"
             whyItMatters := "degraded fallback: " ++ text }]
  summary := "Research stopped early: " ++ text

def draft : Step W Unit := do
  let drafted ← attemptException do
    let findings ← fanOut services request 0 "" [] []
    Script.update fun s => { s with findings }
    if findings.all fun f => f.failed then
      Script.update fun s => { s with brief := degradedResearchBrief "every sub-question failed" }
    else synthesize services request
  match drafted with
  | .ok () => pure ()
  | .error text =>
    Script.update fun s => { s with brief := degradedResearchBrief text, findings := [] }

def verify : Step W (List Violation) := do
  let brief ← Script.look Locals.brief
  let violations ← call (services.verifyBrief brief)
  Script.tell (.verified brief violations)
  pure violations

def shouldRefine (round : ℤ) (cfg : ResearchConfig) : Bool := round ≤ cfg.maxRefineRounds

/-- What a revision drafts the brief anew of. -/
def redraft (guidance : String) : Step W Unit := do
  let brief ← Script.look Locals.brief
  let known ← Script.look fun s => s.findings.length
  let found ← fanOut services request known guidance brief.gaps
    (brief.contradictions.filter Contradiction.unresolved)
  Script.update fun s => { s with findings := s.findings ++ found }
  synthesize services request

/-- How the loop is left. -/
inductive Left where
  | rejected
  | broken (verified : ResearchBrief) (violations : List Violation) (digest : String)

variable (sha256 : List Char → String)

/-- The loop of gates and revisions, for at most this many revisions. -/
def refineLoop : ℕ → ℤ → ResearchBrief → List Violation → String → Step W Left
  | rounds, round, verified, violations, digest => do
    let gate ← call (services.gate round)
    Script.tell (.decided round gate)
    match gate.outcome with
    | .approve => pure (.broken verified violations digest)
    | .reject => pure .rejected
    | .revise =>
      if shouldRefine round request.cfg then
        match rounds with
        | 0 => Script.throw .base
        | rounds + 1 =>
          match ← attemptException (redraft services request (gate.guidance.getD "")) with
          | .error _ => pure (.broken verified violations digest)
          | .ok () =>
            let violations ← verify services
            let brief ← Script.look Locals.brief
            if violations ≠ [] then
              Script.tell (.stage "research_failed")
              pure (.broken brief violations "")
            else refineLoop rounds (round + 1) brief violations (briefDigest sha256 brief)
      else pure (.broken verified violations digest)

/-- `verified_findings_to_retain`: the texts, and the sources. -/
def verifiedFindingsToRetain (brief : ResearchBrief) (violations : List Violation) :
    List (String × String) :=
  (brief.groundedFindings.filter fun f =>
      (f.sourceUrl, f.quote) ∉ violations.map fun v => (v.source, v.quote)).map
    fun f => (f.claim ++ " — " ++ f.sourceUrl, f.sourceUrl)

def retainAll : List (String × String) → Step W Unit
  | [] => pure ()
  | (text, source) :: items => do
    call (services.retain text source)
    retainAll items

def Violation.text (v : Violation) : String :=
  v.kind.value ++ ": " ++ v.source ++ ": " ++ services.repr (String.ofList (v.quote.toList.take 80))

/-- The end of the step, where the gate did not reject. -/
def conclude (verified : ResearchBrief) (violations : List Violation) (digest : String) :
    Step W ResearchOutcome := do
  foldDeadAttempts services
  let brief ← Script.look Locals.brief
  let spend ← Script.look Locals.spend
  if digest ≠ "" then
    retainAll services (verifiedFindingsToRetain verified violations)
    let quality ← call (services.judge brief)
    call (services.record true
      (if quality.judge = "error" then some quality.detail else none) spend)
  else
    call (services.record false (some "rejected:research.grounding (refine)") spend)
  pure { toResearchBrief := brief, digest }

/-- The end of the step, where the first draft does not pass. -/
def concludeFailed (violations : List Violation) : Step W ResearchOutcome := do
  Script.tell (.stage "research_failed")
  foldDeadAttempts services
  let brief ← Script.look Locals.brief
  let spend ← Script.look Locals.spend
  call (services.record false (some ("rejected:research.grounding: " ++
    joinWith "; " (violations.map (Violation.text services)))) spend)
  pure { toResearchBrief := brief, digest := "" }

def step : Step W ResearchOutcome := do
  Script.tell (.stage "researching")
  draft services request
  let violations ← verify services
  let brief ← Script.look Locals.brief
  if violations ≠ [] then concludeFailed services violations
  else
    match ← refineLoop services request sha256 request.cfg.maxRefineRounds.toNat 1 brief violations
      (briefDigest sha256 brief) with
    | .rejected =>
      let brief ← Script.look Locals.brief
      pure { toResearchBrief := brief, rejection := some "rejected:research" }
    | .broken verified violations digest => conclude services verified violations digest

/-- **The loop needs no more revisions than it is given**: `_should_refine` ends it before. -/
theorem refineLoop_succ (rounds : ℕ) {round : ℤ} (h : request.cfg.maxRefineRounds < round + rounds)
    (verified : ResearchBrief) (violations : List Violation) (digest : String) :
    refineLoop services request sha256 (rounds + 1) round verified violations digest =
      refineLoop services request sha256 rounds round verified violations digest := by
  induction rounds generalizing round verified violations digest with
  | zero =>
    have hlast : shouldRefine round request.cfg = false := decide_eq_false (by omega)
    rw [refineLoop, refineLoop, hlast]
    rfl
  | succ rounds ih =>
    have hnext : request.cfg.maxRefineRounds < round + 1 + rounds := by omega
    rw [refineLoop, refineLoop]
    simp only [ih hnext]

end Source

/-! ## 3.  What does not touch the brief -/

section Quiet

variable {W : Type} {services : Services W} {request : Request}

/-- The script leaves the brief as it is, and verifies nothing. -/
def Quiet {α : Type} (p : Step W α) : Prop :=
  ∀ b, Script.Keeps (fun s => s.brief = b) (fun e => e.verdict? = none) p

theorem Quiet.bind {α β : Type} {p : Step W α} {f : α → Step W β} (hp : Quiet p)
    (hf : ∀ a, Quiet (f a)) : Quiet (p >>= f) :=
  fun b => (hp b).bind fun a => hf a b

theorem quiet_pure {α : Type} (a : α) : Quiet (pure a : Step W α) := fun _ => Script.keeps_pure

theorem quiet_look {α : Type} (f : Locals W → α) : Quiet (Script.look f : Step W α) :=
  fun _ => Script.keeps_look

theorem quiet_call {α : Type} (f : W → Except Failure α × W) : Quiet (call f) :=
  fun _ _ hs => ⟨List.forall_mem_nil _, hs⟩

theorem quiet_attemptException {α : Type} {p : Step W α} (hp : Quiet p) :
    Quiet (attemptException p) := by
  refine Quiet.bind (fun b => (hp b).attempt) fun result => ?_
  rcases result with (_ | _) | _
  · exact quiet_pure _
  · exact fun _ => Script.keeps_throw
  · exact quiet_pure _

theorem quiet_foldUsage (usage : RoleUsage) (calls : ℕ) :
    Quiet (foldUsage services usage calls) := by
  rw [foldUsage]
  split
  · refine (quiet_attemptException (quiet_call _)).bind fun priced => ?_
    refine Quiet.bind (fun b => Script.keeps_update fun s hs => hs) fun _ => ?_
    exact fun _ => Script.keeps_tell rfl
  · exact quiet_pure _

theorem quiet_foldUsages (calls : RoleUsage → ℕ) (usages : List RoleUsage) :
    Quiet (foldUsages services calls usages) := by
  induction usages with
  | nil => exact quiet_pure _
  | cons usage usages ih => exact (quiet_foldUsage usage _).bind fun _ => ih

theorem quiet_foldDeadAttempts : Quiet (foldDeadAttempts services) := by
  rw [foldDeadAttempts]
  split
  · exact (quiet_call _).bind fun usages => quiet_foldUsages _ usages
  · exact quiet_pure _

theorem quiet_fanOut (idOffset : ℕ) (guidance : String) (gaps : List Gap)
    (contradictions : List Contradiction) :
    Quiet (fanOut services request idOffset guidance gaps contradictions) := by
  refine (quiet_call _).bind fun plan => ?_
  refine (quiet_foldUsage _ _).bind fun _ => ?_
  refine (quiet_call _).bind fun results => ?_
  exact (quiet_foldUsages _ _).bind fun _ => quiet_pure _

theorem quiet_retainAll (items : List (String × String)) : Quiet (retainAll services items) := by
  induction items with
  | nil => exact quiet_pure _
  | cons item items ih => exact (quiet_call _).bind fun _ => ih

end Quiet

/-! ## 4.  What drafts the brief -/

section Drafts

variable {W : Type} {services : Services W} {request : Request}

/-- The script raises no exception. -/
def NoException {α : Type} (p : Step W α) : Prop :=
  ∀ s text, (p s).result ≠ .error (.exception text)

theorem NoException.bind {α β : Type} {p : Step W α} {f : α → Step W β} (hp : NoException p)
    (hf : ∀ a, NoException (f a)) : NoException (p >>= f) := by
  intro s text
  cases hresult : (p s).result with
  | ok a =>
    rw [Script.bind_of_ok hresult]
    exact hf a _ text
  | error e =>
    rw [Script.bind_of_error hresult]
    intro h
    obtain rfl : e = .exception text := Except.error.inj h
    exact hp s text hresult

/-- What `except Exception` makes of a result. -/
def excepted {α : Type} : Except Failure α → Except Failure (Except String α)
  | .ok a => .ok (.ok a)
  | .error (.exception text) => .ok (.error text)
  | .error .base => .error .base

theorem attemptException_run {α : Type} (p : Step W α) (s : Locals W) :
    attemptException p s = ⟨excepted (p s).result, (p s).world, (p s).trace⟩ := by
  rw [attemptException, Script.bind_of_eq Script.attempt_run]
  rcases (p s).result with (text | _) | a
  all_goals exact congrArg (Script.Outcome.mk _ _) (List.append_nil _)

theorem noException_attemptException {α : Type} (p : Step W α) :
    NoException (attemptException p) := by
  intro s text
  rw [attemptException_run]
  rcases (p s).result with (text | _) | a
  · exact nofun
  · exact nofun
  · exact nofun

theorem noException_foldUsage (usage : RoleUsage) (calls : ℕ) :
    NoException (foldUsage services usage calls) := by
  rw [foldUsage]
  split
  · refine (noException_attemptException _).bind fun priced => ?_
    exact NoException.bind (fun _ _ => nofun) fun _ _ _ => nofun
  · exact fun _ _ => nofun

structure Drafts (p : Step W Unit) : Prop where
  silent : ∀ s, Script.Emits (fun e => e.verdict? = none) p s
  kept : ∀ s text, (p s).result = .error (.exception text) → (p s).world.brief = s.brief

theorem Quiet.drafts {α : Type} {p : Step W α} {f : α → Step W Unit} (hp : Quiet p)
    (hf : ∀ a, Drafts (f a)) : Drafts (p >>= f) where
  silent s := Script.emits_bind.mpr ⟨(hp s.brief s rfl).1, fun a _ => (hf a).silent _⟩
  kept s text h := by
    have hbrief := (hp s.brief s rfl).2
    cases hresult : (p s).result with
    | ok a =>
      rw [Script.bind_of_ok hresult] at h ⊢
      exact ((hf a).kept _ text h).trans hbrief
    | error e =>
      rw [Script.bind_of_error hresult]
      exact hbrief

theorem drafts_synthesize : Drafts (synthesize services request) := by
  refine (quiet_look _).drafts fun findings => (quiet_call _).drafts fun drafted => ?_
  constructor
  · intro s
    exact Script.emits_bind.mpr ⟨List.forall_mem_nil _, fun _ _ => (quiet_foldUsage _ _ _ _ rfl).1⟩
  · intro s text h
    have hupdate : NoException (Script.update fun s : Locals W => { s with brief := drafted.1 } :
      Step W Unit) := fun _ _ => nofun
    exact absurd h (hupdate.bind (fun _ => noException_foldUsage _ _) s text)

variable (services request) in
theorem drafts_redraft (guidance : String) : Drafts (redraft services request guidance) := by
  refine (quiet_look _).drafts fun brief => (quiet_look _).drafts fun known => ?_
  refine (quiet_fanOut _ _ _ _).drafts fun found => ?_
  refine Quiet.drafts (fun b => Script.keeps_update fun s hs => hs) fun _ => ?_
  exact drafts_synthesize

end Drafts

/-! ## 5.  What is certified -/

section Certified

def lastVerdict (trace : List Event) : Option (ResearchBrief × List Violation) :=
  (trace.filterMap Event.verdict?).getLast?

theorem lastVerdict_append_silent (before : List Event) {trace : List Event}
    (h : ∀ e ∈ trace, e.verdict? = none) : lastVerdict (before ++ trace) = lastVerdict before := by
  rw [lastVerdict, List.filterMap_append, List.filterMap_eq_nil_iff.mpr h, List.append_nil]
  rfl

theorem lastVerdict_append_verified (before : List Event) (brief : ResearchBrief)
    (violations : List Violation) :
    lastVerdict (before ++ [.verified brief violations]) = some (brief, violations) := by
  rw [lastVerdict, List.filterMap_append]
  exact List.getLast?_concat

variable {W : Type} {services : Services W} {request : Request} {sha256 : List Char → String}

variable {s : Locals W}

variable {violations : List Violation}

theorem verify_eq_ok (h : (verify services s).result = .ok violations) :
    (verify services s).world.brief = s.brief ∧
      (verify services s).trace = [.verified s.brief violations] := by
  have hlook : (Script.look Locals.brief : Step W ResearchBrief) s = ⟨.ok s.brief, s, []⟩ := rfl
  rw [verify, Script.bind_of_eq hlook] at h ⊢
  obtain ⟨found, -, hrest, hworld, htrace⟩ := Script.exists_of_bind_ok h
  obtain rfl : found = violations := Except.ok.inj hrest
  refine ⟨?_, ?_⟩
  · show Locals.brief (Script.Outcome.world _) = _
    rw [hworld]
    rfl
  · show [] ++ Script.Outcome.trace _ = _
    rw [htrace]
    rfl

variable (sha256) in
/-- A digest that is not empty is that of the brief, and the brief is the one that was verified
last, without violations. -/
def Left.Certified (brief : ResearchBrief) (trace : List Event) : Left → Prop
  | .rejected => True
  | .broken verified violations digest => digest ≠ "" →
    verified = brief ∧ violations = [] ∧ digest = briefDigest sha256 brief ∧
      lastVerdict trace = some (brief, [])

variable (sha256) in
def Ends (before : List Event) (p : Step W Left) (s : Locals W) : Prop :=
  Script.Ensures (fun left s trace => left.Certified sha256 s.brief trace) before p s

variable {before : List Event}

theorem ends_broken (hlast : lastVerdict before = some (s.brief, [])) :
    Ends sha256 before (pure (.broken s.brief [] (briefDigest sha256 s.brief))) s :=
  Script.ensures_pure fun _ => ⟨rfl, rfl, rfl, hlast⟩

theorem ends_gate (round : ℤ) {revise : GateDecision → Step W Left}
    (hlast : lastVerdict before = some (s.brief, []))
    (hrevise : ∀ gate s' before', s'.brief = s.brief → lastVerdict before' = some (s'.brief, []) →
      Ends sha256 before' (revise gate) s') :
    Ends sha256 before (do
      let gate ← call (services.gate round)
      Script.tell (.decided round gate)
      match gate.outcome with
      | .approve => pure (.broken s.brief [] (briefDigest sha256 s.brief))
      | .reject => pure .rejected
      | .revise =>
        if shouldRefine round request.cfg then revise gate
        else pure (.broken s.brief [] (briefDigest sha256 s.brief))) s := by
  refine Script.ensures_bind fun gate _ => Script.ensures_bind fun _ _ => ?_
  have hbefore : lastVerdict (before ++ [] ++ [.decided round gate]) = some (s.brief, []) := by
    rw [lastVerdict_append_silent _ (by simp [Event.verdict?]), List.append_nil, hlast]
  cases gate.outcome with
  | approve => exact ends_broken hbefore
  | reject => exact Script.ensures_pure trivial
  | revise =>
    dsimp only
    split
    · exact hrevise gate _ _ rfl hbefore
    · exact ends_broken hbefore

theorem brief_of_excepted {p : Step W Unit} (hp : Drafts p) {text : String}
    (h : (attemptException p s).result = .ok (.error text)) :
    (attemptException p s).world.brief = s.brief := by
  rw [attemptException_run] at h ⊢
  refine hp.kept s text ?_
  rcases hresult : (p s).result with (text' | _) | a
  · rw [hresult] at h
    cases h
    rfl
  · rw [hresult] at h
    cases h
  · rw [hresult] at h
    cases h

theorem silent_attemptException {p : Step W Unit} (hp : Drafts p) (s : Locals W) :
    ∀ e ∈ (attemptException p s).trace, e.verdict? = none := by
  rw [attemptException_run]
  exact hp.silent s

/-- **A run of the loop**, from a brief that was verified last. -/
theorem ends_refineLoop (rounds : ℕ) (round : ℤ) (hlast : lastVerdict before = some (s.brief, [])) :
    Ends sha256 before (refineLoop services request sha256 rounds round s.brief []
      (briefDigest sha256 s.brief)) s := by
  induction rounds generalizing round s before with
  | zero =>
    rw [refineLoop]
    exact ends_gate round hlast fun _ _ _ _ _ => Script.ensures_throw
  | succ rounds ih =>
    rw [refineLoop]
    refine ends_gate round hlast fun gate s' before' hbrief hlast' => ?_
    refine Script.ensures_bind fun drafted hdraft => ?_
    have hredraft := drafts_redraft services request (gate.guidance.getD "")
    have hsilent := silent_attemptException hredraft s'
    cases drafted with
    | error text =>
      have hkept := brief_of_excepted hredraft hdraft
      rw [← hbrief, ← hkept]
      refine ends_broken ?_
      rw [lastVerdict_append_silent before' hsilent, hlast', hkept]
    | ok _ =>
      refine Script.ensures_bind fun violations hverify => ?_
      obtain ⟨hverified, htrace⟩ := verify_eq_ok hverify
      refine Script.ensures_bind fun brief hlook => ?_
      obtain rfl := Except.ok.inj hlook
      split
      · exact Script.ensures_bind fun _ _ => Script.ensures_pure fun h => absurd rfl h
      · rename_i hclean
        obtain rfl : violations = [] := not_not.mp hclean
        refine ih (round + 1) ?_
        rw [htrace, ← hverified]
        exact (congrArg lastVerdict (List.append_nil _)).trans
          (lastVerdict_append_verified _ _ _)

variable (sha256) in
/-- A digest that is not empty is that of the brief it is returned with, which is the one that was
verified last, and without violations. -/
def ResearchOutcome.Certified (out : ResearchOutcome) (trace : List Event) : Prop :=
  out.digest ≠ "" →
    out.digest = briefDigest sha256 out.toResearchBrief ∧
      lastVerdict trace = some (out.toResearchBrief, [])

theorem ensures_quiet_bind {α β : Type} {p : Step W α} {f : α → Step W β}
    {R : β → Locals W → List Event → Prop} (hp : Quiet p)
    (h : ∀ a s' trace, s'.brief = s.brief → lastVerdict trace = lastVerdict before →
      Script.Ensures R trace (f a) s') : Script.Ensures R before (p >>= f) s := by
  obtain ⟨hsilent, hbrief⟩ := hp s.brief s rfl
  exact Script.ensures_bind fun a _ => h a _ _ hbrief (lastVerdict_append_silent before hsilent)

theorem certified_conclude {verified : ResearchBrief} {digest : String}
    (h : Left.Certified sha256 s.brief before (.broken verified violations digest)) :
    Script.Ensures (fun out _ trace => out.Certified sha256 trace) before
      (conclude services verified violations digest) s := by
  have hend {s' : Locals W} {trace : List Event} (hlast : lastVerdict trace = lastVerdict before) :
      Script.Ensures (fun out _ trace => ResearchOutcome.Certified sha256 out trace) trace
        (pure { toResearchBrief := s.brief, digest } : Step W ResearchOutcome) s' := by
    refine Script.ensures_pure fun hdigest => ?_
    obtain ⟨-, -, hsha, hverdict⟩ := h hdigest
    exact ⟨hsha, hlast.trans hverdict⟩
  refine ensures_quiet_bind quiet_foldDeadAttempts fun _ s₁ before₁ hbrief hlast₁ => ?_
  refine Script.ensures_bind fun brief hlook => ?_
  obtain rfl : s₁.brief = brief := Except.ok.inj hlook
  refine ensures_quiet_bind (quiet_look _) fun spend s₂ before₂ _ hlast₂ => ?_
  replace hlast₂ := hlast₂.trans ((congrArg lastVerdict (List.append_nil before₁)).trans hlast₁)
  rw [hbrief]
  split
  · refine ensures_quiet_bind (quiet_retainAll _) fun _ s₃ before₃ _ hlast₃ => ?_
    refine ensures_quiet_bind (quiet_call _) fun quality s₄ before₄ _ hlast₄ => ?_
    refine ensures_quiet_bind (quiet_call _) fun _ s₅ before₅ _ hlast₅ => ?_
    exact hend (hlast₅.trans (hlast₄.trans (hlast₃.trans hlast₂)))
  · refine ensures_quiet_bind (quiet_call _) fun _ s₃ before₃ _ hlast₃ => ?_
    exact hend (hlast₃.trans hlast₂)

theorem certified_concludeFailed :
    Script.Ensures (fun out _ trace => ResearchOutcome.Certified sha256 out trace) before
      (concludeFailed services violations) s := by
  refine Script.ensures_bind fun _ _ => Script.ensures_bind fun _ _ => ?_
  refine Script.ensures_bind fun brief _ => Script.ensures_bind fun spend _ => ?_
  exact Script.ensures_bind fun _ _ => Script.ensures_pure fun h => absurd rfl h

theorem certified_gates (rounds : ℕ) (hlast : lastVerdict before = some (s.brief, [])) :
    Script.Ensures (fun out _ trace => ResearchOutcome.Certified sha256 out trace) before (do
      match ← refineLoop services request sha256 rounds 1 s.brief []
        (briefDigest sha256 s.brief) with
      | .rejected =>
        let brief ← Script.look Locals.brief
        pure { toResearchBrief := brief, rejection := some "rejected:research" }
      | .broken verified violations digest => conclude services verified violations digest) s := by
  refine Script.ensures_bind fun left hleft => ?_
  have hends := ends_refineLoop rounds 1 hlast left hleft
  cases left with
  | rejected => exact Script.ensures_bind fun _ _ => Script.ensures_pure fun h => absurd rfl h
  | broken verified violations digest => exact certified_conclude hends

/-- **The research step certifies only what was verified**: where it returns a digest that is not
empty, this is the digest of the brief that it returns, and this brief is the one that was verified
last, without violations. -/
theorem certified_step (services : Services W) (request : Request) (s : Locals W) :
    Script.Ensures (fun out _ trace => ResearchOutcome.Certified sha256 out trace) []
      (step services request sha256) s := by
  refine Script.ensures_bind fun _ _ => Script.ensures_bind fun _ _ => ?_
  refine Script.ensures_bind fun violations hverify => ?_
  obtain ⟨hverified, htrace⟩ := verify_eq_ok hverify
  refine Script.ensures_bind fun brief hlook => ?_
  obtain rfl := Except.ok.inj hlook
  split
  · exact certified_concludeFailed
  · rename_i hclean
    obtain rfl : violations = [] := not_not.mp hclean
    refine certified_gates _ ?_
    rw [htrace, ← hverified]
    exact (congrArg lastVerdict (List.append_nil _)).trans (lastVerdict_append_verified _ _ _)

/-- **The research step certifies only what was verified**: where it returns a digest that is not
empty, this is the digest of the brief that it returns, and this brief is the one that was verified
last, without violations. -/
theorem certified (services : Services W) (request : Request) (s : Locals W) {out : ResearchOutcome}
    (hout : (step services request sha256 s).result = .ok out) (hdigest : out.digest ≠ "") :
    out.digest = briefDigest sha256 out.toResearchBrief ∧
      lastVerdict (step services request sha256 s).trace = some (out.toResearchBrief, []) :=
  certified_step services request s out hout hdigest

def samplePlan : ResearchPlan where
  subQuestions := [⟨"q1", "Does it rain?"⟩]
  usage := { role := "research", model := "m" }

/-- The first brief is revised, the second approved. -/
def sampleServices : Services Unit where
  planResearch _ w := (.ok samplePlan, w)
  researchSubquestions inputs w :=
    (inputs.map fun input => .ok { subQuestion := input.subQuestion, usage := samplePlan.usage }, w)
  synthesizeBrief input w :=
    let summary := if input.findings.length = 1 then "first" else "second"
    (.ok ({ summary }, samplePlan.usage), w)
  verifyBrief _ w := (.ok [], w)
  priceUsage _ w := (.ok none, w)
  readDeadAttempts w := (.ok [], w)
  gate round w := (.ok
    { gate := "research", outcome := if round = 1 then .revise else .approve, decidedBy := .human },
    w)
  retain _ _ w := (.ok (), w)
  judge _ w := (.ok { score := none, judge := "none", detail := "" }, w)
  record _ _ _ w := (.ok (), w)
  ledgerV2 := true
  repr := quoted

def sampleStart : Locals Unit where
  outside := ()
  spend := { role := "research", model := "m" }

theorem certified_sample :
    briefDigest String.ofList { summary := "second" } = "[]" ∧
      lastVerdict (step sampleServices { ideaJson := "\x7b\x7d", model := "m" } String.ofList
        sampleStart).trace = some ({ summary := "second" }, []) := by
  have hout : (step sampleServices { ideaJson := "\x7b\x7d", model := "m" } String.ofList
      sampleStart).result = .ok { summary := "second", digest := "[]" } := by decide +kernel
  obtain ⟨hdigest, hverdict⟩ := certified sampleServices _ sampleStart hout (by decide)
  exact ⟨hdigest.symm, hverdict⟩

end Certified

end Kroker.Research
