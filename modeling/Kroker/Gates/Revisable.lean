import Kroker.Gates.AutoDecision
import Kroker.Library.Script
import Kroker.Memoization.Keys

/-!
# What a revision is answered with

`_revisable_stage` runs the producer of a stage and opens a gate, and on `REVISE` it runs the
producer again with the guidance of the reviewer.  The producers of the architecture and the plan
ask `_cached_stage`, which may answer with what is kept under a key; the architecture is asked for
again, with a correction, where its delta does not fit the repository.  What is called from outside
may answer anything (`Services`), and the cache may hold anything at the start.

## What the key sees

The key is made of the requirements, the guidance, the map and the correction, which are joined
without a separator.  Nothing in it counts the rounds.  So a revision without guidance, or with the
guidance of an earlier round, and a delta that fails twice for one reason, are answered with the
very artifact that was rejected.
-/

namespace Kroker.Revision

open Memoization

/-! ## 1.  The stages -/

/-- A note in a prompt, which is left out where there is nothing to say. -/
def note (label : String) : Option String → String
  | none => ""
  | some text => if text = "" then "" else label ++ text

/-- `a or b` of two texts that may be missing. -/
def textOr (a b : Option String) : Option String :=
  match a with
  | none => b
  | some text => if text = "" then b else some text

def guidanceNote : Option String → String := note "\nRevision guidance from reviewer:\n"

def correctionNote : Option String → String := note "\nDelta correction required:\n"

def memoryBlock (items : List String) : String :=
  if items = [] then "" else "\nRelevant memory:\n- " ++ joinWith "\n- " items

/-- What `_delta_guidance` says of a failed check. -/
def deltaGuidance (commitSha detail : String) : String :=
  "The proposed delta does not match the repository at " ++
    String.ofList (commitSha.toList.take 12) ++ ": " ++ detail ++
    ". Update delta.added, delta.modified, and delta.removed so every path resolves."

/-- The error of the last retry. -/
def deltaFailure (detail : String) : String :=
  "brownfield architecture delta failed grounding check after retries: " ++ detail

/-- A stage with its producer: the name of its gate, the name it is memoized under, and what a round
asks for, given the guidance of the reviewer and the correction of the delta. -/
structure Stage where
  name : String
  memoStage : String
  cacheKey : Option String → Option String → String
  prompt : Option String → Option String → String
  /-- The commit of the codebase that the delta is checked against, if there is one. -/
  codebase : Option String
  maxDeltaRetries : ℤ
  /-- The prompt ends with both notes. -/
  told : ∀ guidance correction, (codebase = none → correction = none) →
    ∃ body, prompt guidance correction = body ++ guidanceNote guidance ++ correctionNote correction

structure CodebaseMap where
  commitSha : String
  /-- `map_digest` and the rendered map. -/
  digest : String
  block : String

/-- What a run of the architecture stage gives its producer. -/
structure ArchitectureInput where
  mode : String
  requirements : String
  codebaseMap : Option CodebaseMap
  memory : List String
  maxDeltaRetries : ℤ := 1

def ArchitectureInput.mapKey (inp : ArchitectureInput) : String :=
  inp.codebaseMap.elim "" CodebaseMap.digest

def ArchitectureInput.mapBlock (inp : ArchitectureInput) : String :=
  inp.codebaseMap.elim "" CodebaseMap.block

/-- `stages/architecture/step.py`. -/
def architecture (inp : ArchitectureInput) : Stage where
  name := "architecture"
  memoStage := "architect"
  cacheKey guidance correction :=
    inp.requirements ++ guidance.getD "" ++ inp.mapKey ++ correction.getD ""
  prompt guidance correction :=
    "mode=" ++ inp.mode ++ "\n" ++ inp.requirements ++ inp.mapBlock ++ memoryBlock inp.memory ++
      guidanceNote guidance ++ correctionNote correction
  codebase := inp.codebaseMap.map CodebaseMap.commitSha
  maxDeltaRetries := inp.maxDeltaRetries
  told _ _ _ := ⟨_, rfl⟩

/-- `stages/plan/step.py`, with the prompt of `planner_prompt`. -/
def plan (architectureJson : String) (memory : List String) : Stage where
  name := "plan"
  memoStage := "plan"
  cacheKey guidance _ := architectureJson ++ guidance.getD ""
  prompt guidance _ := architectureJson ++ memoryBlock memory ++ guidanceNote guidance
  codebase := none
  maxDeltaRetries := 0
  told guidance correction h := by
    rw [h rfl]
    exact ⟨architectureJson ++ memoryBlock memory, (String.append_empty).symm⟩

/-! ## 2.  A run of a stage -/

structure DeltaCheck where
  passed : Bool
  detail : String
  deriving DecidableEq

/-- The fields of `PipelineConfig` that a stage reads, and what its memo key is made of. -/
structure RevisionConfig extends GatesConfig where
  memoizationEnabled : Bool := true
  /-- `PROMPT_SHAS[stage] + prompt_digest`. -/
  promptSha : String
  resolvedModel : String
  /-- The model is an override of the run's. -/
  forwarded : Bool := false
  memoryWatermark : Option String := none

/-- What a stage calls. -/
structure Services (A W : Type) where
  dump : A → String
  validate : String → Except String A
  confidence : A → Option ℚ
  specSummary : A → String
  /-- `run_role` of the proposer, with the prompt. -/
  runRole : String → W → Except String A × W
  /-- What becomes of an activity of the cache. -/
  cacheActivity : W → Except String Unit × W
  checkBrownfieldDelta : A → W → Except String DeltaCheck × W
  calibrationVerdict : W → CalibrationVerdict × W
  /-- `_gate`, with the summary that is shown. -/
  gate : GateRequest → String → W → Except String GateDecision × W

/-- A call of `_cached_stage`, and whether it was answered from the cache. -/
structure Ask where
  guidance : Option String
  correction : Option String
  input : String
  prompt : String
  served : Bool
  deriving DecidableEq

/-- What happens in a run of a stage. -/
inductive Event (A : Type) where
  | asked (ask : Ask)
  | checked (check : DeltaCheck)
  | decided (artifact : A) (decision : GateDecision)
  deriving DecidableEq

structure World (W : Type) where
  cache : Cache
  outside : W

section Run

variable {A W : Type} (sha256 : String → String) (fixed : ℚ → String) (services : Services A W)
  (cfg : RevisionConfig) (st : Stage)

abbrev Work (A W : Type) := Script (World W) (Event A) String

/-- What is outside of the run answers. -/
def call {B : Type} (f : W → Except String B × W) : Work A W B := fun w =>
  ⟨(f w.outside).1, { w with outside := (f w.outside).2 }, []⟩

/-- The call of `content_key`. -/
def memoCall (input : String) : Call :=
  .content st.memoStage input cfg.promptSha
    (if cfg.forwarded then "fwd1:" ++ cfg.resolvedModel else cfg.resolvedModel)
    (orElseText cfg.memoryWatermark "none")

def memoKey (input : String) : String := (memoCall cfg st input).key sha256

def cachedStage (guidance correction : Option String) : Work A W A := do
  let input := st.cacheKey guidance correction
  let prompt := st.prompt guidance correction
  if cfg.memoizationEnabled then
    call services.cacheActivity
    let cached ← Script.look fun w => w.cache.get (memoKey sha256 cfg st input)
    match cached with
    | some payload =>
      Script.tell (.asked { guidance, correction, input, prompt, served := true })
      call fun w => (services.validate payload, w)
    | none =>
      Script.tell (.asked { guidance, correction, input, prompt, served := false })
      let result ← call (services.runRole prompt)
      call services.cacheActivity
      Script.update fun w =>
        { w with cache := w.cache.put (memoKey sha256 cfg st input) (services.dump result) }
      pure result
  else
    Script.tell (.asked { guidance, correction, input, prompt, served := false })
    call (services.runRole prompt)

/-- The loop of `produce`, with the retries that are left. -/
def produceFrom (guidance : Option String) : ℕ → Option String → Work A W A
  | retries, correction => do
    let arch ← cachedStage sha256 services cfg st guidance correction
    match st.codebase with
    | none => pure arch
    | some commitSha =>
      let check ← call (services.checkBrownfieldDelta arch)
      Script.tell (.checked check)
      if check.passed then pure arch
      else
        match retries with
        | 0 => Script.throw (deltaFailure check.detail)
        | retries + 1 => produceFrom guidance retries (some (deltaGuidance commitSha check.detail))

/-- `produce`: one round of the producer. -/
def produce (guidance : Option String) : Work A W A :=
  produceFrom sha256 services cfg st guidance st.maxDeltaRetries.toNat none

/-- The automatic decision that a round brings along: only for `SOFT` and with a confidence is the
calibration looked up. -/
def automatic (confidence : Option ℚ) : Work A W (Option GateDecision) :=
  if confidence ≠ none ∧ (cfg.gate st.name).policy = .soft then do
    let calibration ← call fun w =>
      (.ok (services.calibrationVerdict w).1, (services.calibrationVerdict w).2)
    pure (autoDecisionFor fixed st.name cfg.toGatesConfig confidence calibration)
  else pure none

/-- The rounds of `_revisable_stage` from a round on, with so many revisions left. -/
def revisableFrom : ℕ → ℕ → Option String → Work A W (A × GateDecision)
  | 0, round, guidance => do
    let artifact ← produce sha256 services cfg st guidance
    let decision ← call (services.gate { name := st.name, settings := cfg.gateSettings, round }
      (services.specSummary artifact))
    Script.tell (.decided artifact decision)
    pure (artifact, decision)
  | left + 1, round, guidance => do
    let artifact ← produce sha256 services cfg st guidance
    let auto ← automatic fixed services cfg st (services.confidence artifact)
    let decision ← call (services.gate
      { name := st.name, settings := cfg.gateSettings, autoDecision := auto, round }
      (services.specSummary artifact))
    Script.tell (.decided artifact decision)
    if decision.outcome ≠ .revise then pure (artifact, decision)
    else revisableFrom left (round + 1) (textOr decision.guidance decision.comments)

def revisableStage : Work A W (A × GateDecision) :=
  revisableFrom sha256 fixed services cfg st cfg.maxGateRounds 1 none

end Run

/-! ## 3.  What is asked of the log -/

section Log

variable {A : Type} (st : Stage)

def Event.ask? : Event A → Option Ask
  | .asked ask => some ask
  | _ => none

/-- The calls of `_cached_stage`, in order. -/
def asks (log : List (Event A)) : List Ask := log.filterMap Event.ask?

/-- How many gates were opened. -/
def gates (log : List (Event A)) : ℕ :=
  log.countP fun e => match e with
    | .decided _ _ => true
    | _ => false

/-- A check fails, or the reviewer sends the artifact back. -/
def Event.rejects : Event A → Bool
  | .asked _ => false
  | .checked check => !check.passed
  | .decided _ decision => decision.outcome = .revise

/-- What came of an artifact, by what has followed: it was rejected before the next call. -/
def rejected : List (Event A) → Bool
  | [] => false
  | .asked _ :: _ => false
  | e :: rest => e.rejects || rejected rest

/-- What is to be told after an event: the guidance of the latest `REVISE`, and the correction that
the latest check has asked for since. -/
def tell (told : Option String × Option String) : Event A → Option String × Option String
  | .asked _ => told
  | .checked check =>
    if check.passed then told
    else (told.1, st.codebase.map fun commitSha => deltaGuidance commitSha check.detail)
  | .decided _ decision =>
    if decision.outcome = .revise then (textOr decision.guidance decision.comments, none) else told

def told (log : List (Event A)) : Option String × Option String := log.foldl (tell st) (none, none)

/-- **A rejected artifact is served again**: a call is answered from the cache under the key of an
earlier call, whose artifact was rejected. -/
def ServedAgain (log : List (Event A)) : Prop :=
  ∃ before a rest middle b after, log = before ++ .asked a :: rest ∧ rejected rest = true ∧
    rest = middle ++ .asked b :: after ∧ b.served = true ∧ b.input = a.input

/-- What is to be told goes into the key of the next call, and its prompt ends with the notes. -/
def Told (log : List (Event A)) : Prop :=
  ∀ before a after, log = before ++ .asked a :: after →
    a.input = st.cacheKey (told st before).1 (told st before).2 ∧
      ∃ body, a.prompt =
        body ++ guidanceNote (told st before).1 ++ correctionNote (told st before).2

end Log

/-! ## 4.  The calls of a run -/

section Proof

variable {A W : Type} {sha256 : String → String} {fixed : ℚ → String} {services : Services A W}
  {cfg : RevisionConfig} {st : Stage} {initial : Cache}

/-- The calls that are answered from the cache: memoization is on, and the key was there at the
beginning or is that of an earlier call. -/
def Known (sha256 : String → String) (cfg : RevisionConfig) (st : Stage) (initial : Cache)
    (earlier : List Ask) (input : String) : Prop :=
  cfg.memoizationEnabled = true ∧ (initial.get (memoKey sha256 cfg st input) ≠ none ∨
    memoKey sha256 cfg st input ∈ earlier.map fun a => memoKey sha256 cfg st a.input)

/-- What a call is, given what has happened before. -/
structure Right (sha256 : String → String) (cfg : RevisionConfig) (st : Stage) (initial : Cache)
    (before : List (Event A)) (a : Ask) : Prop where
  told : (a.guidance, a.correction) = told st before
  grounded : st.codebase = none → a.correction = none
  input : a.input = st.cacheKey a.guidance a.correction
  prompt : a.prompt = st.prompt a.guidance a.correction
  served : a.served = true ↔ Known sha256 cfg st initial (asks before) a.input
  after : before = [] ∨ ∃ earlier e, before = earlier ++ [e] ∧ e.rejects = true

/-- Each call is. -/
def Fair (sha256 : String → String) (cfg : RevisionConfig) (st : Stage) (initial : Cache)
    (log : List (Event A)) : Prop :=
  ∀ before a after, log = before ++ .asked a :: after → Right sha256 cfg st initial before a

theorem fair_nil : Fair sha256 cfg st initial ([] : List (Event A)) := by
  intro before a after h
  exact absurd h.symm (List.append_ne_nil_of_right_ne_nil _ (List.cons_ne_nil _ _))

theorem Fair.append {log : List (Event A)} (h : Fair sha256 cfg st initial log) {e : Event A}
    (he : ∀ a, e = .asked a → Right sha256 cfg st initial log a) :
    Fair sha256 cfg st initial (log ++ [e]) := by
  intro before a after heq
  rcases List.append_eq_append_iff.mp heq with ⟨l, rfl, hrest⟩ | ⟨l, rfl, hrest⟩
  · cases l with
    | nil =>
      obtain ⟨rfl, -⟩ := List.cons.inj hrest
      rw [List.append_nil]
      exact he a rfl
    | cons x l =>
      obtain ⟨-, htail⟩ := List.cons.inj hrest
      exact absurd htail.symm (List.append_ne_nil_of_right_ne_nil _ (List.cons_ne_nil _ _))
  · cases l with
    | nil =>
      obtain ⟨rfl, -⟩ := List.cons.inj hrest
      rw [← List.append_nil before]
      exact he a rfl
    | cons x l =>
      obtain ⟨rfl, -⟩ := List.cons.inj hrest
      exact h before a l rfl

theorem asks_append_asked (log : List (Event A)) (a : Ask) :
    asks (log ++ [.asked a]) = asks log ++ [a] := by
  rw [asks, List.filterMap_append]
  rfl

/-- The cache holds what it held at the beginning, and an entry for each call. -/
def Settled (sha256 : String → String) (cfg : RevisionConfig) (st : Stage) (initial cache : Cache)
    (earlier : List Ask) : Prop :=
  cfg.memoizationEnabled = true → ∀ k, cache.get k ≠ none ↔
    (initial.get k ≠ none ∨ k ∈ earlier.map fun a => memoKey sha256 cfg st a.input)

variable {earlier : List Ask}

theorem Settled.served {cache : Cache} (h : Settled sha256 cfg st initial cache earlier) {a : Ask}
    (hhit : cache.get (memoKey sha256 cfg st a.input) ≠ none) :
    Settled sha256 cfg st initial cache (earlier ++ [a]) := by
  intro hmemo k
  rw [h hmemo k, List.map_append, List.mem_append]
  constructor
  · exact fun hk => hk.imp_right .inl
  · rintro (hk | hk | hk)
    · exact .inl hk
    · exact .inr hk
    · obtain rfl : k = memoKey sha256 cfg st a.input := List.mem_singleton.mp hk
      exact (h hmemo _).mp hhit

theorem Settled.put {cache : Cache} (h : Settled sha256 cfg st initial cache earlier) {a : Ask}
    {payload : String} :
    Settled sha256 cfg st initial (cache.put (memoKey sha256 cfg st a.input) payload)
      (earlier ++ [a]) := by
  intro hmemo k
  rw [List.map_append, List.mem_append, ← or_assoc, ← h hmemo k, Cache.put, Cache.get,
    Dict.get?_insert]
  constructor
  · intro hk
    split at hk
    · rename_i hkey
      exact .inr (List.mem_singleton.mpr hkey.symm)
    · exact .inl hk
  · rintro (hk | hk)
    · split
      · exact Option.some_ne_none _
      · exact hk
    · obtain rfl : k = memoKey sha256 cfg st a.input := List.mem_singleton.mp hk
      rw [if_pos rfl]
      exact Option.some_ne_none _

/-! ## 5.  The rounds -/

def At (P : Cache → List (Event A) → Prop) : World W → List (Event A) → Prop :=
  fun w log => P w.cache log

theorem triple_call {B : Type} {f : W → Except String B × W} {P : Cache → List (Event A) → Prop}
    {X : List (Event A) → Prop} (h : ∀ cache log, P cache log → X log) :
    Script.Triple (At P) (call f) (fun _ => At P) (fun _ => X) := by
  intro w before hw
  have htrace : before ++ (call (A := A) f w).trace = before := List.append_nil before
  rw [htrace]
  split
  · exact hw
  · exact h _ _ hw

/-- Between two calls. -/
structure Between (sha256 : String → String) (cfg : RevisionConfig) (st : Stage) (initial : Cache)
    (opened : ℕ) (cache : Cache) (log : List (Event A)) : Prop where
  fair : Fair sha256 cfg st initial log
  settled : Settled sha256 cfg st initial cache (asks log)
  opened : gates log = opened

/-- Before a call. -/
structure Ready (sha256 : String → String) (cfg : RevisionConfig) (st : Stage) (initial : Cache)
    (guidance correction : Option String) (opened : ℕ) (cache : Cache) (log : List (Event A)) : Prop
    extends Between sha256 cfg st initial opened cache log where
  told : told st log = (guidance, correction)
  grounded : st.codebase = none → correction = none
  after : log = [] ∨ ∃ earlier e, log = earlier ++ [e] ∧ e.rejects = true

/-- What an error leaves. -/
def Broken (sha256 : String → String) (cfg : RevisionConfig) (st : Stage) (initial : Cache)
    (opened : ℕ) (log : List (Event A)) : Prop :=
  Fair sha256 cfg st initial log ∧ gates log = opened

/-- After a call, in the same round. -/
structure Answered (sha256 : String → String) (cfg : RevisionConfig) (st : Stage) (initial : Cache)
    (guidance correction : Option String) (opened : ℕ) (cache : Cache) (log : List (Event A)) : Prop
    extends Between sha256 cfg st initial opened cache log where
  told : told st log = (guidance, correction)

theorem gates_append (log : List (Event A)) (e : Event A) : gates (log ++ [e]) =
    gates log + match e with
      | .decided _ _ => 1
      | _ => 0 := by
  rw [gates, List.countP_append]
  cases e <;> rfl

section Call

variable {guidance correction : Option String} {opened : ℕ} {cache : Cache} {log : List (Event A)}

theorem Ready.asked (h : Ready sha256 cfg st initial guidance correction opened cache log)
    {served : Bool}
    (hserved : served = true ↔
      Known sha256 cfg st initial (asks log) (st.cacheKey guidance correction)) :
    Broken sha256 cfg st initial opened (log ++ [.asked
      { guidance, correction, input := st.cacheKey guidance correction
        prompt := st.prompt guidance correction, served }]) := by
  refine ⟨h.fair.append fun a ha => ?_, ?_⟩
  · cases ha
    exact ⟨h.told.symm, h.grounded, rfl, rfl, hserved, h.after⟩
  · rw [gates_append]
    exact h.opened

theorem told_append (log : List (Event A)) (e : Event A) :
    told st (log ++ [e]) = tell st (told st log) e :=
  List.foldl_concat _ _ _ _

theorem triple_cachedStage :
    Script.Triple (At (W := W) (Ready sha256 cfg st initial guidance correction opened))
      (cachedStage sha256 services cfg st guidance correction)
      (fun _ => At (Answered sha256 cfg st initial guidance correction opened))
      (fun _ => Broken sha256 cfg st initial opened) := by
  rw [cachedStage]
  refine Script.triple_ite (fun hmemo => ?_) fun hmemo => ?_
  · refine Script.Triple.bind (triple_call fun cache log h => ⟨h.fair, h.opened⟩) fun _ => ?_
    refine Script.Triple.bind (Q := fun cached => At fun cache log =>
      Ready sha256 cfg st initial guidance correction opened cache log ∧
        cached = cache.get (memoKey sha256 cfg st (st.cacheKey guidance correction)))
      (Script.triple_look fun w log h => ⟨h, rfl⟩)
      fun cached => ?_
    cases cached with
    | some payload =>
      refine Script.Triple.bind
        (Q := fun _ => At (Answered sha256 cfg st initial guidance correction opened))
        (Script.triple_tell fun w log h => ?_)
        fun _ => triple_call fun cache log h => ⟨h.fair, h.opened⟩
      obtain ⟨hready, hhit⟩ := h
      have hheld :
          w.cache.get (memoKey sha256 cfg st (st.cacheKey guidance correction)) ≠ none := by
        rw [← hhit]
        exact Option.some_ne_none _
      have hknown := (hready.settled hmemo _).mp hheld
      obtain ⟨hfair, hopened⟩ := hready.asked (iff_of_true rfl ⟨hmemo, hknown⟩)
      refine ⟨⟨hfair, ?_, hopened⟩, (told_append _ _).trans hready.told⟩
      rw [asks_append_asked]
      exact hready.settled.served hheld
    | none =>
      -- until the result is kept, the key of the call is not in the cache
      refine Script.Triple.bind (Q := fun _ => At fun cache log =>
        (Broken sha256 cfg st initial opened log ∧ told st log = (guidance, correction)) ∧
          ∃ earlier a, asks log = earlier ++ [a] ∧ a.input = st.cacheKey guidance correction ∧
            Settled sha256 cfg st initial cache earlier)
        (Script.triple_tell fun w log h => ?_)
        fun _ => ?_
      · obtain ⟨hready, hmiss⟩ := h
        refine ⟨⟨hready.asked ?_, (told_append _ _).trans hready.told⟩, asks log, _,
          asks_append_asked _ _, rfl, hready.settled⟩
        refine iff_of_false Bool.false_ne_true fun hknown => ?_
        exact (hready.settled hmemo _).mpr hknown.2 hmiss.symm
      · refine Script.Triple.bind (triple_call fun _ _ h => h.1.1) fun result => ?_
        refine Script.Triple.bind (triple_call fun _ _ h => h.1.1) fun _ => ?_
        refine Script.Triple.bind
          (Q := fun _ => At (Answered sha256 cfg st initial guidance correction opened))
          (Script.triple_update fun w log h => ?_)
          fun _ => Script.triple_pure fun _ _ h => h
        obtain ⟨⟨⟨hfair, hopened⟩, htold⟩, earlier, a, hasks, hinput, hsettled⟩ := h
        refine ⟨⟨hfair, ?_, hopened⟩, htold⟩
        rw [hasks, ← hinput]
        exact hsettled.put
  · refine Script.Triple.bind
      (Q := fun _ => At (Answered sha256 cfg st initial guidance correction opened))
      (Script.triple_tell fun w log h => ?_)
      fun _ => triple_call fun cache log h => ⟨h.fair, h.opened⟩
    obtain ⟨hfair, hopened⟩ := h.asked (iff_of_false Bool.false_ne_true fun hknown =>
      hmemo hknown.1)
    exact ⟨⟨hfair, fun h => absurd h hmemo, hopened⟩, (told_append _ _).trans h.told⟩

end Call

theorem Between.append {opened : ℕ} {cache : Cache} {log : List (Event A)}
    (h : Between sha256 cfg st initial opened cache log) {e : Event A} (hask : e.ask? = none)
    {after : ℕ} (hafter : gates (log ++ [e]) = after) :
    Between sha256 cfg st initial after cache (log ++ [e]) := by
  refine ⟨h.fair.append fun a ha => ?_, ?_, hafter⟩
  · rw [ha] at hask
    exact nomatch hask
  · have hasks : asks (log ++ [e]) = asks log := by
      rw [asks, List.filterMap_append, List.filterMap_cons_none hask, List.filterMap_nil,
        List.append_nil, asks]
    rw [hasks]
    exact h.settled

/-- **A round of the producer**, with the retries of the delta. -/
theorem triple_produceFrom (guidance : Option String) (opened retries : ℕ)
    (correction : Option String) :
    Script.Triple (At (W := W) (Ready sha256 cfg st initial guidance correction opened))
      (produceFrom sha256 services cfg st guidance retries correction)
      (fun _ => At (Between sha256 cfg st initial opened))
      (fun _ => Broken sha256 cfg st initial opened) := by
  induction retries generalizing correction with
  | zero =>
    rw [produceFrom]
    refine triple_cachedStage.bind fun arch => ?_
    cases hcodebase : st.codebase with
    | none => exact Script.triple_pure fun _ _ h => h.toBetween
    | some commitSha =>
      refine Script.Triple.bind (triple_call fun _ _ h => ⟨h.fair, h.opened⟩) fun check => ?_
      refine Script.Triple.bind (Q := fun _ => At (Between sha256 cfg st initial opened))
        (Script.triple_tell fun w log h => ?_) fun _ => ?_
      · exact h.toBetween.append rfl ((gates_append _ _).trans h.opened)
      · refine Script.triple_ite (fun _ => Script.triple_pure fun _ _ h => h) fun _ => ?_
        exact Script.triple_throw fun _ _ h => ⟨h.fair, h.opened⟩
  | succ retries ih =>
    rw [produceFrom]
    refine triple_cachedStage.bind fun arch => ?_
    cases hcodebase : st.codebase with
    | none => exact Script.triple_pure fun _ _ h => h.toBetween
    | some commitSha =>
      refine Script.Triple.bind (triple_call fun _ _ h => ⟨h.fair, h.opened⟩) fun check => ?_
      refine Script.Triple.bind (Q := fun _ => At fun cache log =>
        Between sha256 cfg st initial opened cache log ∧ (check.passed = false →
          Ready sha256 cfg st initial guidance (some (deltaGuidance commitSha check.detail)) opened
            cache log))
        (Script.triple_tell fun w log h => ?_) fun _ => ?_
      · have hbetween := h.toBetween.append (e := .checked check) rfl
          ((gates_append _ _).trans h.opened)
        refine ⟨hbetween, fun hfailed => ⟨hbetween, ?_, ?_, ?_⟩⟩
        · rw [told_append, h.told, tell, if_neg (by rw [hfailed]; exact Bool.false_ne_true),
            hcodebase]
          rfl
        · rw [hcodebase]
          exact nofun
        · refine .inr ⟨log, _, rfl, ?_⟩
          rw [Event.rejects, hfailed]
          rfl
      · refine Script.triple_ite (fun _ => Script.triple_pure fun _ _ h => h.1) fun hfailed => ?_
        refine (ih _).weaken (fun _ _ h => h.2 ?_) (fun _ _ _ h => h) fun _ _ h => h
        exact Bool.eq_false_of_not_eq_true hfailed

/-- What a run of the rounds leaves. -/
structure Closed (sha256 : String → String) (cfg : RevisionConfig) (st : Stage) (initial : Cache)
    (bound : ℕ) (log : List (Event A)) : Prop where
  fair : Fair sha256 cfg st initial log
  gates : gates log ≤ bound

/-- **The rounds of the gate.** -/
theorem triple_revisableFrom (left round : ℕ) (guidance : Option String) (opened : ℕ) :
    Script.Triple (At (W := W) (Ready sha256 cfg st initial guidance none opened))
      (revisableFrom sha256 fixed services cfg st left round guidance)
      (fun r _ log => Closed sha256 cfg st initial (opened + left + 1) log ∧
        ∃ before, log = before ++ [.decided r.1 r.2])
      (fun _ => Closed sha256 cfg st initial (opened + left + 1)) := by
  induction left generalizing round guidance opened with
  | zero =>
    rw [revisableFrom]
    have hbroken : ∀ log : List (Event A), Broken sha256 cfg st initial opened log →
        Closed sha256 cfg st initial (opened + 0 + 1) log := fun log h =>
      ⟨h.1, by rw [h.2]; omega⟩
    refine Script.Triple.bind ((triple_produceFrom guidance opened _ none).weaken
      (fun _ _ h => h) (fun _ _ _ h => h) fun _ log h => hbroken log h) fun artifact => ?_
    refine Script.Triple.bind (triple_call fun _ log h => hbroken log ⟨h.fair, h.opened⟩)
      fun decision => ?_
    refine Script.Triple.bind (Q := fun _ => fun _ log =>
      Closed sha256 cfg st initial (opened + 0 + 1) log ∧
        ∃ before, log = before ++ [.decided artifact decision])
      (Script.triple_tell fun w log h => ?_) fun _ => Script.triple_pure fun _ _ h => h
    refine ⟨⟨h.fair.append nofun, ?_⟩, log, rfl⟩
    rw [gates_append, h.opened]
    show opened + 1 ≤ opened + 0 + 1
    omega
  | succ left ih =>
    rw [revisableFrom]
    have hbroken : ∀ log : List (Event A), Broken sha256 cfg st initial opened log →
        Closed sha256 cfg st initial (opened + (left + 1) + 1) log := fun log h =>
      ⟨h.1, by rw [h.2]; omega⟩
    refine Script.Triple.bind ((triple_produceFrom guidance opened _ none).weaken
      (fun _ _ h => h) (fun _ _ _ h => h) fun _ log h => hbroken log h) fun artifact => ?_
    have hauto : Script.Triple (At (W := W) (Between sha256 cfg st initial opened))
        (automatic fixed services cfg st (services.confidence artifact))
        (fun _ => At (Between sha256 cfg st initial opened))
        (fun _ => Closed sha256 cfg st initial (opened + (left + 1) + 1)) := by
      rw [automatic]
      refine Script.triple_ite (fun _ => ?_) fun _ => Script.triple_pure fun _ _ h => h
      exact Script.Triple.bind (triple_call fun _ log h => hbroken log ⟨h.fair, h.opened⟩)
        fun _ => Script.triple_pure fun _ _ h => h
    refine hauto.bind fun auto => ?_
    refine Script.Triple.bind (triple_call fun _ log h => hbroken log ⟨h.fair, h.opened⟩)
      fun decision => ?_
    refine Script.Triple.bind (Q := fun _ => At fun cache log =>
      (Closed sha256 cfg st initial (opened + (left + 1) + 1) log ∧
        ∃ before, log = before ++ [.decided artifact decision]) ∧
      (decision.outcome = .revise → Ready sha256 cfg st initial
        (textOr decision.guidance decision.comments) none (opened + 1) cache log))
      (Script.triple_tell fun w log h => ?_) fun _ => ?_
    · have hbetween := Between.append h (e := .decided artifact decision) rfl
        ((gates_append _ _).trans (congrArg (· + 1) h.opened))
      refine ⟨⟨⟨hbetween.fair, ?_⟩, log, rfl⟩, fun hrevise => ⟨hbetween, ?_, fun _ => rfl, ?_⟩⟩
      · rw [hbetween.opened]
        omega
      · rw [told_append, tell, if_pos hrevise]
      · exact .inr ⟨log, _, rfl, decide_eq_true hrevise⟩
    · refine Script.triple_ite (fun _ => Script.triple_pure fun _ _ h => h.1) fun hrevise => ?_
      have hbound : opened + 1 + left + 1 = opened + (left + 1) + 1 := by omega
      have hrest := ih (round + 1) (textOr decision.guidance decision.comments) (opened + 1)
      rw [hbound] at hrest
      exact hrest.weaken (fun _ _ h => h.2 (not_not.mp hrevise)) (fun _ _ _ h => h) fun _ _ h => h

theorem triple_revisableStage :
    Script.Triple (At (W := W) (Ready sha256 cfg st initial none none 0))
      (revisableStage sha256 fixed services cfg st)
      (fun r _ log => Closed sha256 cfg st initial (cfg.maxGateRounds + 1) log ∧
        ∃ before, log = before ++ [.decided r.1 r.2])
      (fun _ => Closed sha256 cfg st initial (cfg.maxGateRounds + 1)) := by
  have hrounds : 0 + cfg.maxGateRounds + 1 = cfg.maxGateRounds + 1 := by omega
  rw [← hrounds]
  exact triple_revisableFrom cfg.maxGateRounds 1 none 0

/-! ## 6.  What the log shows -/

section Splits

variable {B : Type}

theorem nodup_map_iff {C : Type} {f : B → C} {l : List B} : (l.map f).Nodup ↔
    ∀ before b after, l = before ++ b :: after → f b ∉ before.map f := by
  constructor
  · rintro h before b after rfl hb
    rw [List.map_append, List.map_cons] at h
    exact (List.nodup_append.mp h).2.2 (f b) hb (f b) List.mem_cons_self rfl
  · intro h
    induction l using List.reverseRecOn with
    | nil => exact List.nodup_nil
    | append_singleton l x ih =>
      rw [List.map_append]
      refine List.nodup_append.mpr ⟨ih fun before b after hl => ?_, List.nodup_singleton _, ?_⟩
      · exact h before b (after ++ [x]) (by rw [hl]; simp)
      · rintro y hy z hz rfl
        obtain rfl := List.mem_singleton.mp hz
        exact h l x [] rfl hy

theorem forall_mem_tail_iff {l : List B} {P : B → Prop} : (∀ b ∈ l.tail, P b) ↔
    ∀ before b after, l = before ++ b :: after → before ≠ [] → P b := by
  cases l with
  | nil =>
    refine iff_of_true nofun fun before b after h => ?_
    exact absurd h.symm (List.append_ne_nil_of_right_ne_nil _ (List.cons_ne_nil _ _))
  | cons x l =>
    constructor
    · rintro h before b after hl hne
      cases before with
      | nil => exact absurd rfl hne
      | cons y before =>
        obtain ⟨rfl, rfl⟩ := List.cons.inj hl
        exact h b (List.mem_append_right _ List.mem_cons_self)
    · intro h b hb
      obtain ⟨before, after, hl⟩ := List.append_of_mem hb
      exact h (x :: before) b after (congrArg (x :: ·) hl) (List.cons_ne_nil _ _)

end Splits

variable {log : List (Event A)}

theorem asks_append (l m : List (Event A)) : asks (l ++ m) = asks l ++ asks m :=
  List.filterMap_append

theorem Event.ask?_eq_some {e : Event A} {a : Ask} (h : e.ask? = some a) : e = .asked a := by
  cases e with
  | asked ask =>
    cases h
    rfl
  | checked check => cases h
  | decided artifact decision => cases h

theorem exists_split_of_asks {later : List Ask} {a : Ask} (h : asks log = earlier ++ a :: later) :
    ∃ before after,
      log = before ++ .asked a :: after ∧ asks before = earlier := by
  obtain ⟨l, m, rfl, hl, hm⟩ := List.filterMap_eq_append_iff.mp h
  obtain ⟨between, e, after, rfl, hnone, he, -⟩ := List.filterMap_eq_cons_iff.mp hm
  obtain rfl := Event.ask?_eq_some he
  refine ⟨l ++ between, after, (List.append_assoc _ _ _).symm, ?_⟩
  have hbetween : asks between = [] := List.filterMap_eq_nil_iff.mpr hnone
  rw [asks_append, hbetween, List.append_nil]
  exact hl

theorem served_iff (h : Fair sha256 cfg st initial log) {later : List Ask} {a : Ask}
    (hasks : asks log = earlier ++ a :: later) :
    a.served = true ↔ Known sha256 cfg st initial earlier a.input := by
  obtain ⟨before, after, hlog, rfl⟩ := exists_split_of_asks hasks
  exact (h before a after hlog).served

theorem rejected_of_asked (h : Fair sha256 cfg st initial log) {before rest : List (Event A)}
    {a : Ask} (hlog : log = before ++ .asked a :: rest) (hrest : asks rest ≠ []) :
    rejected rest = true := by
  obtain ⟨b, later, hb⟩ := List.exists_cons_of_ne_nil hrest
  obtain ⟨between, e, after, rfl, hnone, he, -⟩ := List.filterMap_eq_cons_iff.mp hb
  obtain rfl := Event.ask?_eq_some he
  have hright := h (before ++ .asked a :: between) b after (by rw [hlog]; simp)
  rcases hright.after with hnil | ⟨earlier, e, hlast, hrejects⟩
  · exact absurd hnil (List.append_ne_nil_of_right_ne_nil _ (List.cons_ne_nil _ _))
  · -- the event before the next call is not the call itself, so it stands between them
    have hmem : e ∈ between := by
      have hget := congrArg List.getLast? hlast
      rw [List.getLast?_append_of_ne_nil _ (List.cons_ne_nil _ _), List.getLast?_concat,
        List.getLast?_cons] at hget
      cases hbetween : between.getLast? with
      | none =>
        rw [hbetween] at hget
        obtain rfl := Option.some.inj hget
        cases hrejects
      | some x =>
        rw [hbetween] at hget
        obtain rfl := Option.some.inj hget
        exact List.mem_of_getLast? hbetween
    clear hlog hrest hb hright hlast
    induction between with
    | nil => exact nomatch hmem
    | cons x between ih =>
      have hx := hnone x List.mem_cons_self
      have hcons : rejected (x :: (between ++ .asked b :: after)) =
          (x.rejects || rejected (between ++ .asked b :: after)) := by
        cases x with
        | asked ask => cases hx
        | checked check => rfl
        | decided artifact decision => rfl
      rw [List.cons_append, hcons, Bool.or_eq_true]
      rcases List.mem_cons.mp hmem with rfl | hmem
      · exact .inl hrejects
      · exact .inr (ih (fun y hy => hnone y (List.mem_cons_of_mem _ hy)) hmem)

section Keys

variable (hsha : (Set.range Call.payload).InjOn sha256)

include hsha

theorem memoKey_inj {input input' : String} :
    memoKey sha256 cfg st input = memoKey sha256 cfg st input' ↔ input = input' := by
  refine ⟨fun h => ?_, congrArg _⟩
  have hpayload := payload_eq_of_key_eq hsha h
  have hlist := congrArg String.toList hpayload
  simp only [Call.payload, memoCall, Call.fields, joinWith, String.intercalate_cons_cons,
    String.toList_append, List.append_assoc] at hlist
  have hcut := List.append_cancel_left (List.append_cancel_left hlist)
  exact String.toList_injective (List.append_cancel_right hcut)

theorem known_iff (hmemo : cfg.memoizationEnabled = true) {earlier : List Ask} {input : String} :
    Known sha256 cfg st initial earlier input ↔
      initial.get (memoKey sha256 cfg st input) ≠ none ∨ input ∈ earlier.map Ask.input := by
  rw [Known, and_iff_right hmemo, List.mem_map, List.mem_map]
  refine or_congr_right (exists_congr fun a => and_congr_right fun _ => ?_)
  exact memoKey_inj hsha

/-- **A rejected artifact is never served again** exactly where no two calls have the same input. -/
theorem servedAgain_iff (h : Fair sha256 cfg st initial log) : ¬ServedAgain log ↔
    cfg.memoizationEnabled = false ∨ ((asks log).map Ask.input).Nodup := by
  cases hmemo : cfg.memoizationEnabled with
  | false =>
    refine iff_of_true ?_ (.inl rfl)
    rintro ⟨before, a, rest, middle, b, after, hlog, -, hrest, hserved, -⟩
    have hright := h (before ++ .asked a :: middle) b after (by rw [hlog, hrest]; simp)
    have hknown := hright.served.mp hserved
    rw [Known, hmemo] at hknown
    exact absurd hknown.1 Bool.false_ne_true
  | true =>
    rw [or_iff_right (by decide), nodup_map_iff]
    constructor
    · intro hnever earlier b later hasks hmem
      obtain ⟨a, ha, hinput⟩ := List.mem_map.mp hmem
      obtain ⟨before, after, hlog, hbefore⟩ := exists_split_of_asks hasks
      obtain ⟨l, m, hl⟩ := List.append_of_mem ha
      obtain ⟨first, rest, hfirst, -⟩ := exists_split_of_asks (hbefore.trans hl)
      have hsplit : log = first ++ .asked a :: (rest ++ .asked b :: after) := by
        rw [hlog, hfirst]
        simp
      have hserved : b.served = true :=
        (served_iff h hasks).mpr ((known_iff hsha hmemo).mpr (.inr hmem))
      refine hnever ⟨first, a, _, rest, b, after, hsplit, ?_, rfl, hserved, hinput.symm⟩
      refine rejected_of_asked h hsplit ?_
      rw [asks_append]
      exact List.append_ne_nil_of_right_ne_nil _ (List.cons_ne_nil _ _)
    · rintro hnodup ⟨before, a, rest, middle, b, after, hlog, -, hrest, -, hinput⟩
      have hasks : asks log = (asks before ++ a :: asks middle) ++ b :: asks after := by
        rw [hlog, hrest, asks_append, List.append_assoc]
        exact congrArg _ (congrArg _ (asks_append _ _))
      refine hnodup _ _ _ hasks ?_
      rw [hinput]
      exact List.mem_map_of_mem (List.mem_append_right _ List.mem_cons_self)

/-- **The producer is called anew** exactly where, besides, the cache has no entry for a later call
from before the run. -/
theorem called_iff (h : Fair sha256 cfg st initial log) :
    (∀ a ∈ (asks log).tail, a.served = false) ↔ cfg.memoizationEnabled = false ∨
      ((asks log).map Ask.input).Nodup ∧
        ∀ a ∈ (asks log).tail, initial.get (memoKey sha256 cfg st a.input) = none := by
  rw [forall_mem_tail_iff, forall_mem_tail_iff, nodup_map_iff]
  have hcalled : ∀ earlier a later, asks log = earlier ++ a :: later →
      (a.served = false ↔ ¬Known sha256 cfg st initial earlier a.input) := by
    intro earlier a later hasks
    rw [← served_iff h hasks, Bool.not_eq_true]
  cases hmemo : cfg.memoizationEnabled with
  | false =>
    refine iff_of_true (fun earlier a later hasks _ => ?_) (.inl rfl)
    refine (hcalled _ _ _ hasks).mpr fun hknown => ?_
    exact absurd (hmemo.symm.trans hknown.1) (by decide)
  | true =>
    rw [or_iff_right (by decide)]
    constructor
    · intro hnew
      refine ⟨fun earlier a later hasks hmem => ?_, fun earlier a later hasks hne => ?_⟩
      · have hne : earlier ≠ [] := fun hnil => by
          rw [hnil] at hmem
          exact nomatch hmem
        refine (hcalled _ _ _ hasks).mp (hnew _ _ _ hasks hne) ?_
        exact (known_iff hsha hmemo).mpr (.inr hmem)
      · by_contra hheld
        refine (hcalled _ _ _ hasks).mp (hnew _ _ _ hasks hne) ?_
        exact (known_iff hsha hmemo).mpr (.inl hheld)
    · rintro ⟨hnodup, hempty⟩ earlier a later hasks hne
      refine (hcalled _ _ _ hasks).mpr fun hknown => ?_
      rcases (known_iff hsha hmemo).mp hknown with hheld | hmem
      · exact hheld (hempty _ _ _ hasks hne)
      · exact hnodup _ _ _ hasks hmem

end Keys

end Proof

/-! ## 7.  A reviewer who revises -/

/-- Drafts are numbered, and every one is sent back with the guidance of its round. -/
def drafts (guidance : ℕ → Option String) : Services String ℕ where
  dump := id
  validate := .ok
  confidence _ := none
  specSummary := id
  runRole _ n := (.ok ("draft " ++ toString n), n + 1)
  cacheActivity n := (.ok (), n)
  checkBrownfieldDelta _ n := (.ok ⟨true, ""⟩, n)
  calibrationVerdict n := ({ verdict := .insufficientData }, n)
  gate q _ n :=
    (.ok
      { gate := q.name
        round := q.round
        outcome := .revise
        decidedBy := .human
        guidance := guidance q.round }, n)

/-- The run of the plan stage, on an empty cache. -/
def planned (guidance : ℕ → Option String) : Script.Outcome (World ℕ) (Event String) String
    (String × GateDecision) :=
  revisableStage id (fun _ => "") (drafts guidance) { promptSha := "p", resolvedModel := "m" }
    (plan "{}" []) ⟨∅, 0⟩

end Kroker.Revision
