import Kroker.Core.PyValue
import Kroker.Harness.Session

/-!
# The stream of a harness

What the adapters of `harness/` share that read the standard output of a coding agent: one JSON value on
a line, of which the objects are the events.  Nothing is known of the events but that `json.loads` made
them.

`StreamEnv` has what is not of the program: `json`, the numeric fields of `pydantic`, `str.lower` and
`sha256`.  A field of text takes what can be encoded.

## 1.  The records, and how they are made

Each constructor checks its fields; `returns_harnessRunResult` and its like say when it does not raise.

## 2.  The helpers

`_split_reason` of `harness/base.py`, `target_of` and `digest_tool_input` of `harness/containment.py`, and
`scrub` of `memory/scrub.py`.

## 3.  The loop over the lines

Each reader has a loop of its own.  Where it passes over what is not an object, it returns exactly if
no line makes `json.loads` raise (`returns_guarded`); where it does not, exactly if every line that is
JSON is an object (`returns_unguarded`).
-/

namespace Kroker.Stream

open PyValue hiding none

variable {N F σ : Type} [PyNumber N]

/-- What `json.loads` does with a text: `malformed` is `json.JSONDecodeError`, and of the rest that it
raises there is an integer of too many digits, and nesting that is too deep. -/
inductive Loaded (N : Type) where
  | value (v : PyValue N)
  | malformed
  | raises (e : PyError)

structure StreamEnv (N F : Type) where
  loads : PyStr → Loaded N
  loads_nil : loads [] = .malformed
  /-- An `int` field, for a value that is not `None`. -/
  intField : PyValue N → Option ℤ
  /-- A `float` field, for a value that is not `None`. -/
  floatField : PyValue N → Option F
  lower : PyStr → PyStr
  /-- `json.dumps(v)`. -/
  dumps : PyValue N → Option PyStr
  /-- `json.dumps(v, sort_keys=True, separators=(",", ":"), ensure_ascii=False)`. -/
  canonical : PyValue N → Option PyStr
  sha256 : String → String

/-! ## 1.  The records, and how they are made -/

/-- `HarnessRunResult`, as `parse` fills it. -/
structure HarnessRunResult (F : Type) where
  harness : HarnessKind
  sessionId : Option String
  exitCode : ℤ
  summary : String
  costUsd : Option F
  inputTokens : Option ℤ
  outputTokens : Option ℤ

structure HarnessSession (F : Type) where
  harness : HarnessKind
  sessionId : Option String
  model : Option String := none
  events : List SessionEvent
  inputTokens : Option ℤ
  outputTokens : Option ℤ
  costUsd : Option F

/-- A denial; its layer is always `hook`. -/
structure ToolDenial where
  tool : String
  ruleId : String
  reason : String
  target : Option String
  escalationDeclined : Bool

structure DeferredToolUse where
  toolUseId : String
  tool : String
  inputDigest : String
  ruleId : String
  reason : String
  target : Option String

/-- What both readers report. -/
structure Report (F : Type) where
  sessionId : Option String
  inputTokens : Option ℤ
  outputTokens : Option ℤ
  costUsd : Option F
  deriving DecidableEq

def HarnessRunResult.report (r : HarnessRunResult F) : Report F :=
  ⟨r.sessionId, r.inputTokens, r.outputTokens, r.costUsd⟩

def HarnessSession.report (s : HarnessSession F) : Report F :=
  ⟨s.sessionId, s.inputTokens, s.outputTokens, s.costUsd⟩

def summaryMax : ℕ := 4000

/-- A field of numbers that may be `None`. -/
def numberField {α : Type} (read : PyValue N → Option α) (v : PyValue N) :
    Except PyError (Option α) :=
  match v with
  | .none => .ok none
  | v => match read v with
    | some a => .ok (some a)
    | none => .error .validation

/-- What such a field makes of the value. -/
def readNumber {α : Type} (read : PyValue N → Option α) (v : PyValue N) : Option α :=
  match v with
  | .none => none
  | v => read v

def takesNumber {α : Type} (read : PyValue N → Option α) (v : PyValue N) : Bool :=
  match v with
  | .none => true
  | v => (read v).isSome

omit [PyNumber N] in
theorem returns_numberField {α : Type} (read : PyValue N → Option α) (v : PyValue N) :
    Returns (numberField read v) (takesNumber read v = true) (readNumber read v) := by
  have hread : ∀ v : PyValue N, Returns (match read v with
      | some a => Except.ok (some a)
      | none => .error PyError.validation) ((read v).isSome = true) (read v) := by
    intro v
    cases read v with
    | none => exact Returns.raises rfl Bool.false_ne_true
    | some a => exact (Returns.pure (some a)).congr (iff_of_true trivial rfl) fun _ => rfl
  cases v with
  | none => exact (Returns.pure none).congr (iff_of_true trivial rfl) fun _ => rfl
  | _ => exact hread _

/-- `HarnessRunResult(...)`. -/
def harnessRunResult (env : StreamEnv N F) (harness : HarnessKind) (sessionId : PyValue N)
    (exitCode : ℤ) (summary cost inputTokens outputTokens : PyValue N) :
    Except PyError (HarnessRunResult F) := do
  let sessionId ← optionalField strField sessionId
  let summary ← strField summary
  let costUsd ← numberField env.floatField cost
  let inputTokens ← numberField env.intField inputTokens
  let outputTokens ← numberField env.intField outputTokens
  return { harness, sessionId, exitCode, summary, costUsd, inputTokens, outputTokens }

/-- The fields of a report can be filled with these. -/
structure Reportable (env : StreamEnv N F) (sessionId cost inputTokens outputTokens : PyValue N) :
    Prop where
  sessionId : sessionId.isOptionalStr = true
  cost : takesNumber env.floatField cost = true
  inputTokens : takesNumber env.intField inputTokens = true
  outputTokens : takesNumber env.intField outputTokens = true

omit [PyNumber N] in
theorem returns_harnessRunResult (env : StreamEnv N F) (harness : HarnessKind)
    (sessionId : PyValue N) (exitCode : ℤ) (summary cost inputTokens outputTokens : PyValue N) :
    Returns (harnessRunResult env harness sessionId exitCode summary cost inputTokens outputTokens)
      (summary.isStr = true ∧ Reportable env sessionId cost inputTokens outputTokens)
      { harness, exitCode, sessionId := sessionId.text?.map decode
        summary := decode (summary.text?.getD [])
        costUsd := readNumber env.floatField cost
        inputTokens := readNumber env.intField inputTokens
        outputTokens := readNumber env.intField outputTokens } := by
  refine Returns.congr (.bind (returns_optionalStr sessionId) (.bind (returns_strField summary)
    (.bind (returns_numberField env.floatField cost) (.bind (returns_numberField env.intField
      inputTokens) (.bind (returns_numberField env.intField outputTokens) (.pure _)))))) ?_
    fun _ => rfl
  constructor
  · rintro ⟨hid, hsummary, hcost, hinput, houtput, -⟩
    exact ⟨hsummary, hid, hcost, hinput, houtput⟩
  · rintro ⟨hsummary, hid, hcost, hinput, houtput⟩
    exact ⟨hid, hsummary, hcost, hinput, houtput, trivial⟩

/-- `HarnessSession(...)`. -/
def harnessSession (env : StreamEnv N F) (harness : HarnessKind) (sessionId model : PyValue N)
    (events : List SessionEvent) (inputTokens outputTokens cost : PyValue N) :
    Except PyError (HarnessSession F) := do
  let sessionId ← optionalField strField sessionId
  let model ← optionalField strField model
  let inputTokens ← numberField env.intField inputTokens
  let outputTokens ← numberField env.intField outputTokens
  let costUsd ← numberField env.floatField cost
  return { harness, sessionId, model, events, inputTokens, outputTokens, costUsd }

omit [PyNumber N] in
theorem returns_harnessSession (env : StreamEnv N F) (harness : HarnessKind)
    (sessionId model : PyValue N) (events : List SessionEvent)
    (inputTokens outputTokens cost : PyValue N) :
    Returns (harnessSession env harness sessionId model events inputTokens outputTokens cost)
      (model.isOptionalStr = true ∧ Reportable env sessionId cost inputTokens outputTokens)
      { harness, events, sessionId := sessionId.text?.map decode, model := model.text?.map decode
        inputTokens := readNumber env.intField inputTokens
        outputTokens := readNumber env.intField outputTokens
        costUsd := readNumber env.floatField cost } := by
  refine Returns.congr (.bind (returns_optionalStr sessionId) (.bind (returns_optionalStr model)
    (.bind (returns_numberField env.intField inputTokens) (.bind (returns_numberField env.intField
      outputTokens) (.bind (returns_numberField env.floatField cost) (.pure _)))))) ?_
    fun _ => rfl
  constructor
  · rintro ⟨hid, hmodel, hinput, houtput, hcost, -⟩
    exact ⟨hmodel, hid, hcost, hinput, houtput⟩
  · rintro ⟨hmodel, hid, hcost, hinput, houtput⟩
    exact ⟨hid, hmodel, hinput, houtput, hcost, trivial⟩

/-- `SessionEvent(...)`. -/
def sessionEvent (kind : String) (tool target text : PyValue N) (exitCode : Option ℤ) :
    Except PyError SessionEvent := do
  let tool ← optionalField strField tool
  let target ← optionalField strField target
  let text ← optionalField strField text
  return { kind, tool, target, exitCode, text }

/-- The event with these fields. -/
def eventOf (kind : String) (tool target text : PyValue N) (exitCode : Option ℤ) : SessionEvent :=
  { kind, tool := tool.text?.map decode, target := target.text?.map decode, exitCode
    text := text.text?.map decode }

omit [PyNumber N] in
theorem returns_sessionEvent (kind : String) (tool target text : PyValue N) (exitCode : Option ℤ) :
    Returns (sessionEvent kind tool target text exitCode)
      (tool.isOptionalStr = true ∧ target.isOptionalStr = true ∧ text.isOptionalStr = true)
      (eventOf kind tool target text exitCode) := by
  refine Returns.congr (.bind (returns_optionalStr tool) (.bind (returns_optionalStr target)
    (.bind (returns_optionalStr text) (.pure _)))) ?_ fun _ => rfl
  rw [and_true]

/-- `v[:n]`. -/
def sliceTo (n : ℕ) (v : PyValue N) : Except PyError (PyValue N) :=
  match v with
  | .text s => .ok (.text (s.take n))
  | .list items => .ok (.list (items.take n))
  | .dict _ => .error .key
  | _ => .error .type

/-- The value is a text, and its first `n` characters can be encoded. -/
def clips (n : ℕ) (v : PyValue N) : Bool := v.text?.any fun s => encodable (s.take n)

/-- The first `n` characters of a text. -/
def clip (n : ℕ) (v : PyValue N) : PyValue N := .text ((v.text?.getD []).take n)

omit [PyNumber N] in
/-- **An event with a slice of a value** for its text is made of a text alone. -/
theorem returns_sliced (kind : String) (n : ℕ) (v tool target : PyValue N) (exitCode : Option ℤ)
    (ht : tool.isOptionalStr = true) (hg : target.isOptionalStr = true) :
    Returns (sliceTo n v >>= fun text => sessionEvent kind tool target text exitCode)
      (clips n v = true) (eventOf kind tool target (clip n v) exitCode) := by
  have hmade := fun text => returns_sessionEvent kind tool target text exitCode
  cases v with
  | text s =>
    refine ((Returns.pure (PyValue.text (s.take n))).bind (hmade _)).congr ?_ fun _ => rfl
    exact ⟨fun h => h.2.2.2, fun h => ⟨trivial, ht, hg, h⟩⟩
  | list items =>
    refine ((Returns.pure (PyValue.list (items.take n))).bind (hmade _)).congr ?_
      fun h => absurd h.2.2.2 Bool.false_ne_true
    exact iff_of_false (fun h => absurd h.2.2.2 Bool.false_ne_true) Bool.false_ne_true
  | _ => exact Returns.raises rfl Bool.false_ne_true

/-! ## 2.  The helpers -/

/-- What stands before the first `sep` and after it, or the whole text. -/
def partition (sep : PyStr) : PyStr → PyStr × PyStr
  | [] => ([], [])
  | c :: cs =>
    if sep.isPrefixOf (c :: cs) then ([], (c :: cs).drop sep.length)
    else (c :: (partition sep cs).1, (partition sep cs).2)

/-- `_split_reason`, of a text. -/
def splitReason (text : PyStr) : PyStr × PyStr :=
  if (pyStr "[").isPrefixOf text ∧ ∃ rest ∈ text.tails, (pyStr "] ").isPrefixOf rest then
    partition (pyStr "] ") (text.drop 1)
  else (pyStr "unknown", text)

/-- `_split_reason`, of any value: only a text has `startswith`. -/
def splitReasonOf (reason : PyValue N) : Except PyError (PyStr × PyStr) :=
  match reason with
  | .text s => .ok (splitReason s)
  | _ => .error .attribute

def isDeclinedReason (text : PyStr) : Bool := (pyStr "escalation unavailable").isPrefixOf text

/-- `isinstance(v, str) and v`. -/
def isFullText (v : PyValue N) : Bool := v.text?.any (· ≠ [])

def targetKeys : List String := ["file_path", "path", "notebook_path", "command", "url"]

/-- The loop of `target_of`. -/
def targetIn (toolInput : PyValue N) : List String → Except PyError (PyValue N)
  | [] => .ok .none
  | key :: keys => do
    let val ← toolInput.get key
    if isFullText val then return val
    targetIn toolInput keys

def targetOf (toolInput : PyValue N) : Except PyError (PyValue N) := targetIn toolInput targetKeys

/-- The first text that is not empty under one of the keys. -/
def target (toolInput : PyValue N) : PyValue N :=
  ((targetKeys.map toolInput.field).find? isFullText).getD .none

omit [PyNumber N] in
theorem returns_targetOf (toolInput : PyValue N) :
    Returns (targetOf toolInput) (toolInput.isDict = true) (target toolInput) := by
  have hkeys : ∀ keys : List String, toolInput.isDict = true →
      targetIn toolInput keys = .ok (((keys.map toolInput.field).find? isFullText).getD .none) := by
    intro keys hdict
    induction keys with
    | nil => rfl
    | cons key keys ih =>
      rw [targetIn, (returns_get toolInput key).eq_ok hdict, List.map_cons, List.find?_cons]
      change (if isFullText (toolInput.field key) = true then _ else _) = _
      by_cases h : isFullText (toolInput.field key) = true
      · rw [if_pos h, h]
        rfl
      · rw [if_neg h, Bool.eq_false_iff.mpr h, ih]
  by_cases hdict : toolInput.isDict = true
  · rw [targetOf, hkeys targetKeys hdict]
    exact (Returns.pure _).congr (iff_of_true trivial hdict) fun _ => rfl
  · refine Returns.raises ?_ hdict (e := .attribute)
    rw [targetOf, targetKeys, targetIn, get_of_not_isDict hdict]
    rfl

def digestToolInput (env : StreamEnv N F) (toolInput : PyValue N) : Except PyError String :=
  match env.canonical toolInput with
  | some s => if encodable s then .ok (env.sha256 (decode s)) else .error .unicode
  | none => .error .recursion

def digests (env : StreamEnv N F) (toolInput : PyValue N) : Bool :=
  (env.canonical toolInput).any encodable

def digestOf (env : StreamEnv N F) (toolInput : PyValue N) : String :=
  env.sha256 (decode ((env.canonical toolInput).getD []))

omit [PyNumber N] in
theorem returns_digestToolInput (env : StreamEnv N F) (toolInput : PyValue N) :
    Returns (digestToolInput env toolInput) (digests env toolInput = true)
      (digestOf env toolInput) := by
  rw [digestToolInput, digests, digestOf]
  cases env.canonical toolInput with
  | none => exact Returns.raises rfl Bool.false_ne_true
  | some s =>
    dsimp only
    by_cases h : encodable s = true
    · rw [if_pos h]
      exact (Returns.pure _).congr (iff_of_true trivial h) fun _ => rfl
    · rw [if_neg h]
      exact Returns.raises rfl h

/-! ### Scrubbing -/

/-- `re.sub`, of a pattern that matches no empty text: `match?` is the length of the match at the start
of a text and what stands for it, and the first characters belong to the last match. -/
def substitute (match? : PyStr → Option (ℕ × PyStr)) : ℕ → PyStr → PyStr
  | _, [] => []
  | skip + 1, _ :: cs => substitute match? skip cs
  | 0, c :: cs => match match? (c :: cs) with
    | some (length, replacement) => replacement ++ substitute match? (length - 1) cs
    | none => c :: substitute match? 0 cs

/-- The code point is between two characters. -/
def within (first last : Char) (c : ℕ) : Bool := first.toNat ≤ c && c ≤ last.toNat

def isUpper : ℕ → Bool := within 'A' 'Z'

def isLetter (c : ℕ) : Bool := isUpper c || within 'a' 'z' c

def isDigit : ℕ → Bool := within '0' '9'

/-- `sk-[A-Za-z0-9]{20,}`. -/
def apiKey (text : PyStr) : Option (ℕ × PyStr) :=
  let run := (text.drop 3).takeWhile fun c => isLetter c || isDigit c
  if (pyStr "sk-").isPrefixOf text ∧ 20 ≤ run.length then
    some (3 + run.length, pyStr "[REDACTED_API_KEY]")
  else none

/-- `AKIA[0-9A-Z]{16}`. -/
def awsKey (text : PyStr) : Option (ℕ × PyStr) :=
  let run := (text.drop 4).take 16
  if (pyStr "AKIA").isPrefixOf text ∧ run.length = 16 ∧ run.all (fun c => isDigit c || isUpper c) then
    some (20, pyStr "[REDACTED_AWS_KEY]")
  else none

/-- `[A-Za-z0-9._%+-]+@[A-Za-z0-9.-]+\.[A-Za-z]{2,}`: of the dots in the domain that two letters follow
the last is taken. -/
def emailAddress (text : PyStr) : Option (ℕ × PyStr) :=
  let name := text.takeWhile fun c => isLetter c || isDigit c || (pyStr "._%+-").contains c
  let afterName := text.drop name.length
  let domain := (afterName.drop 1).takeWhile fun c => isLetter c || isDigit c || (pyStr ".-").contains c
  let letters := fun dot => (domain.drop (dot + 1)).takeWhile isLetter
  if name ≠ [] ∧ (pyStr "@").isPrefixOf afterName then
    ((List.range domain.length).reverse.find? fun dot =>
      1 ≤ dot && domain[dot]? = some '.'.toNat && 2 ≤ (letters dot).length).map fun dot =>
        (name.length + 1 + (dot + 1) + (letters dot).length, pyStr "[REDACTED_EMAIL]")
  else none

/-- Two code points are the same letter where case is ignored; the long `s` and the sign of the kelvin
are letters too. -/
def sameLetter (letter c : ℕ) : Bool :=
  c = letter || (isUpper c && c + 32 = letter) || (letter = 's'.toNat && c = 0x17F) ||
    (letter = 'k'.toNat && c = 0x212A)

def startsWithWord (word text : PyStr) : Bool :=
  word.length ≤ text.length && (word.zip text).all fun p => sameLetter p.1 p.2

/-- `\s`. -/
def isSpaceCode (c : ℕ) : Bool := isSpace (Char.ofNat c)

/-- `(?i)(password|token|secret)\s*[:=]\s*\S+`. -/
def namedSecret (text : PyStr) : Option (ℕ × PyStr) := do
  let word ← [pyStr "password", pyStr "token", pyStr "secret"].find? (startsWithWord · text)
  let afterWord := text.drop word.length
  let before := afterWord.takeWhile isSpaceCode
  let sign ← (afterWord.drop before.length).head?
  guard ((pyStr ":=").contains sign)
  let afterSign := afterWord.drop (before.length + 1)
  let gap := afterSign.takeWhile isSpaceCode
  let value := (afterSign.drop gap.length).takeWhile fun c => !isSpaceCode c
  guard (value ≠ [])
  return (word.length + before.length + 1 + gap.length + value.length,
    text.take word.length ++ pyStr "=[REDACTED]")

def scrub (text : PyStr) : PyStr :=
  [apiKey, awsKey, emailAddress, namedSecret].foldl (fun text match? => substitute match? 0 text) text

/-! ## 3.  The loop over the lines -/

/-- A round of a loop over the events: `json.JSONDecodeError` passes over the line. -/
def readLine (env : StreamEnv N F) (step : σ → PyValue N → Except PyError σ) (s : σ)
    (line : String) : Except PyError σ :=
  match env.loads (pyStr line) with
  | .value ev => step s ev
  | .malformed => .ok s
  | .raises e => .error e

/-- A round that passes over a blank line first. -/
def readFullLine (env : StreamEnv N F) (step : σ → PyValue N → Except PyError σ) (s : σ)
    (line : List Char) : Except PyError σ :=
  if strip (String.ofList line) = "" then .ok s
  else readLine env step s (strip (String.ofList line))

def event? (env : StreamEnv N F) (line : String) : Option (PyValue N) :=
  match env.loads (pyStr line) with
  | .value ev => if ev.isDict then some ev else none
  | _ => none

def eventLines (env : StreamEnv N F) (stdout : String) : List String :=
  (fullLines stdout).filter fun line => (event? env line).isSome

def events (env : StreamEnv N F) (stdout : String) : List (PyValue N) :=
  (fullLines stdout).filterMap (event? env)

def eventsOnly (env : StreamEnv N F) (stdout : String) : String :=
  joinWith "\n" (eventLines env stdout)

def OnlyObjects (env : StreamEnv N F) (stdout : String) : Prop :=
  ∀ line ∈ fullLines stdout,
    env.loads (pyStr line) = .malformed ∨ ∃ ev, env.loads (pyStr line) = .value ev ∧ ev.isDict = true

/-- `json.loads` raises nothing but `json.JSONDecodeError`. -/
def Loadable (env : StreamEnv N F) (stdout : String) : Prop :=
  ∀ line ∈ fullLines stdout, ∀ e, env.loads (pyStr line) ≠ .raises e

omit [PyNumber N] in
theorem OnlyObjects.loadable {env : StreamEnv N F} {stdout : String} (h : OnlyObjects env stdout) :
    Loadable env stdout := by
  intro line hline e hraises
  rcases h line hline with h | ⟨ev, h, -⟩
  · exact nomatch h.symm.trans hraises
  · exact nomatch h.symm.trans hraises

omit [PyNumber N] in
theorem foldlM_readFullLine (env : StreamEnv N F) (step : σ → PyValue N → Except PyError σ) (s : σ)
    (text : String) :
    (splitlines text.toList).foldlM (readFullLine env step) s =
      (fullLines text).foldlM (readLine env step) s := by
  rw [fullLines]
  generalize splitlines text.toList = lines
  induction lines generalizing s with
  | nil => rfl
  | cons line lines ih =>
    rw [List.foldlM_cons, stripped_cons, readFullLine]
    split
    · exact ih s
    · rw [List.foldlM_cons]
      exact congrArg _ (funext ih)

omit [PyNumber N] in
/-- A blank line is no JSON, so that it need not be passed over first. -/
theorem foldlM_readLine (env : StreamEnv N F) (step : σ → PyValue N → Except PyError σ) (s : σ)
    (text : String) :
    (splitlines text.toList).foldlM
        (fun s line => readLine env step s (strip (String.ofList line))) s =
      (fullLines text).foldlM (readLine env step) s := by
  rw [← foldlM_readFullLine]
  congr 1
  funext s line
  rw [readFullLine]
  split
  · rename_i hblank
    rw [readLine, hblank]
    change (match env.loads [] with
      | .value ev => step s ev
      | .malformed => .ok s
      | .raises e => .error e) = _
    rw [env.loads_nil]
  · rfl

section

variable (env : StreamEnv N F) {step : σ → PyValue N → Except PyError σ} {P : σ → PyValue N → Prop}
  {g : σ → PyValue N → σ}

omit [PyNumber N] in
/-- **A loop over lines**, each of which is passed over, or raises, or has an event. -/
theorem returns_lines {fine : String → Prop}
    (hline : ∀ line,
      fine line ∧ event? env line = none ∧ (∀ s, readLine env step s line = .ok s) ∨
      ¬fine line ∧ (∀ s, ∃ e, readLine env step s line = .error e) ∨
      fine line ∧ ∃ ev, event? env line = some ev ∧ ∀ s, readLine env step s line = step s ev)
    (hstep : ∀ s ev, ev.isDict = true → Returns (step s ev) (P s ev) (g s ev)) (s : σ)
    (lines : List String) :
    Returns (lines.foldlM (readLine env step) s)
      ((∀ line ∈ lines, fine line) ∧ Throughout P g s (lines.filterMap (event? env)))
      ((lines.filterMap (event? env)).foldl g s) := by
  induction lines generalizing s with
  | nil =>
    refine (Returns.pure s).congr (iff_of_true trivial ⟨nofun, ?_⟩)
      fun _ => rfl
    exact fun earlier ev later hnil => absurd hnil (by simp)
  | cons line lines ih =>
    rw [List.foldlM_cons, List.forall_mem_cons]
    rcases hline line with ⟨hfine, hnone, hread⟩ | ⟨hfine, hraises⟩ | ⟨hfine, ev, hsome, hread⟩
    · rw [hread, List.filterMap_cons_none hnone]
      exact (ih s).congr (and_congr_left' (and_iff_right hfine).symm) fun _ => rfl
    · obtain ⟨e, he⟩ := hraises s
      rw [he]
      exact Returns.raises rfl fun h => hfine h.1.1
    · have hdict : ev.isDict = true := by
        rw [event?] at hsome
        split at hsome
        · split_ifs at hsome with h
          exact Option.some.inj hsome ▸ h
        · cases hsome
      rw [hread, List.filterMap_cons_some hsome, List.foldl_cons]
      refine Returns.congr (.bind (hstep s ev hdict) (ih (g s ev))) ?_ fun _ => rfl
      rw [throughout_cons, and_iff_right hfine, and_left_comm]

omit [PyNumber N] in
/-- **A loop that passes over what is not an object** returns if every line can be loaded. -/
theorem returns_guarded (hskip : ∀ s v, ¬v.isDict = true → step s v = .ok s)
    (hstep : ∀ s ev, ev.isDict = true → Returns (step s ev) (P s ev) (g s ev)) (s : σ)
    (stdout : String) :
    Returns ((fullLines stdout).foldlM (readLine env step) s)
      (Loadable env stdout ∧ Throughout P g s (events env stdout))
      ((events env stdout).foldl g s) := by
  refine returns_lines env (fun line => ?_) hstep s (fullLines stdout)
  unfold event? readLine
  cases env.loads (pyStr line) with
  | malformed => exact .inl ⟨nofun, rfl, fun s => rfl⟩
  | raises e => exact .inr (.inl ⟨fun h => h e rfl, fun s => ⟨e, rfl⟩⟩)
  | value v =>
    by_cases h : v.isDict = true
    · exact .inr (.inr ⟨nofun, v, if_pos h, fun s => rfl⟩)
    · exact .inl ⟨nofun, if_neg h, fun s => hskip s v h⟩

omit [PyNumber N] in
/-- **A loop without that guard** returns if every line that is JSON is an object. -/
theorem returns_unguarded (hraises : ∀ s v, ¬v.isDict = true → ∃ e, step s v = .error e)
    (hstep : ∀ s ev, ev.isDict = true → Returns (step s ev) (P s ev) (g s ev)) (s : σ)
    (stdout : String) :
    Returns ((fullLines stdout).foldlM (readLine env step) s)
      (OnlyObjects env stdout ∧ Throughout P g s (events env stdout))
      ((events env stdout).foldl g s) := by
  refine returns_lines env (fun line => ?_) hstep s (fullLines stdout)
  unfold event? readLine
  cases env.loads (pyStr line) with
  | malformed => exact .inl ⟨.inl rfl, rfl, fun s => rfl⟩
  | raises e =>
    refine .inr (.inl ⟨?_, fun s => ⟨e, rfl⟩⟩)
    rintro (h | ⟨v, h, -⟩)
    · cases h
    · cases h
  | value v =>
    by_cases h : v.isDict = true
    · exact .inr (.inr ⟨.inr ⟨v, rfl, h⟩, v, if_pos h, fun s => rfl⟩)
    · refine .inr (.inl ⟨?_, fun s => hraises s v h⟩)
      rintro (hmalformed | ⟨w, hw, hdict⟩)
      · cases hmalformed
      · obtain rfl := Loaded.value.inj hw
        exact h hdict

end

/-! ### The stream without its other lines -/

omit [PyNumber N] in
theorem fullLines_eventsOnly (env : StreamEnv N F) (stdout : String) :
    fullLines (eventsOnly env stdout) = eventLines env stdout :=
  fullLines_joinWith fun _ h => fullLine_of_mem (List.mem_filter.mp h).1

omit [PyNumber N] in
/-- **The other lines hold no event.** -/
theorem events_eventsOnly (env : StreamEnv N F) (stdout : String) :
    events env (eventsOnly env stdout) = events env stdout := by
  rw [events, fullLines_eventsOnly, eventLines, events]
  generalize fullLines stdout = lines
  induction lines with
  | nil => rfl
  | cons line lines ih =>
    rw [List.filter_cons]
    cases h : event? env line with
    | none =>
      rw [List.filterMap_cons_none h]
      simpa using ih
    | some ev =>
      rw [List.filterMap_cons_some h, ← ih]
      simp [h]

omit [PyNumber N] in
theorem onlyObjects_eventsOnly (env : StreamEnv N F) (stdout : String) :
    OnlyObjects env (eventsOnly env stdout) := by
  intro line hline
  rw [fullLines_eventsOnly, eventLines, List.mem_filter, event?] at hline
  split at hline
  · rename_i ev hload
    split_ifs at hline with hdict
    · exact .inr ⟨ev, hload, hdict⟩
    · exact absurd hline.2 Bool.false_ne_true
  · exact absurd hline.2 Bool.false_ne_true

end Kroker.Stream
