import Kroker.Harness.Stream

/-!
# The stream of `opencode`

`OpenCodeHarness.parse` and `OpenCodeHarness.normalise_session` of `harness/opencode.py`.  An event has its
content in `part`: a chunk of text, a call of a tool, or the tokens and the cost of a step that has
finished.  This harness reports neither denials nor deferrals.

## 1.  What both readers do with an event

The session id is the first that is true, and the tokens and costs of the steps are added up.

## 2.  `parse`

It has no guard against what is not an object.

## 3.  `normalise_session`

It has the guard, and makes an event of each chunk and each call.
-/

namespace Kroker.Stream

open PyValue hiding none

variable {N F : Type} [PyNumber N]

namespace OpenCode

/-! ## 1.  What both readers do with an event -/

/-- The totals, and whether any was seen. -/
structure Tally (N : Type) where
  inputTokens : N
  outputTokens : N
  cost : N
  sawTokens : Bool := false
  sawCost : Bool := false

def Tally.zero : Tally N := ⟨PyNumber.zero, PyNumber.zero, PyNumber.zeroFloat, false, false⟩

/-- `if isinstance(v, (int, float)): total += v; saw = True`. -/
def addTo (total : N) (saw : Bool) (v : PyValue N) : Except PyError (N × Bool) :=
  match v.amount? with
  | some n => match PyNumber.add total n with
    | some sum => .ok (sum, true)
    | none => .error .overflow
  | none => .ok (total, saw)

def adds (total : N) (v : PyValue N) : Bool :=
  v.amount?.all fun n => (PyNumber.add total n).isSome

def added (total : N) (saw : Bool) (v : PyValue N) : N × Bool :=
  match v.amount? with
  | some n => ((PyNumber.add total n).getD total, true)
  | none => (total, saw)

theorem returns_addTo (total : N) (saw : Bool) (v : PyValue N) :
    Returns (addTo total saw v) (adds total v = true) (added total saw v) := by
  unfold addTo adds added
  cases v.amount? with
  | none => exact (Returns.pure _).congr (iff_of_true trivial rfl) fun _ => rfl
  | some n =>
    dsimp only [Option.all_some]
    cases PyNumber.add total n with
    | none => exact Returns.raises rfl Bool.false_ne_true
    | some sum => exact (Returns.pure (sum, true)).congr (iff_of_true trivial rfl) fun _ => rfl

/-- `part.get("tokens") or {}`. -/
def tokensOf (part : PyValue N) : PyValue N := (part.field "tokens").orEmpty

/-- What both readers do with the part of a `step_finish` event. -/
def Tally.stepFinish (t : Tally N) (part : PyValue N) : Except PyError (Tally N) := do
  let tokens := (← part.get "tokens").orEmpty
  let input ← addTo t.inputTokens t.sawTokens (← tokens.get "input")
  let output ← addTo t.outputTokens input.2 (← tokens.get "output")
  let cost ← addTo t.cost t.sawCost (← part.get "cost")
  return ⟨input.1, output.1, cost.1, output.2, cost.2⟩

/-- A finished step can be added. -/
structure Tally.Finishes (t : Tally N) (part : PyValue N) : Prop where
  isDict : part.isDict = true
  tokens : (tokensOf part).isDict = true
  input : adds t.inputTokens ((tokensOf part).field "input") = true
  output : adds t.outputTokens ((tokensOf part).field "output") = true
  cost : adds t.cost (part.field "cost") = true

/-- The totals with a finished step. -/
def Tally.finished (t : Tally N) (part : PyValue N) : Tally N :=
  let input := added t.inputTokens t.sawTokens ((tokensOf part).field "input")
  let output := added t.outputTokens input.2 ((tokensOf part).field "output")
  let cost := added t.cost t.sawCost (part.field "cost")
  ⟨input.1, output.1, cost.1, output.2, cost.2⟩

theorem Tally.returns_stepFinish (t : Tally N) (part : PyValue N) :
    Returns (t.stepFinish part) (t.Finishes part) (t.finished part) := by
  refine Returns.congr (.bind (returns_get part "tokens") (.bind (returns_get (tokensOf part) "input")
    (.bind (returns_addTo _ _ _) (.bind (returns_get (tokensOf part) "output")
      (.bind (returns_addTo _ _ _) (.bind (returns_get part "cost") (.bind (returns_addTo _ _ _)
        (.pure _)))))))) ?_ fun _ => rfl
  constructor
  · rintro ⟨hpart, htokens, hinput, -, houtput, -, hcost, -⟩
    exact ⟨hpart, htokens, hinput, houtput, hcost⟩
  · rintro ⟨hpart, htokens, hinput, houtput, hcost⟩
    exact ⟨hpart, htokens, hinput, htokens, houtput, hpart, hcost, trivial⟩

/-- `ev.get("part") or {}`. -/
def partOf (ev : PyValue N) : PyValue N := (ev.field "part").orEmpty

def hasType (ev : PyValue N) (etype : String) : Bool := (ev.field "type").isText etype

/-- `session_id or ev.get("sessionID") or ev.get("session_id")`. -/
def nextSessionId (sessionId ev : PyValue N) : Except PyError (PyValue N) := do
  let sessionId ← sessionId.orGet ev "sessionID"
  sessionId.orGet ev "session_id"

theorem returns_nextSessionId (sessionId : PyValue N) {ev : PyValue N} (hev : ev.isDict = true) :
    Returns (nextSessionId sessionId ev) True
      ((sessionId.orElse (ev.field "sessionID")).orElse (ev.field "session_id")) :=
  Returns.congr (.bind (returns_orGet hev "sessionID") (returns_orGet hev "session_id"))
    (and_self_iff) fun _ => rfl

/-- The branch of `step_finish`. -/
def Tally.next (t : Tally N) (etype part : PyValue N) : Except PyError (Tally N) :=
  if etype.isText "step_finish" then t.stepFinish part else pure t

/-- The totals with an event. -/
def Tally.plus (t : Tally N) (ev : PyValue N) : Tally N :=
  if hasType ev "step_finish" then t.finished (partOf ev) else t

theorem Tally.returns_next (t : Tally N) (ev : PyValue N) :
    Returns (t.next (ev.field "type") (partOf ev))
      (hasType ev "step_finish" = true → t.Finishes (partOf ev)) (t.plus ev) := by
  refine Returns.congr (.ite (t.returns_stepFinish (partOf ev)) (.pure t)) ?_ fun _ => rfl
  exact ⟨fun h => h.1, fun h => ⟨h, fun _ => trivial⟩⟩

/-- The totals of these events. -/
def totals (earlier : List (PyValue N)) : Tally N := earlier.foldl Tally.plus .zero

def sessionIdOf (events : List (PyValue N)) : PyValue N :=
  firstTruthy (events.flatMap fun ev => [ev.field "sessionID", ev.field "session_id"])

theorem foldl_nextSessionId (events : List (PyValue N)) :
    events.foldl (fun id ev => (id.orElse (ev.field "sessionID")).orElse (ev.field "session_id"))
      .none = sessionIdOf events := by
  rw [sessionIdOf, ← foldl_orElse, List.flatMap, List.foldl_flatten, List.foldl_map]
  rfl

/-- `input_tokens if saw_tokens else None`. -/
def Tally.inputField (t : Tally N) : PyValue N := if t.sawTokens then .number t.inputTokens else .none

/-- `output_tokens if saw_tokens else None`. -/
def Tally.outputField (t : Tally N) : PyValue N :=
  if t.sawTokens then .number t.outputTokens else .none

/-- `cost if saw_cost else None`. -/
def Tally.costField (t : Tally N) : PyValue N := if t.sawCost then .number t.cost else .none

/-! ## 2.  `parse` -/

structure ParseState (N : Type) where
  sessionId : PyValue N := .none
  textParts : List (PyValue N) := []
  tally : Tally N
  parsedAny : Bool := false

/-- `part.get("text")`, of an event of type `text`. -/
def textIn (etype part : PyValue N) : Except PyError (PyValue N) :=
  if etype.isText "text" then part.get "text" else pure PyValue.none

/-- The text of an event of type `text`. -/
def textOf (ev : PyValue N) : PyValue N :=
  if hasType ev "text" then (partOf ev).field "text" else .none

theorem returns_textIn (ev : PyValue N) :
    Returns (textIn (ev.field "type") (partOf ev))
      (hasType ev "text" = true → (partOf ev).isDict = true) (textOf ev) := by
  refine Returns.congr (.ite (returns_get (partOf ev) "text") (.pure PyValue.none)) ?_ fun _ => rfl
  exact ⟨fun h => h.1, fun h => ⟨h, fun _ => trivial⟩⟩

/-- A round of the loop of `parse`. -/
def parseEvent (s : ParseState N) (ev : PyValue N) : Except PyError (ParseState N) := do
  let sessionId ← nextSessionId s.sessionId ev
  let part := (← ev.get "part").orEmpty
  let etype ← ev.get "type"
  let text ← textIn etype part
  let textParts := if text.truthy then s.textParts ++ [text] else s.textParts
  let tally ← s.tally.next etype part
  return { sessionId, textParts, tally, parsedAny := true }

/-- An item that `str.join` takes. -/
def asText (v : PyValue N) : Except PyError PyStr :=
  match v with
  | .text s => .ok s
  | _ => .error .type

/-- `"\n".join(parts)`. -/
def joinLines (parts : List (PyValue N)) : Except PyError PyStr :=
  (parts.mapM asText).map ([0x0a].intercalate ·)

/-- `"\n".join(text_parts) if parsed_any else stdout`. -/
def summaryIn (s : ParseState N) (stdout : String) : Except PyError PyStr :=
  if s.parsedAny then joinLines s.textParts else pure (pyStr stdout)

def parse (env : StreamEnv N F) (stdout : String) (exitCode : ℤ) :
    Except PyError (HarnessRunResult F) := do
  let s ← (splitlines stdout.toList).foldlM (readFullLine env parseEvent) { tally := .zero }
  let summary ← summaryIn s stdout
  harnessRunResult env .opencode s.sessionId exitCode (.text (summary.take summaryMax))
    s.tally.costField s.tally.inputField s.tally.outputField

/-- The part of an event that `parse` reads is a dictionary, and the step can be added. -/
structure Parses (t : Tally N) (ev : PyValue N) : Prop where
  text : hasType ev "text" = true → (partOf ev).isDict = true
  finish : hasType ev "step_finish" = true → t.Finishes (partOf ev)

def chunks (events : List (PyValue N)) : List (PyValue N) :=
  (events.map textOf).filter truthy

/-- The state of `parse` after an event. -/
def parsed (s : ParseState N) (ev : PyValue N) : ParseState N where
  sessionId := (s.sessionId.orElse (ev.field "sessionID")).orElse (ev.field "session_id")
  textParts := if (textOf ev).truthy then s.textParts ++ [textOf ev] else s.textParts
  tally := s.tally.plus ev
  parsedAny := true

theorem returns_parseEvent (s : ParseState N) {ev : PyValue N} (hev : ev.isDict = true) :
    Returns (parseEvent s ev) (Parses s.tally ev) (parsed s ev) := by
  refine Returns.congr (.bind (returns_nextSessionId s.sessionId hev) (.bind (returns_get ev "part")
    (.bind (returns_get ev "type") (.bind (returns_textIn ev) (.bind (s.tally.returns_next ev)
      (.pure _)))))) ?_ fun _ => rfl
  constructor
  · rintro ⟨-, -, -, htext, hfinish, -⟩
    exact ⟨htext, hfinish⟩
  · rintro ⟨htext, hfinish⟩
    exact ⟨trivial, hev, hev, htext, hfinish, trivial⟩

omit [PyNumber N] in
theorem returns_asText (v : PyValue N) :
    Returns (asText v) (v.text?.isSome = true) (v.text?.getD []) := by
  cases v with
  | text s => exact (Returns.pure s).congr (iff_of_true trivial rfl) fun _ => rfl
  | _ => exact Returns.raises rfl Bool.false_ne_true

/-- The chunks, a line feed between each two. -/
def joined (parts : List (PyValue N)) : PyStr :=
  [0x0a].intercalate (parts.map fun v => v.text?.getD [])

omit [PyNumber N] in
theorem returns_joinLines (parts : List (PyValue N)) :
    Returns (joinLines parts) (∀ v ∈ parts, v.text?.isSome = true) (joined parts) :=
  (Returns.mapM returns_asText parts).map _

theorem foldl_parsed (events : List (PyValue N)) (s : ParseState N) :
    events.foldl parsed s =
      { sessionId := events.foldl (fun id ev => (id.orElse (ev.field "sessionID")).orElse
          (ev.field "session_id")) s.sessionId
        textParts := s.textParts ++ chunks events
        tally := events.foldl Tally.plus s.tally
        parsedAny := s.parsedAny || !events.isEmpty } := by
  induction events generalizing s with
  | nil => simp [chunks]
  | cons ev events ih =>
    rw [List.foldl_cons, ih, List.foldl_cons, List.foldl_cons]
    refine ParseState.mk.injEq .. |>.mpr ⟨rfl, ?_, rfl, ?_⟩
    · by_cases h : (textOf ev).truthy = true
      · simp [parsed, chunks, h]
      · simp [parsed, chunks, h]
    · simp [parsed]

/-- What `parse` reports, if it returns. -/
def report (env : StreamEnv N F) (events : List (PyValue N)) : Report F where
  sessionId := (sessionIdOf events).text?.map decode
  inputTokens := readNumber env.intField (totals events).inputField
  outputTokens := readNumber env.intField (totals events).outputField
  costUsd := readNumber env.floatField (totals events).costField

def Reports (env : StreamEnv N F) (events : List (PyValue N)) : Prop :=
  Reportable env (sessionIdOf events) (totals events).costField (totals events).inputField
    (totals events).outputField

/-- `parse` can make its summary. -/
structure Summarizes (events : List (PyValue N)) : Prop where
  texts : ∀ v ∈ chunks events, v.text?.isSome = true
  encodes : encodable ((joined (chunks events)).take summaryMax) = true

def summaryOf (stdout : String) (events : List (PyValue N)) : String :=
  decode ((if events.isEmpty then pyStr stdout else joined (chunks events)).take summaryMax)

/-- `parse` reads the events one after the other. -/
def AllParse (events : List (PyValue N)) : Prop :=
  ∀ earlier ev later, events = earlier ++ ev :: later → Parses (totals earlier) ev

theorem parseEvent_of_not_isDict (s : ParseState N) (v : PyValue N) (hv : ¬v.isDict = true) :
    ∃ e, parseEvent s v = .error e := by
  rw [parseEvent]
  cases nextSessionId s.sessionId v with
  | error e => exact ⟨e, rfl⟩
  | ok sessionId =>
    refine ⟨.attribute, ?_⟩
    rw [get_of_not_isDict hv "part"]
    rfl

omit [PyNumber N] in
theorem returns_summaryIn (s : ParseState N) (stdout : String) :
    Returns (summaryIn s stdout) (s.parsedAny = true → ∀ v ∈ s.textParts, v.text?.isSome = true)
      (if s.parsedAny then joined s.textParts else pyStr stdout) := by
  refine Returns.congr (.ite (returns_joinLines s.textParts) (.pure _)) ?_ fun _ => rfl
  exact ⟨fun h => h.1, fun h => ⟨h, fun _ => trivial⟩⟩

theorem throughout_parses {events : List (PyValue N)} :
    Throughout (fun s => Parses s.tally) parsed { tally := Tally.zero } events ↔ AllParse events := by
  unfold Throughout AllParse
  refine forall_congr' fun earlier => forall_congr' fun ev => forall_congr' fun later => ?_
  rw [foldl_parsed, totals]

/-- **When `parse` returns, and what.** -/
theorem returns_parse (env : StreamEnv N F) (stdout : String) (exitCode : ℤ) :
    Returns (parse env stdout exitCode)
      (OnlyObjects env stdout ∧ AllParse (events env stdout) ∧ Summarizes (events env stdout) ∧
        Reports env (events env stdout))
      { harness := .opencode, exitCode, summary := summaryOf stdout (events env stdout)
        sessionId := (report env (events env stdout)).sessionId
        inputTokens := (report env (events env stdout)).inputTokens
        outputTokens := (report env (events env stdout)).outputTokens
        costUsd := (report env (events env stdout)).costUsd } := by
  have hloop := returns_unguarded env parseEvent_of_not_isDict (fun s _ => returns_parseEvent s)
    { tally := .zero } stdout
  rw [throughout_parses, foldl_parsed, foldl_nextSessionId, List.nil_append, Bool.false_or] at hloop
  rw [parse, foldlM_readFullLine]
  refine Returns.congr (.bind hloop (.bind (returns_summaryIn _ stdout)
    (returns_harnessRunResult env .opencode _ exitCode _ _ _ _))) ?_ fun _ => ?_
  · generalize events env stdout = evs
    have hsummary : ((!evs.isEmpty) = true → ∀ v ∈ chunks evs, v.text?.isSome = true) ∧
        encodable ((if (!evs.isEmpty) = true then joined (chunks evs) else pyStr stdout).take
          summaryMax) = true ↔ Summarizes evs := by
      cases evs with
      | nil =>
        refine iff_of_true ⟨(nomatch ·), encodable_take (encodable_pyStr stdout) _⟩ ⟨?_, rfl⟩
        exact nofun
      | cons ev evs => exact ⟨fun h => ⟨h.1 rfl, h.2⟩, fun h => ⟨fun _ => h.1, h.2⟩⟩
    constructor
    · rintro ⟨⟨hlines, hevents⟩, htexts, hencodes, hreports⟩
      exact ⟨hlines, hevents, hsummary.mp ⟨htexts, hencodes⟩, hreports⟩
    · rintro ⟨hlines, hevents, hboth, hreports⟩
      obtain ⟨htexts, hencodes⟩ := hsummary.mpr hboth
      exact ⟨⟨hlines, hevents⟩, htexts, hencodes, hreports⟩
  · rw [summaryOf]
    cases events env stdout <;> rfl

/-! ## 3.  `normalise_session` -/

structure SessionState (N : Type) where
  events : List SessionEvent := []
  sessionId : PyValue N := .none
  tally : Tally N

/-- `_TOOL_MAP`, and what stands for the tools that it does not have. -/
def toolMap (name : PyStr) : String × String :=
  if name = pyStr "read" then ("file_read", "filePath")
  else if name = pyStr "write" then ("file_write", "filePath")
  else if name = pyStr "edit" then ("file_write", "filePath")
  else if name = pyStr "bash" then ("command", "command")
  else ("tool_call", "")

/-- `v.lower()`. -/
def lowered (env : StreamEnv N F) (v : PyValue N) : Except PyError PyStr :=
  match v with
  | .text s => .ok (env.lower s)
  | _ => .error .attribute

def toolExitCode (state : PyValue N) : Except PyError (Option ℤ) := do
  let metadata := (← state.get "metadata").orEmpty
  let raw ← metadata.get "exit"
  let status ← state.get "status"
  return raw.int? <|> if status.isText "error" then some 1 else none

end OpenCode

/-- `json.dumps(v)[:500]`. -/
def dumped (env : StreamEnv N F) (v : PyValue N) : Except PyError (PyValue N) :=
  match env.dumps v with
  | some s => .ok (.text (s.take 500))
  | none => .error .recursion

/-- `inp.get(field) if field else json.dumps(inp)[:500]`. -/
def targetField (env : StreamEnv N F) (field : String) (inp : PyValue N) :
    Except PyError (PyValue N) :=
  if field = "" then dumped env inp else inp.get field

def targetValue (env : StreamEnv N F) (field : String) (inp : PyValue N) : PyValue N :=
  if field = "" then .text (((env.dumps inp).getD []).take 500) else inp.field field

/-- The input of a call has a target, which is a text or `None`. -/
structure Targets (env : StreamEnv N F) (field : String) (inp : PyValue N) : Prop where
  dumped : field = "" → (env.dumps inp).isSome = true
  isDict : field ≠ "" → inp.isDict = true
  isOptionalStr : (targetValue env field inp).isOptionalStr = true

omit [PyNumber N] in
theorem returns_targetField (env : StreamEnv N F) (field : String) (inp : PyValue N) :
    Returns (targetField env field inp)
      ((field = "" → (env.dumps inp).isSome = true) ∧ (field ≠ "" → inp.isDict = true))
      (targetValue env field inp) := by
  refine .ite ?_ (returns_get inp field)
  unfold dumped
  cases env.dumps inp with
  | none => exact Returns.raises rfl Bool.false_ne_true
  | some s => exact (Returns.pure _).congr (iff_of_true trivial rfl) fun _ => rfl

namespace OpenCode

/-- The branch of `tool` and `tool_use`. -/
def toolEvent (env : StreamEnv N F) (part : PyValue N) : Except PyError SessionEvent := do
  let name ← lowered env ((← part.get "tool").orElse (.text (pyStr "tool")))
  let state := (← part.get "state").orEmpty
  let inp := (← state.get "input").orEmpty
  let target ← targetField env (toolMap name).2 inp
  let exitCode ← toolExitCode state
  sessionEvent (toolMap name).1 (.text name) target .none exitCode

/-- The branch of `text`. -/
def textEvents (part : PyValue N) : Except PyError (List SessionEvent) := do
  let text ← part.get "text"
  if text.truthy then
    (sliceTo 2000 text >>= fun text => sessionEvent "model_turn" .none .none text none).map ([·])
  else return []

def newEvents (env : StreamEnv N F) (etype part : PyValue N) : Except PyError (List SessionEvent) :=
  if etype.isText "text" then textEvents part
  else if etype.isText "tool" || etype.isText "tool_use" then (toolEvent env part).map ([·])
  else pure []

/-- A round of the loop of `normalise_session`. -/
def readEvent (env : StreamEnv N F) (s : SessionState N) (ev : PyValue N) :
    Except PyError (SessionState N) :=
  if !ev.isDict then .ok s
  else do
    let sessionId ← nextSessionId s.sessionId ev
    let part := (← ev.get "part").orEmpty
    let etype ← ev.get "type"
    let events ← newEvents env etype part
    let tally ← s.tally.next etype part
    return { events := s.events ++ events, sessionId, tally }

def normaliseSession (env : StreamEnv N F) (stdout : String) : Except PyError (HarnessSession F) := do
  let s ← (splitlines stdout.toList).foldlM (readFullLine env (readEvent env)) { tally := .zero }
  harnessSession env .opencode s.sessionId .none s.events s.tally.inputField s.tally.outputField
    s.tally.costField

/-- `part.get("tool") or "tool"`. -/
def toolOf (part : PyValue N) : PyValue N := (part.field "tool").orElse (.text (pyStr "tool"))

def nameOf (env : StreamEnv N F) (part : PyValue N) : PyStr := env.lower ((toolOf part).text?.getD [])

def stateOf (part : PyValue N) : PyValue N := (part.field "state").orEmpty

def inputOf (part : PyValue N) : PyValue N := ((stateOf part).field "input").orEmpty

def metadataOf (state : PyValue N) : PyValue N := (state.field "metadata").orEmpty

def exitCodeOf (state : PyValue N) : Option ℤ :=
  ((metadataOf state).field "exit").int? <|>
    if (state.field "status").isText "error" then some 1 else none

structure Calls (env : StreamEnv N F) (part : PyValue N) : Prop where
  isDict : part.isDict = true
  tool : (toolOf part).text?.isSome = true
  name : encodable (nameOf env part) = true
  state : (stateOf part).isDict = true
  metadata : (metadataOf (stateOf part)).isDict = true
  target : Targets env (toolMap (nameOf env part)).2 (inputOf part)

def callOf (env : StreamEnv N F) (part : PyValue N) : SessionEvent :=
  eventOf (toolMap (nameOf env part)).1 (.text (nameOf env part))
    (targetValue env (toolMap (nameOf env part)).2 (inputOf part)) .none (exitCodeOf (stateOf part))

variable (env : StreamEnv N F)

omit [PyNumber N] in
theorem returns_lowered (v : PyValue N) :
    Returns (lowered env v) (v.text?.isSome = true) (env.lower (v.text?.getD [])) := by
  cases v with
  | text s => exact (Returns.pure _).congr (iff_of_true trivial rfl) fun _ => rfl
  | _ => exact Returns.raises rfl Bool.false_ne_true

theorem returns_toolExitCode (state : PyValue N) :
    Returns (toolExitCode state) (state.isDict = true ∧ (metadataOf state).isDict = true)
      (exitCodeOf state) := by
  refine Returns.congr (.bind (returns_get state "metadata") (.bind (returns_get (metadataOf state)
    "exit") (.bind (returns_get state "status") (.pure _)))) ?_ fun _ => rfl
  constructor
  · rintro ⟨hstate, hmetadata, -, -⟩
    exact ⟨hstate, hmetadata⟩
  · rintro ⟨hstate, hmetadata⟩
    exact ⟨hstate, hmetadata, hstate, trivial⟩

theorem returns_toolEvent (part : PyValue N) :
    Returns (toolEvent env part) (Calls env part) (callOf env part) := by
  refine Returns.congr (.bind (returns_get part "tool") (.bind (returns_lowered env (toolOf part))
    (.bind (returns_get part "state") (.bind (returns_get (stateOf part) "input")
      (.bind (returns_targetField env (toolMap (nameOf env part)).2 (inputOf part))
        (.bind (returns_toolExitCode (stateOf part)) (returns_sessionEvent _ _ _ _ _))))))) ?_
    fun _ => rfl
  constructor
  · rintro ⟨hpart, htool, -, -, htarget, ⟨hstate, hmetadata⟩, hname, htext, -⟩
    exact ⟨hpart, htool, hname, hstate, hmetadata, htarget.1, htarget.2, htext⟩
  · rintro ⟨hpart, htool, hname, hstate, hmetadata, hdumped, hdict, htext⟩
    exact ⟨hpart, htool, hpart, hstate, ⟨hdumped, hdict⟩, ⟨hstate, hmetadata⟩, hname, htext, rfl⟩

/-- A chunk of text is one, and can be encoded as far as it is kept. -/
structure Speaks (part : PyValue N) : Prop where
  isDict : part.isDict = true
  text : (part.field "text").truthy = true → clips 2000 (part.field "text") = true

def turnsOf (part : PyValue N) : List SessionEvent :=
  if (part.field "text").truthy then
    [eventOf "model_turn" .none .none (clip 2000 (part.field "text")) none]
  else []

theorem returns_textEvents (part : PyValue N) :
    Returns (textEvents part) (Speaks part) (turnsOf part) := by
  refine Returns.congr (.bind (returns_get part "text") (.ite (.map (returns_sliced "model_turn" 2000
    (part.field "text") PyValue.none PyValue.none none rfl rfl) ([·])) (.pure []))) ?_ fun _ => rfl
  exact ⟨fun h => ⟨h.1, h.2.1⟩, fun h => ⟨h.isDict, h.text, fun _ => trivial⟩⟩

/-- The session events of an event are made. -/
structure Reads (env : StreamEnv N F) (ev : PyValue N) : Prop where
  text : hasType ev "text" = true → Speaks (partOf ev)
  call : hasType ev "tool" = true ∨ hasType ev "tool_use" = true → Calls env (partOf ev)

/-- Which they are. -/
def newOf (env : StreamEnv N F) (ev : PyValue N) : List SessionEvent :=
  if hasType ev "text" then turnsOf (partOf ev)
  else if hasType ev "tool" || hasType ev "tool_use" then [callOf env (partOf ev)]
  else []

theorem returns_newEvents (ev : PyValue N) :
    Returns (newEvents env (ev.field "type") (partOf ev)) (Reads env ev) (newOf env ev) := by
  refine Returns.congr (.ite (returns_textEvents (partOf ev)) (.ite (.map (returns_toolEvent env
    (partOf ev)) ([·])) (.pure []))) ?_ fun _ => rfl
  constructor
  · rintro ⟨htext, hcall⟩
    refine ⟨htext, fun h => ?_⟩
    have hother : ¬hasType ev "text" = true := h.elim (not_isText · (by decide))
      (not_isText · (by decide))
    exact (hcall hother).1 (Bool.or_eq_true_iff.mpr h)
  · rintro ⟨htext, hcall⟩
    exact ⟨htext, fun _ => ⟨fun h => hcall (Bool.or_eq_true_iff.mp h), fun _ => trivial⟩⟩

/-- The state of `normalise_session` after an event. -/
def read (env : StreamEnv N F) (s : SessionState N) (ev : PyValue N) : SessionState N where
  events := s.events ++ newOf env ev
  sessionId := (s.sessionId.orElse (ev.field "sessionID")).orElse (ev.field "session_id")
  tally := s.tally.plus ev

/-- A round of `normalise_session` returns. -/
structure ReadsAfter (env : StreamEnv N F) (t : Tally N) (ev : PyValue N) : Prop where
  reads : Reads env ev
  finish : hasType ev "step_finish" = true → t.Finishes (partOf ev)

theorem returns_readEvent (s : SessionState N) (ev : PyValue N) (hev : ev.isDict = true) :
    Returns (readEvent env s ev) (ReadsAfter env s.tally ev) (read env s ev) := by
  rw [readEvent, if_neg (by simp [hev])]
  refine Returns.congr (.bind (returns_nextSessionId s.sessionId hev) (.bind (returns_get ev "part")
    (.bind (returns_get ev "type") (.bind (returns_newEvents env ev) (.bind (s.tally.returns_next ev)
      (.pure _)))))) ?_ fun _ => rfl
  constructor
  · rintro ⟨-, -, -, hreads, hfinish, -⟩
    exact ⟨hreads, hfinish⟩
  · rintro ⟨hreads, hfinish⟩
    exact ⟨trivial, hev, hev, hreads, hfinish, trivial⟩

theorem foldl_read (events : List (PyValue N)) (s : SessionState N) :
    events.foldl (read env) s =
      { sessionId := events.foldl (fun id ev => (id.orElse (ev.field "sessionID")).orElse
          (ev.field "session_id")) s.sessionId
        events := s.events ++ events.flatMap (newOf env)
        tally := events.foldl Tally.plus s.tally } := by
  induction events generalizing s with
  | nil => simp
  | cons ev events ih => simp [ih, read]

/-- `normalise_session` reads the events one after the other. -/
def AllRead (env : StreamEnv N F) (events : List (PyValue N)) : Prop :=
  ∀ earlier ev later, events = earlier ++ ev :: later → ReadsAfter env (totals earlier) ev

theorem throughout_reads {env : StreamEnv N F} {events : List (PyValue N)} :
    Throughout (fun s => ReadsAfter env s.tally) (read env) { tally := Tally.zero } events ↔
      AllRead env events := by
  unfold Throughout AllRead
  refine forall_congr' fun earlier => forall_congr' fun ev => forall_congr' fun later => ?_
  rw [foldl_read, totals]

/-- **When `normalise_session` returns, and what.** -/
theorem returns_normaliseSession (stdout : String) :
    Returns (normaliseSession env stdout)
      (Loadable env stdout ∧ AllRead env (events env stdout) ∧ Reports env (events env stdout))
      { harness := .opencode, events := (events env stdout).flatMap (newOf env)
        sessionId := (report env (events env stdout)).sessionId
        inputTokens := (report env (events env stdout)).inputTokens
        outputTokens := (report env (events env stdout)).outputTokens
        costUsd := (report env (events env stdout)).costUsd } := by
  have hloop := returns_guarded env (fun s v hv => if_pos (by simpa using hv))
    (returns_readEvent env) { tally := .zero } stdout
  rw [throughout_reads, foldl_read, foldl_nextSessionId, List.nil_append] at hloop
  rw [normaliseSession, foldlM_readFullLine]
  refine Returns.congr (.bind hloop (returns_harnessSession env .opencode _ _ _ _ _ _)) ?_
    fun _ => rfl
  constructor
  · rintro ⟨⟨hlines, hevents⟩, -, hreports⟩
    exact ⟨hlines, hevents, hreports⟩
  · rintro ⟨hlines, hevents, hreports⟩
    exact ⟨⟨hlines, hevents⟩, rfl, hreports⟩

end OpenCode

end Kroker.Stream
