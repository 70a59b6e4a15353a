import Kroker.Harness.ClaudeStream

/-!
# The readers of a stream

`parse`, `normalise_session`, `normalise_denials` and `normalise_deferral` of both adapters, on one standard
output.  `readers_agree_iff` says exactly when all of them return, `parse` and `normalise_session` report
the same, and the lines that are not JSON objects make no difference.

Three things stand in the way.  `parse` of `opencode` and `normalise_denials` of `claude` lack the guard
that their siblings have, so that one line with another JSON value on it is enough.  `parse` of `claude` has
the session id of the last `result` event, and `normalise_session` the first of any event.  And a field of
an unexpected type raises nearly everywhere.
-/

namespace Kroker.Stream

open PyValue hiding none

variable {N F : Type} [PyNumber N]

/-- The adapters that read a stream of events. -/
inductive Adapter where
  | opencode
  | claudeCode

namespace Adapter

def parse (env : StreamEnv N F) : Adapter → String → ℤ → Except PyError (HarnessRunResult F)
  | opencode => OpenCode.parse env
  | claudeCode => ClaudeCode.parse env

def normaliseSession (env : StreamEnv N F) : Adapter → String → Except PyError (HarnessSession F)
  | opencode => OpenCode.normaliseSession env
  | claudeCode => ClaudeCode.normaliseSession env

/-- The base class reports no denials. -/
def normaliseDenials (env : StreamEnv N F) : Adapter → String → Except PyError (List ToolDenial)
  | opencode => fun _ => .ok []
  | claudeCode => ClaudeCode.normaliseDenials env

/-- The base class cannot suspend. -/
def normaliseDeferral (env : StreamEnv N F) :
    Adapter → String → Except PyError (Option DeferredToolUse)
  | opencode => fun _ => .ok none
  | claudeCode => ClaudeCode.normaliseDeferral env

end Adapter

/-- What the readers make of a standard output, but for the summary. -/
structure Readings (F : Type) where
  report : Report F
  session : HarnessSession F
  denials : List ToolDenial
  deferral : Option DeferredToolUse

/-- The readings, if no reader raises. -/
def readings (env : StreamEnv N F) (a : Adapter) (stdout : String) (exitCode : ℤ) :
    Except PyError (Readings F) := do
  let result ← a.parse env stdout exitCode
  let session ← a.normaliseSession env stdout
  let denials ← a.normaliseDenials env stdout
  let deferral ← a.normaliseDeferral env stdout
  return ⟨result.report, session, denials, deferral⟩

/-- **The readers agree**: none raises, both report the same, and so they do without the lines that are
not JSON objects. -/
def Agree (env : StreamEnv N F) (a : Adapter) (stdout : String) (exitCode : ℤ) : Prop :=
  ∃ r, readings env a stdout exitCode = .ok r ∧ r.report = r.session.report ∧
    readings env a (eventsOnly env stdout) exitCode = .ok r

/-- A stream of `opencode` that can be read: every line that is JSON is an object; the parts of each event
have the types that they are used at, and a finished step can be added to the totals before it; the chunks
of text make a summary; and the session id and the totals fill the fields of a report. -/
structure OpenCode.Readable (env : StreamEnv N F) (stdout : String) : Prop where
  lines : OnlyObjects env stdout
  parses : OpenCode.AllParse (events env stdout)
  reads : OpenCode.AllRead env (events env stdout)
  summary : OpenCode.Summarizes (events env stdout)
  report : OpenCode.Reports env (events env stdout)

/-- A stream of `claude` that can be read: every line that is JSON is an object; the denials, the messages,
the results and the deferral have the types that they are used at; the last result event fills a report;
and its session id is the first that is true in any event. -/
structure ClaudeCode.Readable (env : StreamEnv N F) (stdout : String) : Prop where
  lines : OnlyObjects env stdout
  denies : ClaudeCode.AllDeny env (events env stdout)
  session : ClaudeCode.SessionReads env (events env stdout)
  payload : ClaudeCode.PayloadParses env (events env stdout)
  sessionId : ((ClaudeCode.payloadOf (events env stdout)).field "session_id").text? =
    (ClaudeCode.sessionIdOf (events env stdout)).text?

/-- A stream that can be read. -/
def Readable (env : StreamEnv N F) (a : Adapter) (stdout : String) : Prop :=
  match a with
  | .opencode => OpenCode.Readable env stdout
  | .claudeCode => ClaudeCode.Readable env stdout

omit [PyNumber N] in
/-- Two values of a field of text are the same text if they are read as the same. -/
theorem text?_eq_of_decode {v w : PyValue N} (hv : v.isOptionalStr = true)
    (hw : w.isOptionalStr = true) (h : v.text?.map decode = w.text?.map decode) :
    v.text? = w.text? := by
  have hback : ∀ u : PyValue N, u.isOptionalStr = true →
      (u.text?.map decode).map pyStr = u.text? := by
    intro u hu
    cases u with
    | text s => exact congrArg some (pyStr_decode hu)
    | _ => rfl
  rw [← hback v hv, ← hback w hw, h]

/-! ## 1.  `opencode` -/

namespace OpenCode

theorem readable_eventsOnly {env : StreamEnv N F} {stdout : String} (h : Readable env stdout) :
    Readable env (eventsOnly env stdout) := by
  refine ⟨onlyObjects_eventsOnly env stdout, ?_, ?_, ?_, ?_⟩
  · exact (events_eventsOnly env stdout).symm ▸ h.parses
  · exact (events_eventsOnly env stdout).symm ▸ h.reads
  · exact (events_eventsOnly env stdout).symm ▸ h.summary
  · exact (events_eventsOnly env stdout).symm ▸ h.report

/-- What the readers make of these events. -/
def readingsOf (env : StreamEnv N F) (events : List (PyValue N)) : Readings F where
  report := report env events
  session :=
    { harness := .opencode, events := events.flatMap (newOf env)
      sessionId := (report env events).sessionId
      inputTokens := (report env events).inputTokens
      outputTokens := (report env events).outputTokens
      costUsd := (report env events).costUsd }
  denials := []
  deferral := none

/-- **When the readers of `opencode` return, and what.** -/
theorem returns_readings (env : StreamEnv N F) (stdout : String) (exitCode : ℤ) :
    Returns (readings env .opencode stdout exitCode) (Readable env stdout)
      (readingsOf env (events env stdout)) := by
  refine Returns.congr (.bind (returns_parse env stdout exitCode) (.bind
    (returns_normaliseSession env stdout) (.bind (.pure []) (.bind (.pure none) (.pure _))))) ?_
    fun _ => rfl
  constructor
  · rintro ⟨⟨hlines, hparses, hsummary, hreport⟩, ⟨-, hreads, -⟩, -⟩
    exact ⟨hlines, hparses, hreads, hsummary, hreport⟩
  · rintro ⟨hlines, hparses, hreads, hsummary, hreport⟩
    exact ⟨⟨hlines, hparses, hsummary, hreport⟩, ⟨hlines.loadable, hreads, hreport⟩, trivial, trivial,
      trivial⟩

end OpenCode

/-! ## 2.  `claude` -/

namespace ClaudeCode

/-- What the readers make of these events. -/
def readingsOf (env : StreamEnv N F) (events : List (PyValue N)) : Readings F where
  report := reportOf env (payloadOf events)
  session := sessionOf env events
  denials := denialsOf env events
  deferral := deferral env events

structure Returning (env : StreamEnv N F) (stdout : String) : Prop where
  lines : OnlyObjects env stdout
  denies : AllDeny env (events env stdout)
  session : SessionReads env (events env stdout)
  payload : PayloadParses env (events env stdout)

theorem returning_eventsOnly {env : StreamEnv N F} {stdout : String} (h : Returning env stdout) :
    Returning env (eventsOnly env stdout) := by
  refine ⟨onlyObjects_eventsOnly env stdout, ?_, ?_, ?_⟩
  · exact (events_eventsOnly env stdout).symm ▸ h.denies
  · exact (events_eventsOnly env stdout).symm ▸ h.session
  · exact (events_eventsOnly env stdout).symm ▸ h.payload

/-- **When the readers of `claude` return, and what.** -/
theorem returns_readings (env : StreamEnv N F) (stdout : String) (exitCode : ℤ) :
    Returns (readings env .claudeCode stdout exitCode) (Returning env stdout)
      (readingsOf env (events env stdout)) := by
  refine Returns.congr (.bind (returns_parse env stdout exitCode) (.bind
    (returns_normaliseSession env stdout) (.bind (returns_normaliseDenials env stdout) (.bind
      (returns_normaliseDeferral env stdout) (.pure _))))) ?_ fun _ => rfl
  constructor
  · rintro ⟨⟨-, hpayload⟩, ⟨hlines, hdenies, hsession⟩, -⟩
    exact ⟨hlines, hdenies, hsession, hpayload⟩
  · rintro ⟨hlines, hdenies, hsession, hpayload⟩
    exact ⟨⟨hlines.loadable, hpayload⟩, ⟨hlines, hdenies, hsession⟩, ⟨hlines, hdenies⟩,
      ⟨hlines.loadable, hsession.defers, hsession.call⟩, trivial⟩

/-- **Both report the same** exactly if the session id is the same. -/
theorem report_eq_iff {env : StreamEnv N F} {events : List (PyValue N)}
    (hsession : SessionReads env events) (hpayload : PayloadParses env events) :
    reportOf env (payloadOf events) = (sessionOf env events).report ↔
      ((payloadOf events).field "session_id").text? = (sessionIdOf events).text? := by
  have hid : ((payloadOf events).field "session_id").isOptionalStr = true := by
    by_cases hdict : (payloadOf events).isDict = true
    · exact (hpayload hdict).report.sessionId
    · rw [field_of_not_isDict hdict]
      rfl
  constructor
  · exact fun h => text?_eq_of_decode hid hsession.report.sessionId (congrArg Report.sessionId h)
  · intro h
    exact congrArg (fun id : Option PyStr => (⟨id.map decode, _, _, _⟩ : Report F)) h

end ClaudeCode

/-! ## 3.  Both adapters -/

/-- A stream of integers alone. -/
instance intNumber : PyNumber ℤ where
  zero := 0
  zeroFloat := 0
  ofBool b := if b then 1 else 0
  nonzero n := n ≠ 0
  add m n := some (m + n)
  int? := some

/-- The event that a run starts with. -/
def startLine : String := "\x7b\"type\": \"system\", \"session_id\": \"a\"\x7d"

/-- An environment that can load three texts. -/
def sampleEnv : StreamEnv ℤ ℤ where
  loads s :=
    if s = pyStr "[1]" then .value (.list [.number 1])
    else if s = pyStr startLine then
      .value (.dict [(pyStr "type", .text (pyStr "system")), (pyStr "session_id", .text (pyStr "a"))])
    else if s = pyStr "{}" then .value (.dict [])
    else .malformed
  loads_nil := by
    rw [if_neg (by decide), if_neg (by decide), if_neg (by decide)]
  intField v := v.int?
  floatField v := v.int?
  lower := id
  dumps _ := some []
  canonical _ := some []
  sha256 := id

end Kroker.Stream
