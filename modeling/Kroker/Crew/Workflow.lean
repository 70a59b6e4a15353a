import Kroker.Core.Config
import Kroker.Library.Run
import Mathlib.Algebra.Field.Rat

/-!
# The crew workflow

`CrewTaskWorkflow.run` of `workflows/crew.py`: rounds of a lead's turn, resumed after each tool
approval, and one turn of every other role; then the round is read and checkpointed, and the next
begins.

A state is the workflow between two of its awaits, and an event is the completion of what is
awaited.  The events `clock` are the points at which the loop reads the time; the timer that races
the lead's turn fires as `timerFired`.  Amounts of money are exact: the rounding of floating-point
addition is not modelled.

The tool approvals and the questions are opened through the host's gate, which here is an await that
returns a decision.  What a turn leaves besides its record (its transcript, its denials, its token
counts) plays no part in the control flow and is left out.
-/

namespace Kroker.Crew

structure TurnRecord where
  role : String
  round : ℕ
  sessionId : Option String := none
  costUsd : Option ℚ := none
  /-- Neither the heartbeat nor the error carried a reading. -/
  costIncomplete : Bool := false

structure RoundRecord where
  round : ℕ
  turns : List TurnRecord := []
  deliverablePath : Option String := none
  verdict : Option String := none
  critique : String := ""
  noteSummary : String := ""

def RoundRecord.costUsd (r : RoundRecord) : Option ℚ :=
  if r.turns.any (·.costIncomplete) then none
  else
    let vals := r.turns.map (·.costUsd)
    if vals.any (·.isNone) then none else some (vals.filterMap id).sum

/-- A tool call at which the lead is suspended. -/
structure DeferredToolUse where
  toolUseId : String
  tool : String
  ruleId : String
  target : Option String := none

inductive EscalationOutcome where
  | approved
  | rejected
  | timeout
  | capped

structure ToolEscalation where
  tool : String
  ruleId : String
  target : Option String
  outcome : EscalationOutcome
  decidedBy : DecidedBy
  round : ℕ := 0

/-- What a turn returns: its record, and the call at which it is suspended, if any. -/
structure TurnOutput where
  record : TurnRecord
  deferred : Option DeferredToolUse := none

/-- What `read_round` finds in the round's directory. -/
structure RoundReading where
  deliverablePath : Option String := none
  noteSummary : String := ""
  missing : Bool := false
  critique : String := ""
  verdict : Option String := none
  question : String := ""

structure CrewTaskInput where
  lead : String
  roles : List String
  sessions : Dict String := ∅
  roundsMax : ℤ := 1
  wallClockS : ℤ := 3000
  costUsd : ℚ := 25
  maxToolEscalations : ℤ := 3

inductive CrewExit where
  | ok
  | protocolViolation
  | roundsExhausted
  | deadline
  | budget
  | intentGap

def CrewExit.code : CrewExit → ℕ
  | .ok => 0
  | .protocolViolation => 65
  | .roundsExhausted => 66
  | .deadline => 67
  | .budget => 68
  | .intentGap => 69

structure CrewRunResult where
  exitCode : CrewExit
  summary : String
  sessionId : Option String
  costUsd : Option ℚ
  commitSha : Option String
  escalations : List ToolEscalation
  sessions : Dict String
  rounds : List RoundRecord

/-- The await points. -/
inductive CrewPhase where
  | starting
  | preparing
  /-- At the head of the loop over the rounds. -/
  | roundTop
  /-- The lead's turn races the timer; `asked` approvals so far, and whether the cap is reached. -/
  | lead (asked : ℕ) (capped : Bool)
  /-- At the gate for a tool approval. -/
  | approving (asked : ℕ) (call : DeferredToolUse)
  /-- At the head of the loop over the other roles. -/
  | criticTop (roles : List String)
  | critic (role : String) (rest : List String)
  /-- In the checkpoint of a round whose critics the deadline cut short. -/
  | lateCheckpoint
  | reading
  | checkpoint (reading : RoundReading)
  /-- At the gate for the lead's question. -/
  | asking (reading : RoundReading)
  | finished (result : CrewRunResult)
  | raised

/-- The workflow's state.  `_rounds` is the completed rounds and the current one. -/
structure CrewRun where
  phase : CrewPhase := .starting
  deadline : ℤ := 0
  rnd : ℕ := 0
  completed : List RoundRecord := []
  current : Option RoundRecord := none
  sessions : Dict String := ∅
  escalations : List ToolEscalation := []
  questions : ℕ := 0
  toolEscalations : ℕ := 0
  spent : ℚ := 0
  costIncomplete : Bool := false
  summary : String := ""
  commitSha : Option String := none

inductive CrewEvent where
  | started (now : ℤ)
  | prepared
  | clock (now : ℤ)
  | leadReturned (turn : TurnOutput)
  /-- The lead's turn raises an `ActivityError`, with the record its details carry, if any. -/
  | leadFailed (details : Option TurnRecord)
  | timerFired
  | approved (d : GateDecision)
  | criticReturned (turn : TurnOutput)
  | criticFailed (details : Option TurnRecord)
  | read (reading : RoundReading)
  | checkpointed (sha : String)
  | answered (d : GateDecision)
  /-- Anything else that is awaited raises. -/
  | raises

def recordFromFailure (details : Option TurnRecord) (role : String) (rnd : ℕ) : TurnRecord :=
  match details with
  | some payload => payload
  | none => { role, round := rnd, costIncomplete := true }

namespace CrewRun

variable (inp : CrewTaskInput)

def rounds (s : CrewRun) : List RoundRecord := s.completed ++ s.current.toList

/-- `run = HarnessRunResult(...)` and the return. -/
def finish (s : CrewRun) (exit : CrewExit) : CrewRun :=
  { s with
    phase := .finished
      { exitCode := exit
        summary := s.summary
        sessionId := s.sessions[inp.lead]?
        costUsd := if s.costIncomplete then none else some s.spent
        commitSha := s.commitSha
        escalations := s.escalations
        sessions := s.sessions
        rounds := s.rounds } }

/-- `record.turns.append(...)`. -/
def addTurn (s : CrewRun) (turn : TurnRecord) : CrewRun :=
  { s with current := s.current.map fun r => { r with turns := r.turns ++ [turn] } }

def addSession (s : CrewRun) (role : String) (turn : TurnRecord) : CrewRun :=
  match turn.sessionId with
  | none => s
  | some id => if id = "" then s else { s with sessions := s.sessions.insert role id }

/-- The loop over the rounds enters round `n`, or is exhausted. -/
def enterRound (s : CrewRun) (n : ℕ) : CrewRun :=
  if (n : ℤ) ≤ inp.roundsMax then
    { s with
      phase := .roundTop
      rnd := n }
  else s.finish inp .roundsExhausted

def afterLead (s : CrewRun) : CrewRun :=
  { s with phase := .criticTop (inp.roles.filter (· ≠ inp.lead)) }

def leadReturned (s : CrewRun) (turn : TurnOutput) (asked : ℕ) (capped : Bool) : CrewRun :=
  let s := (s.addTurn turn.record).addSession inp.lead turn.record
  match turn.deferred with
  | none => s.afterLead inp
  | some d =>
    if capped then s.afterLead inp
    else if inp.maxToolEscalations ≤ asked then
      { s with
        phase := .lead asked true
        escalations := s.escalations ++
          [{ tool := d.tool, ruleId := d.ruleId, target := d.target, outcome := .capped,
             decidedBy := .policy }] }
    else
      { s with
        phase := .approving (asked + 1) d
        toolEscalations := s.toolEscalations + 1 }

def leadFailed (s : CrewRun) (details : Option TurnRecord) : CrewRun :=
  let turn := recordFromFailure details inp.lead s.rnd
  { s.addTurn turn with costIncomplete := s.costIncomplete || turn.costIncomplete }.finish inp
    .protocolViolation

def approved (s : CrewRun) (d : GateDecision) (asked : ℕ) (call : DeferredToolUse) : CrewRun :=
  { s with
    phase := .lead asked false
    escalations := s.escalations ++
      [{ tool := call.tool
         ruleId := call.ruleId
         target := call.target
         outcome := if d.approved then .approved
           else if d.decidedBy = .timeout then .timeout else .rejected
         decidedBy := d.decidedBy
         round := s.toolEscalations }] }

def criticFailed (s : CrewRun) (details : Option TurnRecord) (role : String) (rest : List String) :
    CrewRun :=
  { s.addTurn (recordFromFailure details role s.rnd) with
    phase := .criticTop rest
    costIncomplete := true }

/-- The fields of the record that the reading fills. -/
def noteReading (s : CrewRun) (reading : RoundReading) : CrewRun :=
  { s with
    phase := .checkpoint reading
    current := s.current.map fun r =>
      { r with
        deliverablePath := reading.deliverablePath
        noteSummary := reading.noteSummary
        verdict := reading.verdict
        critique := reading.critique } }

/-- A completed round is summarised, and its cost spent if it is known. -/
def bookRound (s : CrewRun) (record : RoundRecord) : CrewRun :=
  let s := { s with
    summary := record.noteSummary
    completed := s.completed ++ [record]
    current := none }
  match record.costUsd with
  | none => { s with costIncomplete := true }
  | some rc => { s with spent := s.spent + rc }

def closeRound (s : CrewRun) (record : RoundRecord) : CrewRun :=
  let s := s.bookRound record
  if inp.roundsMax ≤ s.rnd then s.finish inp .ok
  else if inp.costUsd ≤ s.spent then s.finish inp .budget
  else s.enterRound inp (s.rnd + 1)

def afterQuestion (s : CrewRun) (reading : RoundReading) : CrewRun :=
  if reading.missing then s.finish inp .protocolViolation
  else match s.current with
    | none => s
    | some record => s.closeRound inp record

def checkpointed (s : CrewRun) (sha : String) (reading : RoundReading) : CrewRun :=
  let s := { s with commitSha := some sha }
  if reading.question = "" then s.afterQuestion inp reading
  else if 2 ≤ s.questions then s.finish inp .intentGap
  else
    { s with
      phase := .asking reading
      questions := s.questions + 1 }

/-- One event; `none` where it cannot occur. -/
def next (s : CrewRun) (e : CrewEvent) : Option CrewRun :=
  match s.phase, e with
  | .starting, .started now =>
    if inp.lead ∈ inp.roles then
      some
        { s with
          phase := .preparing
          deadline := now + inp.wallClockS
          sessions := inp.sessions }
    else some { s with phase := .raised }
  | .preparing, .prepared => some (s.enterRound inp 1)
  | .roundTop, .clock now =>
    if s.deadline - now ≤ 0 then some (s.finish inp .deadline)
    else
      some
        { s with
          phase := .lead 0 false
          current := some { round := s.rnd } }
  | .lead asked capped, .leadReturned turn => some (s.leadReturned inp turn asked capped)
  | .lead _ _, .leadFailed details => some (s.leadFailed inp details)
  | .lead _ _, .timerFired => some (s.finish inp .deadline)
  | .approving asked call, .approved d => some (s.approved d asked call)
  | .criticTop [], .clock _ => some { s with phase := .reading }
  | .criticTop (role :: rest), .clock now =>
    if s.deadline - now ≤ 0 then some { s with phase := .lateCheckpoint }
    else some { s with phase := .critic role rest }
  | .critic role rest, .criticReturned turn =>
    some { (s.addTurn turn.record).addSession role turn.record with phase := .criticTop rest }
  | .critic role rest, .criticFailed details => some (s.criticFailed details role rest)
  | .lateCheckpoint, .checkpointed sha => some ({ s with commitSha := some sha }.finish inp .deadline)
  | .reading, .read reading => some (s.noteReading reading)
  | .checkpoint reading, .checkpointed sha => some (s.checkpointed inp sha reading)
  | .asking reading, .answered _ => some (s.afterQuestion inp reading)
  | .finished _, _ => none
  | .raised, _ => none
  | .starting, _ => none
  | .roundTop, _ => none
  | .criticTop _, _ => none
  | _, .raises => some { s with phase := .raised }
  | _, _ => none

end CrewRun

end Kroker.Crew
