import Kroker.Crew.Workflow
import Mathlib.Tactic.Linarith

/-!
# The deadline of a crew

`CrewTaskWorkflow.run` sets a deadline when it starts, and gives a turn
`min(inp.turn_timeout_s, int(remaining))` seconds, where `remaining` is the time up to the deadline.
Here the workflow of `Kroker.Crew.Workflow` runs against a clock of microseconds, and the attempts
at turns are recorded with the time at which each is started (`TimedRun.starts`).

The workflow takes no time between two awaits, so that a turn starts when it is scheduled; anything
that is awaited takes any time, and the timer that races the lead's turn may fire at any.  The
server makes a second attempt at a turn whose first is lost (`maximum_attempts=2`), with the timeout
of the first.

## What is lost

The time is read once for a round.  A lead that is resumed, after a tool approval or to be told that
there is none, is given the time that was read before its first turn; and so is a second attempt.
The approval is a gate, which a person may answer after the deadline.  Besides, `_turn_act` adds a
minute to the timeout of every activity, which the time left is not cut for.
-/

namespace Kroker.Crew

/-! ## 1.  The crew with a clock -/

def second : ℤ := 1000000

/-- `int` of a duration in seconds. -/
def wholeSeconds (d : ℤ) : ℤ := d.tdiv second

def CrewTaskInput.micro (inp : CrewTaskInput) : CrewTaskInput :=
  { inp with wallClockS := inp.wallClockS * second }

/-- An attempt at a turn: when it is started, the time that is taken to be left, and the
`turn_timeout_s` it is given. -/
structure TurnStart where
  start : ℤ
  remaining : ℤ
  turnTimeoutS : ℤ
  deriving DecidableEq

/-- `start_to_close_timeout` of `_turn_act`. -/
def TurnStart.startToCloseS (t : TurnStart) : ℤ := t.turnTimeoutS + 60

/-- The time that the workflow reads. -/
def CrewEvent.readAt : CrewEvent → Option ℤ
  | .started now => some now
  | .clock now => some now
  | _ => none

/-- Whether a turn runs. -/
def CrewPhase.turn : CrewPhase → Bool
  | .lead _ _ => true
  | .critic _ _ => true
  | _ => false

/-- A crew with its clock.  `remaining` is what was read last, for the lead or, as `left`, for a
critic. -/
structure TimedRun where
  run : CrewRun := {}
  now : ℤ := 0
  remaining : ℤ := 0
  attempts : ℕ := 0
  starts : List TurnStart := []

inductive TimedEvent where
  | tick (elapsed : ℕ)
  | crew (e : CrewEvent)
  /-- The first attempt at a turn is lost, and the server makes the second. -/
  | retried

namespace TimedRun

variable (inp : CrewTaskInput) (turnTimeoutS : ℤ)

/-- An attempt is started, with `min(inp.turn_timeout_s, int(remaining))`. -/
def begin (s : TimedRun) : TimedRun :=
  { s with
    attempts := s.attempts + 1
    starts := s.starts ++
      [{ start := s.now
         remaining := s.remaining
         turnTimeoutS := min turnTimeoutS (wholeSeconds s.remaining) }] }

/-- The workflow goes on to its next await. -/
def goOn (s : TimedRun) (e : CrewEvent) (run : CrewRun) : TimedRun :=
  { s with
    run
    attempts := 0
    remaining := match e with
      | .clock now => run.deadline - now
      | _ => s.remaining }

def await (s : TimedRun) : TimedRun := if s.run.phase.turn then s.begin turnTimeoutS else s

def next (s : TimedRun) : TimedEvent → Option TimedRun
  | .tick elapsed => some { s with now := s.now + elapsed }
  | .crew e =>
    if e.readAt.all (· = s.now) then
      (s.run.next inp.micro e).map fun run => (s.goOn e run).await turnTimeoutS
    else none
  | .retried => if s.run.phase.turn ∧ s.attempts < 2 then some (s.begin turnTimeoutS) else none

end TimedRun

/-! ## 2.  What is asked of the turns -/

namespace TurnStart

variable (t : TurnStart) (deadline : ℤ)

/-- The activity's timeout ends by the deadline, which lies ahead. -/
def InTime : Prop := t.start + t.startToCloseS * second ≤ deadline ∧ t.start < deadline

def OwnInTime : Prop := t.start + t.turnTimeoutS * second ≤ deadline ∧ t.start < deadline

/-- There is time for a whole turn and the minute that `_turn_act` adds. -/
def Room (turnTimeoutS : ℤ) : Prop :=
  (turnTimeoutS + 60) * second ≤ deadline - t.start ∧ 0 < deadline - t.start

def OwnRoom (turnTimeoutS : ℤ) : Prop :=
  (turnTimeoutS * second ≤ deadline - t.start ∨
    wholeSeconds t.remaining * second ≤ deadline - t.start) ∧ 0 < deadline - t.start

end TurnStart

/-! ## 3.  Where the workflow starts turns -/

/-- The phases in which the time that was read is used again, or a turn runs that was given it. -/
def CrewPhase.timed : CrewPhase → Bool
  | .lead _ _ => true
  | .approving _ _ => true
  | .critic _ _ => true
  | _ => false

theorem CrewPhase.timed_of_turn {phase : CrewPhase} (h : phase.turn = true) :
    phase.timed = true := by
  cases phase with
  | lead asked capped => rfl
  | critic role rest => rfl
  | _ => exact Bool.noConfusion h

namespace CrewRun

variable {inp : CrewTaskInput} {s s' : CrewRun}

/-- A step that leaves the deadline alone, and no turn running. -/
structure Calm (s s' : CrewRun) : Prop where
  deadline : s'.deadline = s.deadline
  timed : s'.phase.timed = false
  started : s'.phase ≠ .starting

theorem calm_finish (s : CrewRun) (exit : CrewExit) : Calm s (s.finish inp exit) :=
  ⟨rfl, rfl, nofun⟩

theorem calm_enterRound (s : CrewRun) (n : ℕ) : Calm s (s.enterRound inp n) := by
  rw [enterRound]
  split
  · exact ⟨rfl, rfl, nofun⟩
  · exact calm_finish s _

theorem bookRound_deadline (s : CrewRun) (record : RoundRecord) :
    (s.bookRound record).deadline = s.deadline := by
  rw [bookRound]
  split <;> rfl

theorem calm_closeRound (s : CrewRun) (record : RoundRecord) :
    Calm s (s.closeRound inp record) := by
  have hbooked : ∀ {s'}, Calm (s.bookRound record) s' → Calm s s' := fun h =>
    ⟨h.deadline.trans (bookRound_deadline s record), h.timed, h.started⟩
  rw [closeRound]
  split
  · exact hbooked (calm_finish _ _)
  · split
    · exact hbooked (calm_finish _ _)
    · exact hbooked (calm_enterRound _ _)

theorem calm_afterQuestion (htimed : s.phase.timed = false) (hstarted : s.phase ≠ .starting)
    (reading : RoundReading) : Calm s (s.afterQuestion inp reading) := by
  rw [afterQuestion]
  split
  · exact calm_finish s _
  · split
    · exact ⟨rfl, htimed, hstarted⟩
    · exact calm_closeRound s _

theorem calm_checkpointed (htimed : s.phase.timed = false) (hstarted : s.phase ≠ .starting)
    (sha : String) (reading : RoundReading) : Calm s (s.checkpointed inp sha reading) := by
  rw [checkpointed]
  dsimp only
  split
  · obtain ⟨hdeadline, hnone, hnext⟩ :=
      @calm_afterQuestion inp { s with commitSha := some sha } htimed hstarted reading
    exact ⟨hdeadline, hnone, hnext⟩
  · split
    · exact ⟨rfl, rfl, nofun⟩
    · exact ⟨rfl, rfl, nofun⟩

theorem addSession_deadline (s : CrewRun) (role : String) (turn : TurnRecord) :
    (s.addSession role turn).deadline = s.deadline := by
  rw [addSession]
  split
  · rfl
  · split <;> rfl

theorem leadReturned_deadline (s : CrewRun) (turn : TurnOutput) (asked : ℕ) (capped : Bool) :
    (s.leadReturned inp turn asked capped).deadline = s.deadline ∧
      (s.leadReturned inp turn asked capped).phase ≠ .starting := by
  have hdeadline := addSession_deadline (s.addTurn turn.record) inp.lead turn.record
  unfold leadReturned
  dsimp only
  split
  · exact ⟨hdeadline, nofun⟩
  · split
    · exact ⟨hdeadline, nofun⟩
    · split
      · exact ⟨hdeadline, nofun⟩
      · exact ⟨hdeadline, nofun⟩

/-- **Where turns are started**: where the time is read and is not past, or after a turn of the
lead, with the time that was read before it. -/
structure Moves (s : CrewRun) (e : CrewEvent) (s' : CrewRun) : Prop where
  deadline : s.phase ≠ .starting → s'.deadline = s.deadline
  started : s'.phase ≠ .starting
  timed : s'.phase.timed = true → (∃ now, e = .clock now ∧ 0 < s'.deadline - now) ∨
    (∀ now, e ≠ .clock now) ∧ s.phase.timed = true

theorem Calm.moves (h : Calm s s') (e : CrewEvent) : Moves s e s' :=
  ⟨fun _ => h.deadline, h.started, fun ht => absurd (h.timed.symm.trans ht) (by decide)⟩

theorem moves_next {e : CrewEvent} (h : next inp s e = some s') : Moves s e s' := by
  unfold next at h
  split at h
  · rename_i now hphase
    split at h
    · obtain rfl := Option.some.inj h
      exact ⟨fun hne => absurd hphase hne, nofun, nofun⟩
    · obtain rfl := Option.some.inj h
      exact ⟨fun _ => rfl, nofun, nofun⟩
  · obtain rfl := Option.some.inj h
    exact (calm_enterRound s 1).moves _
  · rename_i now hphase
    split at h
    · obtain rfl := Option.some.inj h
      exact (calm_finish s _).moves _
    · rename_i hleft
      obtain rfl := Option.some.inj h
      exact ⟨fun _ => rfl, nofun, fun _ => .inl ⟨now, rfl, not_le.mp hleft⟩⟩
  · rename_i asked capped turn hphase
    obtain rfl := Option.some.inj h
    obtain ⟨hdeadline, hstarted⟩ := @leadReturned_deadline inp s turn asked capped
    exact ⟨fun _ => hdeadline, hstarted, fun _ => .inr ⟨nofun, by rw [hphase]; rfl⟩⟩
  · obtain rfl := Option.some.inj h
    exact ⟨fun _ => rfl, nofun, nofun⟩
  · obtain rfl := Option.some.inj h
    exact (calm_finish s _).moves _
  · rename_i asked call d hphase
    obtain rfl := Option.some.inj h
    exact ⟨fun _ => rfl, nofun, fun _ => .inr ⟨nofun, by rw [hphase]; rfl⟩⟩
  · obtain rfl := Option.some.inj h
    exact ⟨fun _ => rfl, nofun, nofun⟩
  · rename_i role rest now hphase
    split at h
    · obtain rfl := Option.some.inj h
      exact ⟨fun _ => rfl, nofun, nofun⟩
    · rename_i hleft
      obtain rfl := Option.some.inj h
      exact ⟨fun _ => rfl, nofun, fun _ => .inl ⟨now, rfl, not_le.mp hleft⟩⟩
  · rename_i role rest turn hphase
    obtain rfl := Option.some.inj h
    exact ⟨fun _ => addSession_deadline _ _ _, nofun, nofun⟩
  · obtain rfl := Option.some.inj h
    exact ⟨fun _ => rfl, nofun, nofun⟩
  · obtain rfl := Option.some.inj h
    exact ⟨fun _ => rfl, nofun, nofun⟩
  · obtain rfl := Option.some.inj h
    exact ⟨fun _ => rfl, nofun, nofun⟩
  · rename_i reading sha hphase
    obtain rfl := Option.some.inj h
    exact (calm_checkpointed (by rw [hphase]; rfl) (by rw [hphase]; nofun) sha reading).moves _
  · rename_i reading d hphase
    obtain rfl := Option.some.inj h
    exact (calm_afterQuestion (by rw [hphase]; rfl) (by rw [hphase]; nofun) reading).moves _
  · exact nomatch h
  · exact nomatch h
  · exact nomatch h
  · exact nomatch h
  · exact nomatch h
  · obtain rfl := Option.some.inj h
    exact ⟨fun _ => rfl, nofun, nofun⟩
  · exact nomatch h

end CrewRun

/-! ## 4.  What holds of the turns that are started -/

section Arithmetic

variable {t : TurnStart} {turnTimeoutS deadline : ℤ}

theorem wholeSeconds_mul_le {d : ℤ} (hd : 0 ≤ d) : wholeSeconds d * second ≤ d := by
  rw [wholeSeconds, Int.tdiv_eq_ediv_of_nonneg hd]
  exact Int.ediv_mul_le d (by decide)

theorem lt_wholeSeconds_mul {d : ℤ} (hd : 0 ≤ d) : d < (wholeSeconds d + 1) * second := by
  rw [wholeSeconds, Int.tdiv_eq_ediv_of_nonneg hd]
  exact Int.lt_ediv_add_one_mul_self d (by decide)

/-- What the workflow knows of an attempt: at least as much time as there is was read, and the
attempt is given what the whole seconds of it allow. -/
structure TurnStart.Given (t : TurnStart) (turnTimeoutS deadline : ℤ) : Prop where
  ahead : 0 < t.remaining
  left : deadline - t.start ≤ t.remaining
  timeout : t.turnTimeoutS = min turnTimeoutS (wholeSeconds t.remaining)

namespace TurnStart

theorem inTime_iff (h : t.Given turnTimeoutS deadline) :
    t.InTime deadline ↔ t.Room deadline turnTimeoutS := by
  have hunit : (0 : ℤ) < second := by decide
  have hfit : (t.turnTimeoutS + 60) * second ≤ deadline - t.start ↔
      (turnTimeoutS + 60) * second ≤ deadline - t.start := by
    rcases le_total turnTimeoutS (wholeSeconds t.remaining) with hle | hle
    · rw [h.timeout, min_eq_left hle]
    · have hlast := lt_wholeSeconds_mul h.ahead.le
      rw [h.timeout, min_eq_right hle]
      constructor
      · intro hroom
        have hover : (wholeSeconds t.remaining + 60) * second <
            (wholeSeconds t.remaining + 1) * second :=
          lt_of_le_of_lt hroom (lt_of_le_of_lt h.left hlast)
        have hminute := lt_of_mul_lt_mul_right hover hunit.le
        omega
      · intro hroom
        have hmono := mul_le_mul_of_nonneg_right (add_le_add_left hle 60) hunit.le
        exact hmono.trans hroom
  show t.start + (t.turnTimeoutS + 60) * second ≤ deadline ∧ t.start < deadline ↔
    (turnTimeoutS + 60) * second ≤ deadline - t.start ∧ 0 < deadline - t.start
  rw [← hfit]
  constructor
  · rintro ⟨hend, hstart⟩
    exact ⟨by omega, by omega⟩
  · rintro ⟨hend, hstart⟩
    exact ⟨by omega, by omega⟩

theorem ownInTime_iff (h : t.Given turnTimeoutS deadline) :
    t.OwnInTime deadline ↔ t.OwnRoom deadline turnTimeoutS := by
  have hunit : (0 : ℤ) < second := by decide
  have hfit : t.turnTimeoutS * second ≤ deadline - t.start ↔
      turnTimeoutS * second ≤ deadline - t.start ∨
        wholeSeconds t.remaining * second ≤ deadline - t.start := by
    rw [h.timeout, min_mul_of_nonneg _ _ hunit.le, min_le_iff]
  show t.start + t.turnTimeoutS * second ≤ deadline ∧ t.start < deadline ↔
    (turnTimeoutS * second ≤ deadline - t.start ∨
      wholeSeconds t.remaining * second ≤ deadline - t.start) ∧ 0 < deadline - t.start
  rw [← hfit]
  constructor
  · rintro ⟨hend, hstart⟩
    exact ⟨by omega, by omega⟩
  · rintro ⟨hend, hstart⟩
    exact ⟨by omega, by omega⟩

/-- **Where the time is read as the turn starts, there is room for the turn's own timeout.** -/
theorem ownRoom_of_read (h : t.Given turnTimeoutS deadline)
    (hread : t.remaining = deadline - t.start) : t.OwnRoom deadline turnTimeoutS := by
  refine ⟨.inr ?_, hread ▸ h.ahead⟩
  rw [← hread]
  exact wholeSeconds_mul_le h.ahead.le

end TurnStart

end Arithmetic

namespace TimedRun

variable {inp : CrewTaskInput} {turnTimeoutS : ℤ} {s s' : TimedRun}

/-- **The invariant.**  The time that was read is never less than what is left. -/
structure Kept (turnTimeoutS : ℤ) (s : TimedRun) : Prop where
  fresh : s.run.phase = .starting → s.starts = []
  given : ∀ t ∈ s.starts, t.Given turnTimeoutS s.run.deadline
  timed : s.run.phase.timed = true → 0 < s.remaining ∧ s.run.deadline - s.now ≤ s.remaining

theorem kept_begin (h : Kept turnTimeoutS s) (hturn : s.run.phase.turn = true) :
    Kept turnTimeoutS (s.begin turnTimeoutS) := by
  have htimed := h.timed (CrewPhase.timed_of_turn hturn)
  refine ⟨fun hphase => ?_, fun t ht => ?_, fun _ => htimed⟩
  · rw [show s.run.phase = .starting from hphase] at hturn
    exact Bool.noConfusion hturn
  · rcases List.mem_append.mp ht with hold | hnew
    · exact h.given t hold
    · obtain rfl := List.mem_singleton.mp hnew
      exact ⟨htimed.1, htimed.2, rfl⟩

theorem kept_goOn {e : CrewEvent} {run : CrewRun} (h : Kept turnTimeoutS s)
    (hread : e.readAt.all (· = s.now) = true) (hmoves : CrewRun.Moves s.run e run) :
    Kept turnTimeoutS (s.goOn e run) := by
  refine ⟨fun hphase => absurd hphase hmoves.started, fun t ht => ?_, fun htimed => ?_⟩
  · have hne : s.run.phase ≠ .starting := fun hphase =>
      absurd (h.fresh hphase) (List.ne_nil_of_mem ht)
    show t.Given turnTimeoutS run.deadline
    rw [hmoves.deadline hne]
    exact h.given t ht
  · rcases hmoves.timed htimed with ⟨now, rfl, hahead⟩ | ⟨hno, hold⟩
    · -- the time is read: what is left is what was read
      have hnow : now = s.now := by simpa [CrewEvent.readAt] using hread
      refine ⟨hahead, ?_⟩
      show run.deadline - s.now ≤ run.deadline - now
      rw [hnow]
    · -- the time that was read before is kept
      obtain ⟨hahead, hleft⟩ := h.timed hold
      have hne : s.run.phase ≠ .starting := fun hphase => by
        rw [hphase] at hold
        exact Bool.noConfusion hold
      have hkept : (s.goOn e run).remaining = s.remaining := by
        cases e with
        | clock now => exact absurd rfl (hno now)
        | _ => rfl
      rw [hkept]
      refine ⟨hahead, ?_⟩
      show run.deadline - s.now ≤ s.remaining
      rw [hmoves.deadline hne]
      exact hleft

theorem kept_await (h : Kept turnTimeoutS s) : Kept turnTimeoutS (s.await turnTimeoutS) := by
  rw [await]
  split
  · rename_i hturn
    exact kept_begin h hturn
  · exact h

theorem kept_next {e : TimedEvent} (h : Kept turnTimeoutS s)
    (hstep : next inp turnTimeoutS s e = some s') : Kept turnTimeoutS s' := by
  unfold next at hstep
  split at hstep
  · rename_i elapsed
    obtain rfl := Option.some.inj hstep
    refine ⟨h.fresh, h.given, fun htimed => ?_⟩
    obtain ⟨hahead, hleft⟩ := h.timed htimed
    exact ⟨hahead, by show s.run.deadline - (s.now + elapsed) ≤ s.remaining; omega⟩
  · split at hstep
    · rename_i e hread
      obtain ⟨run, hrun, rfl⟩ := Option.map_eq_some_iff.mp hstep
      exact kept_await (kept_goOn h hread (CrewRun.moves_next hrun))
    · exact nomatch hstep
  · split at hstep
    · rename_i hturn
      obtain rfl := Option.some.inj hstep
      exact kept_begin h hturn.1
    · exact nomatch hstep

theorem kept_of_reachable {t : ℤ} (h : Reachable { now := t } (next inp turnTimeoutS) s) :
    Kept turnTimeoutS s :=
  h.induct (P := Kept turnTimeoutS)
    ⟨fun _ => rfl, fun _ hnone => absurd hnone List.not_mem_nil,
      fun hnone => Bool.noConfusion hnone⟩
    fun _ _ _ _ hkept hstep => kept_next hkept hstep

/-! ## 5.  When the turns end in time -/

/-- **The turns end in time exactly where there was room for them**, with the minute that
`_turn_act` adds or without.  Without it, there always is where the time is read for the turn
itself. -/
theorem starts_inTime_iff (inp : CrewTaskInput) (turnTimeoutS t : ℤ) (s : TimedRun)
    (h : Reachable { now := t } (next inp turnTimeoutS) s) :
    ((∀ st ∈ s.starts, st.InTime s.run.deadline) ↔
        ∀ st ∈ s.starts, st.Room s.run.deadline turnTimeoutS) ∧
      ((∀ st ∈ s.starts, st.OwnInTime s.run.deadline) ↔
        ∀ st ∈ s.starts, st.OwnRoom s.run.deadline turnTimeoutS) ∧
      ∀ st ∈ s.starts, st.remaining = s.run.deadline - st.start →
        st.OwnInTime s.run.deadline := by
  have hgiven := (kept_of_reachable h).given
  refine ⟨?_, ?_, fun st hst hread => ?_⟩
  · exact forall₂_congr fun st hst => TurnStart.inTime_iff (hgiven st hst)
  · exact forall₂_congr fun st hst => TurnStart.ownInTime_iff (hgiven st hst)
  · have hroom := TurnStart.ownRoom_of_read (hgiven st hst) hread
    exact (TurnStart.ownInTime_iff (hgiven st hst)).mpr hroom

/-- A crew of one, with the limits that are the defaults. -/
def loneInput : CrewTaskInput where
  lead := "lead"
  roles := ["lead"]

def askingScript : List TimedEvent :=
  [.crew (.started 0), .crew .prepared, .crew (.clock 0), .tick 60000000,
    .crew (.leadReturned
      { record := { role := "lead", round := 1 }
        deferred := some { toolUseId := "use-1", tool := "Bash", ruleId := "network" } })]

/-- The approval comes `waited` later. -/
def approvedScript (waited : ℕ) : List TimedEvent :=
  askingScript ++
    [.tick waited,
      .crew (.approved { gate := "tool_approval", outcome := .approve, decidedBy := .human })]

theorem exists_approvedRun (waited : ℕ) (hwaited : waited = 60000000 ∨ waited = 3040000000) :
    ∃ s, Reachable { now := 0 } (next loneInput 1800) s ∧ s.run.deadline = 3000 * second ∧
      s.starts = [⟨0, 3000 * second, 1800⟩, ⟨60 * second + waited, 3000 * second, 1800⟩] := by
  have heval : (runScript (next loneInput 1800) ([], { now := 0 }) (approvedScript waited)).map
      (fun q => (q.2.run.deadline, q.2.starts)) = some (3000 * second,
        [⟨0, 3000 * second, 1800⟩, ⟨60 * second + waited, 3000 * second, 1800⟩]) := by
    rcases hwaited with rfl | rfl <;> decide +kernel
  obtain ⟨log, s, run, hview⟩ := Run.exists_of_runScript heval
  obtain ⟨hdeadline, hstarts⟩ := Prod.mk.inj hview
  exact ⟨s, ⟨log, run⟩, hdeadline, hstarts⟩

/-- Where the approval takes a minute, both turns are in time. -/
theorem starts_inTime_iff_sample : ∃ s, Reachable { now := 0 } (next loneInput 1800) s ∧
    s.starts.length = 2 ∧ ∀ st ∈ s.starts, st.InTime s.run.deadline := by
  obtain ⟨s, h, hdeadline, hstarts⟩ := exists_approvedRun 60000000 (.inl rfl)
  refine ⟨s, h, by rw [hstarts]; rfl, (starts_inTime_iff loneInput 1800 0 s h).1.mpr ?_⟩
  rw [hstarts, hdeadline]
  intro st hst
  rcases List.mem_pair.mp hst with rfl | rfl
  · exact ⟨by decide, by decide⟩
  · exact ⟨by decide, by decide⟩

/-- Where it comes after the deadline, a turn is started nevertheless, and given half an hour. -/
theorem late_turn : ¬ ∀ (inp : CrewTaskInput) (turnTimeoutS t : ℤ) (s : TimedRun),
    Reachable { now := t } (next inp turnTimeoutS) s →
      ∀ st ∈ s.starts, st.InTime s.run.deadline := by
  intro hall
  obtain ⟨s, h, hdeadline, hstarts⟩ := exists_approvedRun 3040000000 (.inr rfl)
  have hlate : (⟨60 * second + (3040000000 : ℕ), 3000 * second, 1800⟩ : TurnStart) ∈ s.starts := by
    rw [hstarts]
    exact List.mem_pair.mpr (.inr rfl)
  have hstart := (hall loneInput 1800 0 s h _ hlate).2
  rw [hdeadline] at hstart
  exact absurd hstart (by decide)

end TimedRun

end Kroker.Crew
