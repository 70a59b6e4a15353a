import Kroker.Dashboard.Fleet
import Mathlib.Algebra.Order.Field.Rat

/-!
# The poller of the fleet

`FleetPoller` of `dashboard/fleet.py`: one poll loop for all subscribers, started by the first of
them and stopped a grace period after the last has left.  The methods run as tasks of one event
loop, so that what stands between two awaits is one event, and the events of the tasks come in any
order: a loop gets the lock, its fan-out ends, it wakes; a call of `snapshot` gets the lock, and
returns; the timer of a stop fires, the task it makes runs, and the loop that this task cancels
ends.  `Enabled` says when an event can be, `apply` what it does, and `Law` what is asked of every
run.

A task that is cancelled ends where it awaits, as `asyncio` has it, so that a cancelled loop has one
event left.  Any task that waits for the lock may get it, whatever the order in which they came.
The clock of the snapshots is not the time of the event loop, and its readings come with the
events.  Nothing outside calls `aclose`.
-/

namespace Kroker

open Fleet

/-! ## 1.  The tasks -/

/-- Where a poll loop is suspended: it has yet to get the lock, it has the lock and fans out, or it
sleeps until a time. -/
inductive LoopStage where
  | waiting
  | fetching
  | sleeping (wakes : ℚ)
  deriving DecidableEq

/-- A task of `_loop` that is not done. -/
structure LoopTask where
  id : ℕ
  stage : LoopStage := .waiting
  cancelled : Bool := false
  deriving DecidableEq

/-- A call that is not done, of `snapshot`, or else of `_client_or_connect`. -/
structure PollerCall where
  id : ℕ
  fansOut : Bool
  holding : Bool := false

/-- A task of `_stop_if_idle` that is not done: it has yet to run, or it awaits a loop that it has
cancelled. -/
structure StopTask where
  id : ℕ
  awaiting : Option ℕ := none

/-- A queue that `subscribe` yields. -/
structure Subscriber where
  id : ℕ
  queue : List FleetSnapshot := []

/-- An `asyncio.TimerHandle`. -/
structure StopHandle where
  deadline : ℚ
  fired : Bool := false

/-- The task that holds the lock. -/
inductive Holder where
  | loop (id : ℕ)
  | call (id : ℕ)
  deriving DecidableEq

/-- A `FleetPoller`, with the tasks that run its methods.  `created` numbers the tasks and the
queues. -/
structure FleetPoller where
  time : ℚ := 0
  created : ℕ := 0
  cached : Option FleetSnapshot := none
  subscribers : Table Subscriber.id := ∅
  task : Option ℕ := none
  stopHandle : Option StopHandle := none
  lock : Option Holder := none
  loops : Table LoopTask.id := ∅
  calls : Table PollerCall.id := ∅
  stops : Table StopTask.id := ∅

/-- What happens between two awaits. -/
inductive PollerEvent where
  /-- The time of the event loop passes. -/
  | tick (elapsed : ℚ)
  | subscribe
  | unsubscribe (id : ℕ)
  /-- A subscriber takes the oldest snapshot of its queue. -/
  | get (id : ℕ)
  /-- A loop gets the lock, and fans out. -/
  | loopEnters (id : ℕ)
  /-- The fan-out of a loop has a snapshot, or raises. -/
  | loopFetched (id : ℕ) (result : Option FleetSnapshot)
  | loopWakes (id : ℕ)
  /-- A loop that was cancelled ends. -/
  | loopCancelled (id : ℕ)
  | call (fansOut : Bool)
  /-- A call gets the lock, and reads the clock. -/
  | callEnters (id : ℕ) (clock : ℤ)
  /-- The fan-out of a call has a snapshot. -/
  | callFetched (id : ℕ) (snap : FleetSnapshot)
  /-- A call ends in another way: it raises, it is cancelled, or it has its client. -/
  | callEnds (id : ℕ)
  | timerFires
  /-- A task of `_stop_if_idle` runs. -/
  | stopRuns (id : ℕ)
  /-- The loop that a task of `_stop_if_idle` awaits is done. -/
  | stopFinishes (id : ℕ)

namespace FleetPoller

/-! ## 2.  The methods -/

section Methods

variable (interval grace : ℚ) (s : FleetPoller)

def running : Bool := s.task.any fun i => (s.loops.find? i).isSome

/-- `_fresh`; the clock and `at` count microseconds. -/
def fresh (clock : ℤ) : Bool :=
  match s.cached with
  | none => false
  | some snap => ((clock - snap.at_ : ℤ) : ℚ) / 1000000 < 2 * interval

def cancelPendingStop : FleetPoller := { s with stopHandle := none }

def scheduleStop : FleetPoller :=
  { s.cancelPendingStop with stopHandle := some { deadline := s.time + grace } }

/-- `self._task = asyncio.create_task(self._loop())`. -/
def createTask : FleetPoller :=
  { s with
    loops := s.loops.insertNew { id := s.created }
    task := some s.created
    created := s.created + 1 }

/-- `subscribe`, up to its `yield`. -/
def subscribe : FleetPoller :=
  let s := { s.cancelPendingStop with
    subscribers := s.subscribers.insertNew { id := s.created }
    created := s.created + 1 }
  if s.running then s else s.createTask

/-- `subscribe`, after its `yield`. -/
def unsubscribe (id : ℕ) : FleetPoller :=
  let s := { s with subscribers := s.subscribers.erase id }
  if s.subscribers.rows = [] then s.scheduleStop grace else s

/-- `aclose`, as far as the task that calls it awaits the loop. -/
def aclose (caller : ℕ) : FleetPoller :=
  let closed := { s.cancelPendingStop with task := none }
  match s.task with
  | none => { closed with stops := s.stops.erase caller }
  | some i =>
    if (s.loops.find? i).isSome then
      { closed with
        loops := s.loops.modify i (fun t => { t with cancelled := true }) fun _ h => h
        stops := s.stops.modify caller (fun t => { t with awaiting := some i }) fun _ h => h }
    else { closed with stops := s.stops.erase caller }

def stopIfIdle (id : ℕ) : FleetPoller :=
  if s.subscribers.rows = [] then s.aclose id else { s with stops := s.stops.erase id }

/-- A snapshot is put in a queue, which drops its oldest where it is full. -/
def push (queue : List FleetSnapshot) (snap : FleetSnapshot) : List FleetSnapshot :=
  (if 8 ≤ queue.length then queue.tail else queue) ++ [snap]

def setStage (id : ℕ) (stage : LoopStage) : FleetPoller :=
  { s with loops := s.loops.modify id (fun t => { t with stage := stage }) fun _ h => h }

def release (holder : Holder) : FleetPoller :=
  if s.lock = some holder then { s with lock := none } else s

/-- The snapshot of a loop is kept, and put in every queue. -/
def publish (snap : FleetSnapshot) : FleetPoller :=
  { s with
    cached := some snap
    subscribers := ⟨s.subscribers.rows.map fun q => { q with queue := push q.queue snap }, by
      rw [List.map_map]
      exact s.subscribers.keys_nodup⟩ }

/-- A call that has the lock returns the snapshot, where it is fresh; or it keeps the lock, to fan
out or to connect. -/
def callEnters (id : ℕ) (clock : ℤ) : FleetPoller :=
  if s.fresh interval clock ∧ ∃ c ∈ s.calls.rows, c.id = id ∧ c.fansOut = true then
    { s with calls := s.calls.erase id }
  else
    { s with
      calls := s.calls.modify id (fun c => { c with holding := true }) fun _ h => h
      lock := some (.call id) }

def apply : PollerEvent → FleetPoller
  | .tick elapsed => { s with time := s.time + elapsed }
  | .subscribe => s.subscribe
  | .unsubscribe id => s.unsubscribe grace id
  | .get id =>
    { s with
      subscribers := s.subscribers.modify id (fun q => { q with queue := q.queue.tail })
        fun _ h => h }
  | .loopEnters id => { s.setStage id .fetching with lock := some (.loop id) }
  | .loopFetched id result =>
    let s := (s.setStage id (.sleeping (s.time + interval))).release (.loop id)
    match result with
    | none => s
    | some snap => s.publish snap
  | .loopWakes id => s.setStage id .waiting
  | .loopCancelled id => { s.release (.loop id) with loops := s.loops.erase id }
  | .call fansOut =>
    { s with
      calls := s.calls.insertNew { id := s.created, fansOut := fansOut }
      created := s.created + 1 }
  | .callEnters id clock => s.callEnters interval id clock
  | .callFetched id snap =>
    { s.release (.call id) with calls := s.calls.erase id, cached := some snap }
  | .callEnds id => { s.release (.call id) with calls := s.calls.erase id }
  | .timerFires =>
    { s with
      stopHandle := s.stopHandle.map fun h => { h with fired := true }
      stops := s.stops.insertNew { id := s.created }
      created := s.created + 1 }
  | .stopRuns id => s.stopIfIdle id
  | .stopFinishes id => { s with stops := s.stops.erase id }

def LoopStage.wakesBy (time : ℚ) : LoopStage → Bool
  | .sleeping wakes => wakes ≤ time
  | _ => false

def Enabled : PollerEvent → Prop
  | .tick elapsed => 0 ≤ elapsed
  | .subscribe => True
  | .unsubscribe id => ∃ q ∈ s.subscribers.rows, q.id = id
  | .get id => ∃ q ∈ s.subscribers.rows, q.id = id ∧ q.queue ≠ []
  | .loopEnters id => s.lock = none ∧
    ∃ t ∈ s.loops.rows, t.id = id ∧ t.stage = .waiting ∧ t.cancelled = false
  | .loopFetched id _ =>
    ∃ t ∈ s.loops.rows, t.id = id ∧ t.stage = .fetching ∧ t.cancelled = false
  | .loopWakes id =>
    ∃ t ∈ s.loops.rows, t.id = id ∧ LoopStage.wakesBy s.time t.stage = true ∧ t.cancelled = false
  | .loopCancelled id => ∃ t ∈ s.loops.rows, t.id = id ∧ t.cancelled = true
  | .call _ => True
  | .callEnters id _ => s.lock = none ∧ ∃ c ∈ s.calls.rows, c.id = id ∧ c.holding = false
  | .callFetched id _ =>
    ∃ c ∈ s.calls.rows, c.id = id ∧ c.fansOut = true ∧ c.holding = true
  | .callEnds id => ∃ c ∈ s.calls.rows, c.id = id
  | .timerFires => ∃ h ∈ s.stopHandle, h.fired = false ∧ h.deadline ≤ s.time
  | .stopRuns id => ∃ t ∈ s.stops.rows, t.id = id ∧ t.awaiting = none
  | .stopFinishes id => ∃ t ∈ s.stops.rows, t.id = id ∧
    ∃ i ∈ t.awaiting, ∀ loop ∈ s.loops.rows, loop.id ≠ i

instance (e : PollerEvent) : Decidable (s.Enabled e) := by
  cases e <;> simp only [Enabled] <;> infer_instance

def next (e : PollerEvent) : Option FleetPoller :=
  if s.Enabled e then some (s.apply interval grace e) else none

end Methods

/-! ## 3.  The law -/

def active (s : FleetPoller) : List ℕ := (s.loops.rows.filter (!·.cancelled)).map (·.id)

def fanOuts (s : FleetPoller) : List Holder :=
  (s.loops.rows.filter (·.stage = .fetching)).map (fun t => .loop t.id) ++
    (s.calls.rows.filter fun c => c.fansOut ∧ c.holding).map fun c => .call c.id

def Stops : PollerEvent → Prop
  | .timerFires => True
  | .stopRuns _ => True
  | .stopFinishes _ => True
  | .loopCancelled _ => True
  | _ => False

/-- Nothing of a stop is left to be done by now. -/
def Settled (s : FleetPoller) : Prop := ∀ e, Stops e → ¬ s.Enabled e

def timerWork (s : FleetPoller) : ℕ := if s.Enabled .timerFires then 4 else 0

def stopWork (t : StopTask) : ℕ := if t.awaiting = none then 3 else 1

def loopWork (t : LoopTask) : ℕ := if t.cancelled then 1 else 0

/-- How much of the stops is left: a timer that may fire, the tasks it makes, and the loops that
they have cancelled. -/
def work (s : FleetPoller) : ℕ :=
  s.timerWork + (s.stops.rows.map stopWork).sum + (s.loops.rows.map loopWork).sum

def published : PollerEvent → Option FleetSnapshot
  | .loopFetched _ result => result
  | _ => none

/-- The snapshots that were published while a queue was subscribed, oldest first. -/
def publishedTo (id : ℕ) : List (Transition FleetPoller PollerEvent) → List FleetSnapshot
  | [] => []
  | x :: log => publishedTo id log ++
      if (x.before.subscribers.find? id).isSome then (published x.event).toList else []

/-- What a transition returns from a call of `snapshot`. -/
def returned (interval : ℚ) (x : Transition FleetPoller PollerEvent) : Option (ℕ × FleetSnapshot) :=
  match x.event with
  | .callEnters id clock =>
    if x.before.fresh interval clock ∧ ∃ c ∈ x.before.calls.rows, c.id = id ∧ c.fansOut = true then
      x.before.cached.map fun snap => (id, snap)
    else none
  | .callFetched id snap => some (id, snap)
  | _ => none

/-- The transition is a call of `snapshot` under this number. -/
def Calls (id : ℕ) (x : Transition FleetPoller PollerEvent) : Prop :=
  x.event = .call true ∧ x.before.created = id

def FansOut (id : ℕ) (x : Transition FleetPoller PollerEvent) : Prop :=
  (∃ clock, x.event = .callEnters id clock) ∧ x.after.lock = some (.call id)

/-- **What the poller is for**, of a run and the state that it has come to. -/
structure Law (interval grace : ℚ) (log : List (Transition FleetPoller PollerEvent))
    (s : FleetPoller) : Prop where
  /-- Where somebody is subscribed, one loop runs. -/
  one_loop : s.subscribers.rows ≠ [] → ∃ i, s.task = some i ∧ s.active = [i]
  /-- And it goes on to run, whatever happens next. -/
  goes_on : s.subscribers.rows ≠ [] → ∀ e s', s.next interval grace e = some s' →
    s'.active = s.active
  /-- Where nobody has been for the grace period, and the stops are done, no loop is left. -/
  none_left : s.subscribers.rows = [] →
    (∀ x ∈ log, x.before.subscribers.rows ≠ [] → x.before.time + grace ≤ s.time) →
    s.Settled → s.loops.rows = []
  /-- And the stops get done. -/
  settles : ∀ e s', Stops e → s.next interval grace e = some s' →
    s'.work < s.work ∧ s'.subscribers = s.subscribers ∧ s'.time = s.time
  one_fan_out : s.fanOuts.length ≤ 1
  queues : ∀ q ∈ s.subscribers.rows, q.queue <:+ publishedTo q.id log
  newest : ∀ x ∈ log, ∀ snap ∈ published x.event, ∀ q ∈ x.after.subscribers.rows,
    q.queue.getLast? = some snap
  /-- A call returns a snapshot that is fresh, or that of a fan-out of its own, which is later than
  the call. -/
  returns : ∀ later x earlier, log = later ++ x :: earlier → ∀ id snap,
    returned interval x = some (id, snap) →
      (∃ clock, x.event = .callEnters id clock ∧
        ((clock - snap.at_ : ℤ) : ℚ) / 1000000 < 2 * interval) ∨
      x.event = .callFetched id snap ∧
        ∃ y z, [y, z].Sublist earlier ∧ FansOut id y ∧ Calls id z

end FleetPoller

end Kroker
