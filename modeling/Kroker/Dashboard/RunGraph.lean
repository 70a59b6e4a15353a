import Kroker.Library.Run
import Mathlib.Data.Finset.Erase
import Mathlib.Data.Finset.Filter
import Mathlib.Data.Finset.SDiff

/-!
# The store of a run's graph

`runGraph.store.ts`: the run that is viewed, the states polled for it, and the gate decisions in
flight, "tracked here by key, never in component state, so a stale poll cannot re-enable the
controls".  A key is busy while it is in `inFlight`; a key whose decision met a 404 is in `lostRace`
and "stays busy for exactly one more state".

What the store does not keep is kept beside it: for each call of `decide` that sends a request, that
the key is to be busy (`Hold`), until the request fails other than by a 404, or a state of the run
that is viewed does not list the key, or comes after a 404.
-/

namespace Kroker.RunGraph

/-! ## 1.  The state -/

/-- `GraphStateResponse`.  Two states are the same where they are the same as text, so that what is
not read of a state is kept as text. -/
inductive GraphState where
  | noGraph
  | unavailable (reason : String)
  | state (graphSha : String) (pending : List String) (running : Bool) (rest : String)
  deriving DecidableEq

/-- The keys of the gates that are pending. -/
def GraphState.listed : GraphState → List String
  | .state _ pending _ _ => pending
  | _ => []

/-- `isFinalState`: the poll ends with it. -/
def GraphState.isFinal : GraphState → Bool
  | .state _ _ running _ => !running
  | _ => true

/-- `GraphResponse`. -/
inductive GraphAnswer where
  | graph (sha : String)
  | noGraph

/-- A call of `start` that waits for the catalog, or for the graph of the run. -/
structure Starting where
  id : String
  generation : ℕ
  asked : Bool := false

/-- A request of `decide`. -/
structure Decision where
  call : ℕ
  run : String
  key : String

/-- The key of a run is to be busy, since a call of `decide`; `lost` once this met a 404. -/
structure Hold where
  call : ℕ
  run : String
  key : String
  lost : Bool := false

inductive Tone where
  | waiting
  | failed

structure Store where
  runId : Option String := none
  graph : Option GraphAnswer := none
  state : Option GraphState := none
  error : Option String := none
  connectionLost : Bool := false
  inFlight : Finset String := ∅
  lostRace : Finset String := ∅
  /-- `unsubscribe` is set. -/
  subscribed : Bool := false
  /-- The poll of the subscription goes on. -/
  polling : Bool := false
  /-- The state of `lastFingerprint`. -/
  lastState : Option GraphState := none
  generation : ℕ := 0
  toasts : List (String × Tone) := []
  starting : List Starting := []
  decisions : List Decision := []
  calls : ℕ := 0
  holds : List Hold := []

/-! ## 2.  Operations -/

namespace Store

variable (s : Store)

def stop : Store :=
  { s with
    subscribed := false
    polling := false
    generation := s.generation + 1 }

/-- `start`, up to the catalog. -/
def start (id : String) : Store :=
  let s := s.stop
  { s with
    runId := some id
    graph := none
    state := none
    error := none
    connectionLost := false
    inFlight := ∅
    lastState := none
    starting := s.starting ++ [{ id := id, generation := s.generation }] }

def brokenPin (graph : Option GraphAnswer) : GraphState → Option String
  | .state graphSha _ _ _ =>
    match graph with
    | some (.graph sha) =>
      if graphSha ≠ sha then
        some ("run state is for graph " ++ graphSha ++ ", but the run pins " ++ sha)
      else none
    | _ => none
  | _ => none

def released (next : GraphState) : Finset String :=
  s.inFlight.filter fun key => key ∉ next.listed ∨ key ∈ s.lostRace

def receive (next : GraphState) : Store :=
  if s.lastState = some next then s
  else
    let s := { s with lastState := some next }
    match brokenPin s.graph next with
    | some error => { s with error := some error }.stop
    | none =>
      { s with
        state := some next
        inFlight := s.inFlight \ s.released next
        lostRace := s.lostRace \ s.released next }

/-- `decide`, up to the request.  The outcome and the comment go to the server only. -/
def decide (key : String) : Store :=
  match s.runId with
  | none => s
  | some id =>
    if id = "" ∨ key ∈ s.inFlight then s
    else
      { s with
        inFlight := insert key s.inFlight
        decisions := s.decisions ++ [⟨s.calls, id, key⟩]
        calls := s.calls + 1
        holds := { call := s.calls, run := id, key := key } :: s.holds }

end Store

/-! ## 3.  What arrives -/

/-- How a decision is answered. -/
inductive Outcome where
  | ok
  | notFound
  | failed (message : String)

namespace Store

variable (s : Store)

/-- A key need no longer be busy, where a state does not list it or comes after a 404. -/
def letGo (next : GraphState) : List Hold :=
  s.holds.filter fun h => s.runId ≠ some h.run ∨ h.key ∈ next.listed ∧ h.lost = false

def stateArrived (next : GraphState) : Store :=
  let s := { s with holds := s.letGo next }.receive next
  { s with polling := s.polling && !next.isFinal }

/-- The rest of `decide`. -/
def decided (d : Decision) : Outcome → Store
  | .ok => s
  | .notFound =>
    { s with
      toasts := ("this gate was already decided elsewhere", .waiting) :: s.toasts
      lostRace := insert d.key s.lostRace
      holds := s.holds.map fun h => { h with lost := h.lost || h.call = d.call } }
  | .failed message =>
    { s with
      toasts := ("decision failed: " ++ message, .failed) :: s.toasts
      inFlight := s.inFlight.erase d.key
      holds := s.holds.filter fun h => h.call ≠ d.call }

/-- The catalog is there: `start` goes on, where it is the last one. -/
def catalogArrived (canRunGraph : Bool) (waiting : Starting) : Store :=
  if waiting.generation ≠ s.generation ∨ canRunGraph = false then s
  else { s with starting := s.starting ++ [{ waiting with asked := true }] }

/-- The graph of the run is there, and its states are subscribed to. -/
def graphArrived (waiting : Starting) : Except String GraphAnswer → Store
  | .ok answer =>
    if waiting.generation ≠ s.generation then s
    else
      match answer with
      | .noGraph => { s with graph := some .noGraph }
      | .graph sha =>
        { s with
          graph := some (.graph sha)
          subscribed := true
          polling := true }
  | .error message =>
    if waiting.generation ≠ s.generation then s else { s with error := some message }

end Store

inductive Event where
  | start (id : String)
  | stop
  | decide (key : String)
  | stateArrived (next : GraphState)
  /-- The provider counts failures; `pollEnded` where there is no state to poll. -/
  | pollFailed (failures : ℕ)
  | pollEnded
  /-- The decision at a position among those in flight is answered. -/
  | decided (i : ℕ) (outcome : Outcome)
  | catalogArrived (i : ℕ) (canRunGraph : Bool)
  | graphArrived (i : ℕ) (answer : Except String GraphAnswer)

def step (s : Store) : Event → Option Store
  | .start id => some (s.start id)
  | .stop => some s.stop
  | .decide key => some (s.decide key)
  | .stateArrived next => if s.polling = true then some (s.stateArrived next) else none
  | .pollFailed failures =>
    if s.polling = true then some { s with connectionLost := decide (3 ≤ failures) } else none
  | .pollEnded => if s.polling = true then some { s with polling := false } else none
  | .decided i outcome =>
    s.decisions[i]?.map fun d =>
      { s with decisions := s.decisions.eraseIdx i }.decided d outcome
  | .catalogArrived i canRunGraph =>
    s.starting[i]?.bind fun waiting =>
      if waiting.asked = false then
        some ({ s with starting := s.starting.eraseIdx i }.catalogArrived canRunGraph waiting)
      else none
  | .graphArrived i answer =>
    s.starting[i]?.bind fun waiting =>
      if waiting.asked = true then
        some ({ s with starting := s.starting.eraseIdx i }.graphArrived waiting answer)
      else none

/-! ## 4.  What a decision may change -/

/-- **A key is busy** while it is held for the run that is viewed. -/
def Busy (s : Store) : Prop := ∀ h ∈ s.holds, s.runId = some h.run → h.key ∈ s.inFlight

/-- **The response to a decision for another run** than the one viewed changes neither the busy keys
nor what is to be released. -/
def Apart (s : Store) (e : Event) (s' : Store) : Prop :=
  ∀ i outcome d, e = .decided i outcome → s.decisions[i]? = some d → s.runId ≠ some d.run →
    s'.inFlight = s.inFlight ∧ s'.lostRace = s.lostRace

/-- What a step has to find. -/
def Careful (s : Store) : Event → Prop
  -- No key of the run is held from before.
  | .start id => ∀ h ∈ s.holds, h.run ≠ id
  -- A state that releases keys finds none that is listed, held, and lost by another decision.
  | .stateArrived next =>
    s.lastState ≠ some next → Store.brokenPin s.graph next = none →
      ∀ h ∈ s.holds, s.runId = some h.run → h.key ∈ next.listed → h.lost = false →
        h.key ∉ s.lostRace
  -- A 404 for another run finds its key lost already.
  | .decided i .notFound =>
    ∀ d ∈ s.decisions[i]?, s.runId ≠ some d.run → d.key ∈ s.lostRace
  -- Another failure finds its key not busy in another run, and not held by a later decision.
  | .decided i (.failed _) =>
    ∀ d ∈ s.decisions[i]?,
      if s.runId = some d.run then
        ∀ h ∈ s.holds, h.call ≠ d.call → h.run = d.run → h.key ≠ d.key
      else d.key ∉ s.inFlight
  | _ => True

instance (s : Store) : Decidable (Busy s) := inferInstanceAs (Decidable (∀ h ∈ s.holds, _))

instance (s : Store) : (e : Event) → Decidable (Careful s e)
  | .start _ => inferInstanceAs (Decidable (∀ h ∈ s.holds, _))
  | .stateArrived _ => inferInstanceAs (Decidable (_ → _ → ∀ h ∈ s.holds, _))
  | .decided i .notFound => inferInstanceAs (Decidable (∀ d ∈ s.decisions[i]?, _))
  | .decided i (.failed _) => inferInstanceAs (Decidable (∀ d ∈ s.decisions[i]?, _))
  | .decided _ .ok => .isTrue trivial
  | .stop => .isTrue trivial
  | .decide _ => .isTrue trivial
  | .pollFailed _ => .isTrue trivial
  | .pollEnded => .isTrue trivial
  | .catalogArrived _ _ => .isTrue trivial
  | .graphArrived _ _ => .isTrue trivial

section Steps

variable {s s' : Store}

theorem busy_start (s : Store) (id : String) :
    Busy (s.start id) ↔ ∀ h ∈ s.holds, h.run ≠ id := by
  constructor
  · intro hbusy h hh hrun
    have hmem : h.key ∈ (∅ : Finset String) := hbusy h hh (congrArg some hrun.symm)
    exact absurd hmem (Finset.notMem_empty _)
  · intro hnone h hh hrun
    exact absurd (Option.some.inj hrun).symm (hnone h hh)

theorem busy_decide (hs : Busy s) (key : String) : Busy (s.decide key) := by
  unfold Store.decide
  split
  · exact hs
  · split
    · exact hs
    · intro h hh hrun
      rcases List.mem_cons.mp hh with rfl | hh
      · exact Finset.mem_insert_self _ _
      · exact Finset.mem_insert_of_mem (hs h hh hrun)

theorem receive_cases (s : Store) (next : GraphState) :
    (s.receive next).runId = s.runId ∧ (s.receive next).holds = s.holds ∧
      (((s.lastState = some next ∨ Store.brokenPin s.graph next ≠ none) ∧
          (s.receive next).inFlight = s.inFlight) ∨
        (s.lastState ≠ some next ∧ Store.brokenPin s.graph next = none ∧
          (s.receive next).inFlight = s.inFlight \ s.released next)) := by
  unfold Store.receive
  split
  · rename_i hlast
    exact ⟨rfl, rfl, .inl ⟨.inl hlast, rfl⟩⟩
  · rename_i hlast
    dsimp only
    split
    · rename_i error hbroken
      exact ⟨rfl, rfl, .inl ⟨.inr (by rw [hbroken]; nofun), rfl⟩⟩
    · rename_i hbroken
      exact ⟨rfl, rfl, .inr ⟨hlast, hbroken, rfl⟩⟩

theorem mem_letGo {next : GraphState} {h : Hold} (hrun : s.runId = some h.run) :
    h ∈ s.letGo next ↔ h ∈ s.holds ∧ h.key ∈ next.listed ∧ h.lost = false := by
  rw [Store.letGo, List.mem_filter]
  simp [hrun]

theorem mem_released {next : GraphState} {key : String} :
    key ∈ s.released next ↔ key ∈ s.inFlight ∧ (key ∉ next.listed ∨ key ∈ s.lostRace) := by
  rw [Store.released, Finset.mem_filter]

/-- **A state keeps a held key busy exactly where no listed key that is held was lost by another
decision.** -/
theorem busy_stateArrived (hs : Busy s) (next : GraphState) :
    Busy (s.stateArrived next) ↔ Careful s (.stateArrived next) := by
  obtain ⟨hrunId, hholds, hcases⟩ := receive_cases { s with holds := s.letGo next } next
  have hbusy : Busy (s.stateArrived next) ↔
      ∀ h ∈ ({ s with holds := s.letGo next }.receive next).holds,
        ({ s with holds := s.letGo next }.receive next).runId = some h.run →
          h.key ∈ ({ s with holds := s.letGo next }.receive next).inFlight := Iff.rfl
  rw [hbusy, hholds, hrunId]
  rcases hcases with ⟨hquiet, hinFlight⟩ | ⟨hlast, hpin, hinFlight⟩
  · rw [hinFlight]
    refine iff_of_true (fun h hh hrun => ?_) fun hlast hpin => ?_
    · exact hs h ((mem_letGo (s := s) hrun).mp hh).1 hrun
    · exact (hquiet.elim hlast fun hbroken => hbroken hpin).elim
  · rw [hinFlight]
    constructor
    · intro hkept _ _ h hh hrun hlisted hlost hrace
      have hmem := hkept h ((mem_letGo hrun).mpr ⟨hh, hlisted, hlost⟩) hrun
      exact (Finset.mem_sdiff.mp hmem).2 (mem_released.mpr ⟨hs h hh hrun, .inr hrace⟩)
    · intro hcareful h hh hrun
      obtain ⟨hheld, hlisted, hlost⟩ := (mem_letGo (s := s) hrun).mp hh
      refine Finset.mem_sdiff.mpr ⟨hs h hheld hrun, fun hreleased => ?_⟩
      rcases (mem_released.mp hreleased).2 with hunlisted | hrace
      · exact hunlisted hlisted
      · exact hcareful hlast hpin h hheld hrun hlisted hlost hrace

theorem busy_notFound (hs : Busy s) (d : Decision) : Busy (s.decided d .notFound) := by
  intro h hh hrun
  obtain ⟨h', hh', rfl⟩ := List.mem_map.mp hh
  exact hs h' hh' hrun

/-- **Another failure ends its own hold** and no other exactly where no later decision holds the
key. -/
theorem busy_failed (hs : Busy s) (d : Decision) (message : String) :
    Busy (s.decided d (.failed message)) ↔
      ∀ h ∈ s.holds, h.call ≠ d.call → s.runId = some h.run → h.key ≠ d.key := by
  constructor
  · intro hbusy h hh hcall hrun
    have hmem := hbusy h (List.mem_filter.mpr ⟨hh, decide_eq_true hcall⟩) hrun
    exact (Finset.mem_erase.mp hmem).1
  · intro hother h hh hrun
    obtain ⟨hh, hcall⟩ := List.mem_filter.mp hh
    exact Finset.mem_erase.mpr ⟨hother h hh (of_decide_eq_true hcall) hrun, hs h hh hrun⟩

end Steps

/-! ## 5.  Steps and runs -/

theorem decided_cases {s s' : Store} {i : ℕ} {outcome : Outcome}
    (h : step s (.decided i outcome) = some s') :
    ∃ d, s.decisions[i]? = some d ∧
      s' = { s with decisions := s.decisions.eraseIdx i }.decided d outcome := by
  obtain ⟨d, hd, rfl⟩ := Option.map_eq_some_iff.mp h
  exact ⟨d, hd, rfl⟩

theorem apart_of_ne {s s' : Store} {e : Event} (h : ∀ i outcome, e ≠ .decided i outcome) :
    Apart s e s' :=
  fun i outcome _ he => absurd he (h i outcome)

theorem apart_decided_iff {s s' : Store} {i : ℕ} {outcome : Outcome} {d : Decision}
    (hd : s.decisions[i]? = some d) :
    Apart s (.decided i outcome) s' ↔
      (s.runId ≠ some d.run → s'.inFlight = s.inFlight ∧ s'.lostRace = s.lostRace) := by
  constructor
  · intro hapart hrun
    exact hapart i outcome d rfl hd hrun
  · intro hapart i' outcome' d' he hd' hrun
    cases he
    cases hd.symm.trans hd'
    exact hapart hrun

/-- **Every step keeps the held keys busy, and other runs apart, exactly where it is careful.** -/
theorem step_iff_careful {s s' : Store} {e : Event} (hs : Busy s) (h : step s e = some s') :
    Busy s' ∧ Apart s e s' ↔ Careful s e := by
  cases e with
  | start id =>
    cases h
    have hapart : Apart s (.start id) (s.start id) := apart_of_ne nofun
    rw [and_iff_left hapart]
    exact busy_start s id
  | stop =>
    cases h
    exact iff_of_true ⟨hs, apart_of_ne nofun⟩ trivial
  | decide key =>
    cases h
    exact iff_of_true ⟨busy_decide hs key, apart_of_ne nofun⟩ trivial
  | stateArrived next =>
    obtain ⟨-, h⟩ := Option.ite_none_right_eq_some.mp h
    cases h
    have hapart : Apart s (.stateArrived next) (s.stateArrived next) := apart_of_ne nofun
    rw [and_iff_left hapart]
    exact busy_stateArrived hs next
  | pollFailed failures =>
    obtain ⟨-, h⟩ := Option.ite_none_right_eq_some.mp h
    cases h
    exact iff_of_true ⟨hs, apart_of_ne nofun⟩ trivial
  | pollEnded =>
    obtain ⟨-, h⟩ := Option.ite_none_right_eq_some.mp h
    cases h
    exact iff_of_true ⟨hs, apart_of_ne nofun⟩ trivial
  | decided i outcome =>
    obtain ⟨d, hd, rfl⟩ := decided_cases h
    have hs' : Busy { s with decisions := s.decisions.eraseIdx i } := hs
    rw [apart_decided_iff hd]
    cases outcome with
    | ok => exact iff_of_true ⟨hs, fun _ => ⟨rfl, rfl⟩⟩ trivial
    | notFound =>
      rw [and_iff_right (busy_notFound hs' d)]
      constructor
      · intro hapart d' hd' hrun
        cases hd.symm.trans hd'
        have hrace := (hapart hrun).2
        exact hrace ▸ Finset.mem_insert_self d.key s.lostRace
      · intro hlost hrun
        exact ⟨rfl, Finset.insert_eq_of_mem (hlost d hd hrun)⟩
    | failed message =>
      rw [busy_failed hs' d message]
      constructor
      · rintro ⟨hother, hapart⟩ d' hd'
        cases hd.symm.trans hd'
        split
        · rename_i hrun
          intro h hh hcall hsame
          exact hother h hh hcall (hrun.trans (congrArg some hsame.symm))
        · rename_i hrun
          exact Finset.erase_eq_self.mp (hapart hrun).1
      · intro hcareful
        have hcareful := hcareful d hd
        split at hcareful
        · rename_i hrun
          refine ⟨fun h hh hcall hview => ?_, fun hother => absurd hrun hother⟩
          exact hcareful h hh hcall (Option.some.inj (hview.symm.trans hrun))
        · -- A key that is not busy is held by nothing.
          refine ⟨fun h hh _ hview hkey => ?_, fun _ => ⟨?_, rfl⟩⟩
          · exact hcareful (hkey ▸ hs h hh hview)
          · exact Finset.erase_eq_of_notMem hcareful
  | catalogArrived i canRunGraph =>
    obtain ⟨waiting, -, hrest⟩ := Option.bind_eq_some_iff.mp h
    obtain ⟨-, hrest⟩ := Option.ite_none_right_eq_some.mp hrest
    refine iff_of_true ⟨?_, apart_of_ne nofun⟩ trivial
    cases hrest
    unfold Store.catalogArrived
    split
    · exact hs
    · exact hs
  | graphArrived i answer =>
    obtain ⟨waiting, -, hrest⟩ := Option.bind_eq_some_iff.mp h
    obtain ⟨-, hrest⟩ := Option.ite_none_right_eq_some.mp hrest
    refine iff_of_true ⟨?_, apart_of_ne nofun⟩ trivial
    cases hrest
    unfold Store.graphArrived
    split
    · split
      · exact hs
      · split
        · exact hs
        · exact hs
    · split
      · exact hs
      · exact hs

/-- **The controls of a gate stay busy, and runs apart, exactly in the runs whose every step is
careful.** -/
theorem busy_iff_careful {log : List (Transition Store Event)} {s : Store}
    (run : Run {} step log s) :
    (∀ x ∈ log, Busy x.after ∧ Apart x.before x.event x.after) ↔
      ∀ x ∈ log, Careful x.before x.event := by
  refine Run.forall_iff nofun ?_ run
  intro s e s' _ hs haccepted
  exact step_iff_careful hs haccepted

/-! ## 6.  Samples -/

def opened (id : String) : List Event :=
  [.start id, .catalogArrived 0 true, .graphArrived 0 (.ok (.graph "sha-1")),
    .stateArrived (.state "sha-1" ["architecture#2"] true id)]

/-- A decision meets a 404, and the next state, a stale one, releases its key; it is made again, and
the state after it no longer lists the key. -/
def decidedElsewhere : List Event :=
  opened "r1" ++ [.decide "architecture#2", .decided 0 .notFound,
    .stateArrived (.state "sha-1" ["architecture#2"] true "stale"), .decide "architecture#2",
    .decided 0 .ok, .stateArrived (.state "sha-1" [] true "")]

theorem busy_iff_careful_sample :
    ∃ log s, Run {} step log s ∧ (∀ x ∈ log, Busy x.after ∧ Apart x.before x.event x.after) ∧
      s.runId = some "r1" ∧ s.inFlight = ∅ := by
  have heval : (runScript step ([], {}) decidedElsewhere).map (fun q =>
      (q.1.all fun x => decide (Careful x.before x.event), q.2.runId, q.2.inFlight)) =
      some (true, some "r1", ∅) := by decide +kernel
  obtain ⟨log, s, run, hview⟩ := Run.exists_of_runScript heval
  obtain ⟨hall, hend⟩ := Prod.mk.inj hview
  obtain ⟨hrunId, hinFlight⟩ := Prod.mk.inj hend
  have hcareful : ∀ x ∈ log, Careful x.before x.event :=
    fun x hx => of_decide_eq_true (List.all_eq_true.mp hall x hx)
  exact ⟨log, s, run, (busy_iff_careful run).mpr hcareful, hrunId, hinFlight⟩

/-- The same gate is decided in two runs, one after the other. -/
def switched : List Event :=
  opened "r1" ++ [.decide "architecture#2"] ++ opened "r2" ++ [.decide "architecture#2"]

/-- **The failure of a decision for the run viewed before re-enables the key of this run; a 404 of
it has the key released by the next state that lists it.** -/
theorem reenabled :
    (∃ log s, Run {} step log s ∧ s.runId = some "r2" ∧ s.inFlight = ∅ ∧ ¬Busy s) ∧
      ∃ log s, Run {} step log s ∧ s.runId = some "r2" ∧ s.inFlight = ∅ ∧ ¬Busy s := by
  constructor
  · have heval : (runScript step ([], {}) (switched ++ [.decided 0 (.failed "timeout")])).map
        (fun q => (q.2.runId, q.2.inFlight, decide (Busy q.2))) = some (some "r2", ∅, false) := by
      decide +kernel
    obtain ⟨log, s, run, hview⟩ := Run.exists_of_runScript heval
    obtain ⟨hrunId, hview⟩ := Prod.mk.inj hview
    obtain ⟨hinFlight, hbusy⟩ := Prod.mk.inj hview
    exact ⟨log, s, run, hrunId, hinFlight,
      of_decide_eq_false hbusy⟩
  · have heval : (runScript step ([], {}) (switched ++ [.decided 0 .notFound,
        .stateArrived (.state "sha-1" ["architecture#2"] true "later")])).map
        (fun q => (q.2.runId, q.2.inFlight, decide (Busy q.2))) = some (some "r2", ∅, false) := by
      decide +kernel
    obtain ⟨log, s, run, hview⟩ := Run.exists_of_runScript heval
    obtain ⟨hrunId, hview⟩ := Prod.mk.inj hview
    obtain ⟨hinFlight, hbusy⟩ := Prod.mk.inj hview
    exact ⟨log, s, run, hrunId, hinFlight,
      of_decide_eq_false hbusy⟩

end Kroker.RunGraph
