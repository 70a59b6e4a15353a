import Kroker.Graph.RunView
import Kroker.Questions.Pending
import Mathlib.Data.Set.Card

/-!
# A snapshot of the fleet

`fetch_fleet` of `dashboard/fleet.py`: two visibility listings, one query or two for each run they
list, and a cache of the marks of closed runs that is kept from one call to the next.  All of it is
joined by the id of the workflow.

A run that closes between the two listings is in both, and the pass over the closed ones skips it.
The code does not look for the other repetitions:

* an id that was executed more than once stands in the closed listing once for each execution, and
  it gets a row for each;
* a listing of open runs that names an id twice gives two rows, and two counts where it owes a
  decision;
* marks are cached under the id alone.  Where the id is executed again and is closed at the next
  call, the call serves what it has.

`Lawful` is what a snapshot is for, and `Distinct` is the condition of one call: it finds no run
listed twice, and no cached marks that are behind (`forall_lawful_iff`).

What a query brings is `None` or a value, and the value is of its model or raises in the
validation; a falsy value for the pending decisions is `None` here, as `or []` has it.  The closed
runs of a listing, the answers and the cached marks carry the number of the execution of their
workflow; the code has no such number, and nothing that the code does here reads it.
-/

namespace Kroker.Fleet

open RunView Questions

/-! ## 1.  What the server answers -/

/-- `RunState`, of which these fields are read. -/
structure RunState where
  runId : String
  stageMarks : Option (Dict DotState)

/-- `RunSummary`, of which the id is read. -/
structure RunSummary where
  runId : String

/-- A visibility listing: what it yields, and the exception that it may end in. -/
structure Listing (α : Type) where
  rows : List α
  raised : Option String := none

/-- A row of the closed listing. -/
structure ClosedRun where
  id : String
  workflowType : Option String
  execution : ℕ
  deriving DecidableEq

/-- A query: it raises, brings `None`, or brings a value, with what the validation makes of it. -/
abbrev Query (α : Type) := Except String (Option (Except String α))

structure OpenQueries where
  runState : Query RunState
  pendingDecisions : Query (List PendingDecision)
  pendingFirst : Bool := false

structure MarksQuery where
  runState : Query RunState
  execution : ℕ

/-- What the queries of a call are answered, by their places in the call and the ids they go to.
A workflow names itself in its state and in its summary. -/
structure Answers where
  openRun : ℕ → String → OpenQueries
  closedRun : ℕ → String → Query RunSummary
  marks : ℕ → String → MarksQuery
  openRun_named : ∀ i r s, (openRun i r).runState = .ok (some (.ok s)) → s.runId = r
  closedRun_named : ∀ i r s, closedRun i r = .ok (some (.ok s)) → s.runId = r

/-! ## 2.  The snapshot -/

structure CachedMarks where
  marks : Dict DotState
  execution : ℕ

structure RunInbox where
  runId : String
  pending : List PendingDecision

structure InboxError where
  runId : String
  error : String

structure FleetSnapshot where
  at_ : ℤ
  totalOpenRuns : ℕ := 0
  runs : List RunState := []
  closed : List RunSummary := []
  inbox : List RunInbox := []
  errors : List InboxError := []
  openErrors : List InboxError := []
  closedMarks : Dict CachedMarks := ∅

/-- What is kept between calls: `_ORDER_BY_SUPPORTED` and the cache of the marks. -/
structure FleetState where
  orderBySupported : Bool := true
  marksCache : Dict CachedMarks := ∅

def pendingRunCount (snap : FleetSnapshot) : ℕ := snap.inbox.length + snap.openErrors.length

structure FleetCapacityExceeded where
  cap : ℤ
  pending : ℕ

def checkFleetCapacity (snap : FleetSnapshot) : Option ℤ → Except FleetCapacityExceeded Unit
  | none => .ok ()
  | some cap =>
    let pending := pendingRunCount snap
    if cap ≤ pending then .error ⟨cap, pending⟩ else .ok ()

/-! ## 3.  The queries -/

/-- A value of the model, or `None`. -/
def validated {α : Type} : Option (Except String α) → Except String (Option α)
  | none => .ok none
  | some v => v.map some

/-- `asyncio.gather` of the two queries: the first exception is raised. -/
def OpenQueries.gather (q : OpenQueries) :
    Except String (Option (Except String RunState) ×
      Option (Except String (List PendingDecision))) :=
  if q.pendingFirst then do
    let rawPending ← q.pendingDecisions
    let rawState ← q.runState
    return (rawState, rawPending)
  else do
    let rawState ← q.runState
    let rawPending ← q.pendingDecisions
    return (rawState, rawPending)

/-- `_fetch_open`; the exception is the value that it returns. -/
def fetchOpen (q : OpenQueries) : Except String (Option RunState × List PendingDecision) := do
  let (rawState, rawPending) ← q.gather
  let state ← validated rawState
  let pending ← validated rawPending
  return (state, pending.getD [])

def fetchClosed (q : Query RunSummary) : Except String (Option RunSummary) := do
  let raw ← q
  validated raw

def fetchMarks (q : MarksQuery) : Except String CachedMarks := do
  let raw ← q.runState
  let state ← validated raw
  return ⟨match state.bind (·.stageMarks) with
    | none => ∅
    | some stageMarks => closeMarks stageMarks, q.execution⟩

/-! ## 4.  The listings -/

def listOpenRunIds (listing : Listing String) : Except String (List String) :=
  match listing.raised with
  | some e => .error e
  | none => .ok listing.rows

/-- The loop of `_scan_closed`, which ends at the limit, or where the listing does. -/
def scanFrom (limit : ℤ) (raised : Option String) :
    List ClosedRun → List ClosedRun → Except String (List ClosedRun)
  | runs, [] =>
    match raised with
    | some e => .error e
    | none => .ok runs
  | runs, wf :: rest =>
    if limit ≤ (runs ++ [wf]).length then .ok (runs ++ [wf])
    else scanFrom limit raised (runs ++ [wf]) rest

def scanClosed (listing : Listing ClosedRun) (limit : ℤ) : Except String (List ClosedRun) :=
  scanFrom limit listing.raised [] listing.rows

/-- `"ORDER BY" in str(e)`. -/
def rejectsOrderBy (e : String) : Bool := decide ("ORDER BY".toList <:+: e.toList)

/-- `_closed_runs`, with what it leaves in `_ORDER_BY_SUPPORTED`. -/
def closedRuns (orderBySupported : Bool) (ordered unordered : Listing ClosedRun) (limit : ℤ) :
    Bool × Except String (List ClosedRun) :=
  if orderBySupported then
    match scanClosed ordered limit with
    | .ok runs => (true, .ok runs)
    | .error e =>
      if rejectsOrderBy e then (false, scanClosed unordered limit) else (true, .error e)
  else (false, scanClosed unordered limit)

/-- A call of `fetch_fleet`: its arguments, and what the listings answer. -/
structure FleetCall where
  now : ℤ
  closedLimit : ℤ := 20
  openRuns : Listing String
  ordered : Listing ClosedRun
  unordered : Listing ClosedRun

/-- What the two listings of a call list. -/
abbrev Listed := List String × List ClosedRun

def listings (orderBySupported : Bool) (c : FleetCall) : Bool × Except String Listed :=
  match listOpenRunIds c.openRuns with
  | .error e => (orderBySupported, .error e)
  | .ok openIds =>
    let (flag, closed) := closedRuns orderBySupported c.ordered c.unordered c.closedLimit
    (flag, closed.map fun closed => (openIds, closed))

/-! ## 5.  The call -/

def graphClosed (openIds : List String) (closed : List ClosedRun) : List String :=
  (closed.filter fun run => run.workflowType = some "GraphWorkflow" ∧ run.id ∉ openIds).map (·.id)

/-- What a query comes to, with the id it went to. -/
abbrev Outcome (α : Type) := String × Except String α

def openRound (snap : FleetSnapshot) (x : Outcome (Option RunState × List PendingDecision)) :
    FleetSnapshot :=
  match x.2 with
  | .error e =>
    { snap with errors := snap.errors ++ [⟨x.1, e⟩], openErrors := snap.openErrors ++ [⟨x.1, e⟩] }
  | .ok (state, pending) =>
    { snap with
      runs := snap.runs ++ state.toList
      inbox := if pending = [] then snap.inbox else snap.inbox ++ [⟨x.1, pending⟩] }

def closedRound (openIds : List String) (snap : FleetSnapshot) (x : Outcome (Option RunSummary)) :
    FleetSnapshot :=
  -- a run that closes between the two listings is in both
  if x.1 ∈ openIds then snap
  else
    match x.2 with
    | .error e => { snap with errors := snap.errors ++ [⟨x.1, e⟩] }
    | .ok summary => { snap with closed := snap.closed ++ summary.toList }

/-- The round of the loop over the answers about marks. -/
def marksRound (p : FleetSnapshot × Dict CachedMarks) (x : Outcome CachedMarks) :
    FleetSnapshot × Dict CachedMarks :=
  match x.2 with
  | .error e => ({ p.1 with errors := p.1.errors ++ [⟨x.1, "stage marks: " ++ e⟩] }, p.2)
  | .ok marks => (p.1, p.2.insert x.1 marks)

/-- `r: dict(cache[r]) if cache.get(r)`. -/
def servedItem (cache : Dict CachedMarks) (r : String) : Option (String × CachedMarks) :=
  match cache[r]? with
  | some m => if m.marks = ∅ then none else some (r, m)
  | none => none

/-- `closed_marks`. -/
def servedMarks (graphClosed : List String) (cache : Dict CachedMarks) : Dict CachedMarks :=
  Dict.ofItems (graphClosed.filterMap (servedItem cache))

section Passes

variable (openIds : List String) (closed : List ClosedRun) (answers : Answers)

def openResults : List (Outcome (Option RunState × List PendingDecision)) :=
  openIds.zipIdx.map fun x => (x.1, fetchOpen (answers.openRun x.2 x.1))

def closedResults : List (Outcome (Option RunSummary)) :=
  (closed.map (·.id)).zipIdx.map fun x => (x.1, fetchClosed (answers.closedRun x.2 x.1))

def marksResults (needMarks : List String) : List (Outcome CachedMarks) :=
  needMarks.zipIdx.map fun x => (x.1, fetchMarks (answers.marks x.2 x.1))

/-- `fetch_fleet`, when the listings are there. -/
def fetchRuns (cache : Dict CachedMarks) (now : ℤ) : Dict CachedMarks × FleetSnapshot :=
  let cache := cache.filter fun k _ => k ∈ graphClosed openIds closed
  let needMarks := (graphClosed openIds closed).filter (· ∉ cache)
  let snap : FleetSnapshot := { at_ := now, totalOpenRuns := openIds.length }
  let snap := (openResults openIds answers).foldl openRound snap
  let snap := (closedResults closed answers).foldl (closedRound openIds) snap
  let (snap, cache) := (marksResults answers needMarks).foldl marksRound (snap, cache)
  (cache, { snap with closedMarks := servedMarks (graphClosed openIds closed) cache })

end Passes

/-- `fetch_fleet`, with the state that it leaves. -/
def fetchFleet (s : FleetState) (c : FleetCall) (answers : Answers) :
    FleetState × Except String FleetSnapshot :=
  match listings s.orderBySupported c with
  | (flag, .error e) => ({ s with orderBySupported := flag }, .error e)
  | (flag, .ok (openIds, closed)) =>
    let (cache, snap) := fetchRuns openIds closed answers s.marksCache c.now
    (⟨flag, cache⟩, .ok snap)

/-! ## 6.  What a snapshot is for -/

def owes : Except String (Option RunState × List PendingDecision) → Bool
  | .error _ => true
  | .ok (_, pending) => pending ≠ []

/-- The ids that `pendingRunCount` counts. -/
def counted (snap : FleetSnapshot) : List String :=
  snap.inbox.map (·.runId) ++ snap.openErrors.map (·.runId)

theorem pendingRunCount_eq (snap : FleetSnapshot) :
    pendingRunCount snap = (counted snap).length := by
  rw [pendingRunCount, counted, List.length_append, List.length_map, List.length_map]

def Owes (openIds : List String) (answers : Answers) (r : String) : Prop :=
  ∃ i, openIds[i]? = some r ∧ owes (fetchOpen (answers.openRun i r)) = true

/-- **A snapshot lists each run once.** -/
structure Lawful (openIds : List String) (closed : List ClosedRun) (answers : Answers)
    (snap : FleetSnapshot) : Prop where
  rows_nodup : (snap.runs.map (·.runId) ++ snap.closed.map (·.runId)).Nodup
  counted_once : ∀ r ∈ openIds, Owes openIds answers r → (counted snap).count r = 1
  counted_never : ∀ r ∈ openIds, ¬ Owes openIds answers r → (counted snap).count r = 0
  counted_open : ∀ r ∈ counted snap, r ∈ openIds
  marks_closed : ∀ r ∈ snap.closedMarks, r ∈ closed.map (·.id) ∧ r ∉ openIds
  marks_current : ∀ run ∈ closed, ∀ m, snap.closedMarks[run.id]? = some m →
    run.execution ≤ m.execution

/-- A query of a workflow goes to its last execution, which is not one before a listed one. -/
def Answers.Latest (answers : Answers) (closed : List ClosedRun) : Prop :=
  ∀ i, ∀ run ∈ closed, run.execution ≤ (answers.marks i run.id).execution

/-- However the queries of a sequence of calls are answered, each call whose listings are there
makes a lawful snapshot. -/
def LawfulFrom : FleetState → List FleetCall → Prop
  | _, [] => True
  | s, c :: calls => ∀ answers : Answers,
    (∀ l, (listings s.orderBySupported c).2 = .ok l → answers.Latest l.2) →
      (∀ l, (listings s.orderBySupported c).2 = .ok l →
        ∃ snap, (fetchFleet s c answers).2 = .ok snap ∧ Lawful l.1 l.2 answers snap) ∧
      LawfulFrom (fetchFleet s c answers).1 calls

def listed : Bool → List FleetCall → List Listed
  | _, [] => []
  | flag, c :: calls =>
    match listings flag c with
    | (flag, .error _) => listed flag calls
    | (flag, .ok l) => l :: listed flag calls

/-- No run is listed twice. -/
def Once (l : Listed) : Prop := l.1.Nodup ∧ ((l.2.map (·.id)).filter (· ∉ l.1)).Nodup

def NotAgain (l l' : Listed) : Prop :=
  ∀ run ∈ l.2, ∀ run' ∈ l'.2, run.id = run'.id → run.id ∈ graphClosed l.1 l.2 →
    run'.id ∈ graphClosed l'.1 l'.2 → run'.execution ≤ run.execution

structure Distinct (cache : Dict CachedMarks) (openIds : List String) (closed : List ClosedRun) :
    Prop where
  open_nodup : openIds.Nodup
  closed_nodup : ((closed.map (·.id)).filter (· ∉ openIds)).Nodup
  cache_current : ∀ run ∈ closed, run.workflowType = some "GraphWorkflow" → run.id ∉ openIds →
    ∀ m, cache[run.id]? = some m → m.marks ≠ ∅ → run.execution ≤ m.execution

/-! ## 7.  What the loops gather -/

def openRow (x : Outcome (Option RunState × List PendingDecision)) : Option RunState :=
  match x.2 with
  | .error _ => none
  | .ok (state, _) => state

def inboxRow (x : Outcome (Option RunState × List PendingDecision)) : Option RunInbox :=
  match x.2 with
  | .error _ => none
  | .ok (_, pending) => if pending = [] then none else some ⟨x.1, pending⟩

def closedRow (x : Outcome (Option RunSummary)) : Option RunSummary :=
  match x.2 with
  | .error _ => none
  | .ok summary => summary

def errorRow {α : Type} (label : String) (x : Outcome α) : Option InboxError :=
  match x.2 with
  | .error e => some ⟨x.1, label ++ e⟩
  | .ok _ => none

theorem foldl_openRound (l : List (Outcome (Option RunState × List PendingDecision)))
    (snap : FleetSnapshot) :
    l.foldl openRound snap =
      { snap with
        runs := snap.runs ++ l.filterMap openRow
        inbox := snap.inbox ++ l.filterMap inboxRow
        errors := snap.errors ++ l.filterMap (errorRow "")
        openErrors := snap.openErrors ++ l.filterMap (errorRow "") } := by
  induction l generalizing snap with
  | nil => simp
  | cons x l ih =>
    obtain ⟨r, e | ⟨state, pending⟩⟩ := x
    · rw [List.foldl_cons, ih]
      simp [openRound, openRow, inboxRow, errorRow, List.filterMap_cons]
    · rw [List.foldl_cons, ih]
      cases state <;> by_cases hpending : pending = [] <;>
        simp [openRound, openRow, inboxRow, errorRow, hpending, List.filterMap_cons]

theorem foldl_closedRound (openIds : List String) (l : List (Outcome (Option RunSummary)))
    (snap : FleetSnapshot) :
    l.foldl (closedRound openIds) snap =
      { snap with
        closed := snap.closed ++ (l.filter (·.1 ∉ openIds)).filterMap closedRow
        errors := snap.errors ++ (l.filter (·.1 ∉ openIds)).filterMap (errorRow "") } := by
  induction l generalizing snap with
  | nil => simp
  | cons x l ih =>
    obtain ⟨r, outcome⟩ := x
    rw [List.foldl_cons, ih, closedRound]
    by_cases hr : r ∈ openIds
    · simp [hr]
    · rcases outcome with e | _ | summary <;>
        simp [hr, closedRow, errorRow, List.filterMap_cons]

theorem foldl_marksRound_fst (l : List (Outcome CachedMarks)) (snap : FleetSnapshot)
    (cache : Dict CachedMarks) :
    (l.foldl marksRound (snap, cache)).1 =
      { snap with errors := snap.errors ++ l.filterMap (errorRow "stage marks: ") } := by
  induction l generalizing snap cache with
  | nil => simp
  | cons x l ih =>
    obtain ⟨r, e | marks⟩ := x
    · rw [List.foldl_cons, marksRound, ih]
      simp [errorRow]
    · rw [List.foldl_cons, marksRound, ih]
      simp [errorRow, List.filterMap_cons]

variable {r : String} {m : CachedMarks}

/-- **The cache after a call**: what is in it was in it before, or was answered. -/
theorem get?_foldl_marksRound (l : List (Outcome CachedMarks)) (snap : FleetSnapshot)
    (cache : Dict CachedMarks) (h : (l.foldl marksRound (snap, cache)).2[r]? = some m) :
    cache[r]? = some m ∨ (r, .ok m) ∈ l := by
  induction l generalizing snap cache with
  | nil => exact .inl h
  | cons x l ih =>
    obtain ⟨k, e | marks⟩ := x
    · rw [List.foldl_cons, marksRound] at h
      exact (ih _ _ h).imp_right (List.mem_cons_of_mem _)
    · rw [List.foldl_cons, marksRound] at h
      rcases ih _ _ h with hcache | hmem
      · rw [Dict.get?_insert] at hcache
        split_ifs at hcache with hk
        · obtain rfl := hk
          obtain rfl := Option.some.inj hcache
          exact .inr List.mem_cons_self
        · exact .inl hcache
      · exact .inr (List.mem_cons_of_mem _ hmem)

theorem get?_foldl_marksRound_of_notMem {l : List (Outcome CachedMarks)} (hr : r ∉ l.map Prod.fst)
    (snap : FleetSnapshot) (cache : Dict CachedMarks) :
    (l.foldl marksRound (snap, cache)).2[r]? = cache[r]? := by
  induction l generalizing snap cache with
  | nil => rfl
  | cons x l ih =>
    rw [List.map_cons, List.mem_cons, not_or] at hr
    obtain ⟨hne, hrest⟩ := hr
    obtain ⟨k, e | marks⟩ := x
    · rw [List.foldl_cons, marksRound, ih hrest]
    · rw [List.foldl_cons, marksRound, ih hrest, Dict.get?_insert_of_ne _ _ (Ne.symm hne)]

theorem get?_foldl_marksRound_of_answered {l : List (Outcome CachedMarks)}
    {cache : Dict CachedMarks} (hr : cache[r]? = some m ∨ r ∈ l.map Prod.fst)
    (hone : ∀ x ∈ l, x.1 = r → x.2 = .ok m) (snap : FleetSnapshot) :
    (l.foldl marksRound (snap, cache)).2[r]? = some m := by
  induction l generalizing snap cache with
  | nil => exact hr.resolve_right List.not_mem_nil
  | cons x l ih =>
    have hrest : ∀ x ∈ l, x.1 = r → x.2 = .ok m := fun x hx => hone x (List.mem_cons_of_mem _ hx)
    obtain ⟨k, outcome⟩ := x
    by_cases hk : k = r
    · obtain rfl : outcome = .ok m := hone (k, outcome) List.mem_cons_self hk
      rw [List.foldl_cons, marksRound]
      exact ih (.inl (by rw [hk, Dict.get?_insert_self])) hrest snap
    · have hr' : cache[r]? = some m ∨ r ∈ l.map Prod.fst :=
        hr.imp_right fun hmem => (List.mem_cons.mp hmem).resolve_left (Ne.symm hk)
      rcases outcome with e | marks
      · rw [List.foldl_cons, marksRound]
        exact ih hr' hrest _
      · rw [List.foldl_cons, marksRound]
        exact ih (hr'.imp_left fun h => (Dict.get?_insert_of_ne cache marks hk).trans h) hrest snap

theorem servedItem_eq_some {cache : Dict CachedMarks} {k : String} :
    servedItem cache r = some (k, m) ↔ r = k ∧ cache[k]? = some m ∧ m.marks ≠ ∅ := by
  rw [servedItem]
  constructor
  · intro h
    split at h
    · rename_i v hv
      split_ifs at h with hempty
      obtain ⟨rfl, rfl⟩ := Prod.mk.inj (Option.some.inj h)
      exact ⟨rfl, hv, hempty⟩
    · cases h
  · rintro ⟨rfl, hm, hne⟩
    simp only [hm, if_neg hne]

theorem get?_servedMarks {graphClosed : List String} {cache : Dict CachedMarks} :
    (servedMarks graphClosed cache)[r]? = some m ↔
      r ∈ graphClosed ∧ cache[r]? = some m ∧ m.marks ≠ ∅ := by
  -- Every item under a key is what the cache has under it.
  have hitem : ∀ k v, (k, v) ∈ graphClosed.filterMap (servedItem cache) ↔
      k ∈ graphClosed ∧ cache[k]? = some v ∧ v.marks ≠ ∅ := by
    intro k v
    rw [List.mem_filterMap]
    constructor
    · rintro ⟨r, hr, hserved⟩
      obtain ⟨rfl, hv⟩ := servedItem_eq_some.mp hserved
      exact ⟨hr, hv⟩
    · rintro ⟨hr, hv⟩
      exact ⟨k, hr, servedItem_eq_some.mpr ⟨rfl, hv⟩⟩
  constructor
  · exact fun h => (hitem r m).mp (Dict.mem_of_get?_ofItems h)
  · intro h
    have hmem := (hitem r m).mpr h
    have hlooked := Dict.get?_ofItems_map_of_mem (f := fun x : String × CachedMarks => x) hmem
    rw [List.map_id'] at hlooked
    obtain ⟨v, hv⟩ := hlooked
    obtain ⟨-, hcached, -⟩ := (hitem r v).mp (Dict.mem_of_get?_ofItems hv)
    rw [h.2.1] at hcached
    rw [Option.some.inj hcached]
    exact hv

/-! ## 8.  The rows -/

theorem map_filterMap_sublist {α β κ : Type} {f : α → Option β} {g : β → κ} {key : α → κ}
    {l : List α} (h : ∀ a ∈ l, ∀ b, f a = some b → g b = key a) :
    ((l.filterMap f).map g).Sublist (l.map key) := by
  induction l with
  | nil => exact List.Sublist.slnil
  | cons a l ih =>
    have hrest := ih fun a ha => h a (List.mem_cons_of_mem _ ha)
    rw [List.filterMap_cons]
    split
    · exact hrest.cons _
    · rename_i b hb
      rw [List.map_cons, List.map_cons, h a List.mem_cons_self b hb]
      exact hrest.cons_cons _

theorem validated_eq_some {α : Type} {raw : Option (Except String α)} {a : α}
    (h : validated raw = .ok (some a)) : raw = some (.ok a) := by
  cases raw with
  | none => cases h
  | some v =>
    obtain ⟨b, hv, hb⟩ := map_eq_ok.mp h
    rw [hv, Option.some.inj hb]

theorem runState_of_fetchOpen {q : OpenQueries} {state : RunState} {pending : List PendingDecision}
    (h : fetchOpen q = .ok (some state, pending)) : q.runState = .ok (some (.ok state)) := by
  obtain ⟨⟨rawState, rawPending⟩, hgather, hrest⟩ := bind_eq_ok.mp h
  obtain ⟨st, hstate, hrest⟩ := bind_eq_ok.mp hrest
  obtain ⟨p, -, hreturn⟩ := bind_eq_ok.mp hrest
  obtain ⟨rfl, -⟩ := Prod.mk.inj (Except.ok.inj hreturn)
  have hraw : q.runState = .ok rawState := by
    rw [OpenQueries.gather] at hgather
    split_ifs at hgather
    · obtain ⟨p, -, hrest⟩ := bind_eq_ok.mp hgather
      obtain ⟨s, hs, hreturn⟩ := bind_eq_ok.mp hrest
      rw [hs, (Prod.mk.inj (Except.ok.inj hreturn)).1]
    · obtain ⟨s, hs, hrest⟩ := bind_eq_ok.mp hgather
      obtain ⟨p, -, hreturn⟩ := bind_eq_ok.mp hrest
      rw [hs, (Prod.mk.inj (Except.ok.inj hreturn)).1]
  rw [hraw, validated_eq_some hstate]

theorem map_fst_openResults (openIds : List String) (answers : Answers) :
    (openResults openIds answers).map Prod.fst = openIds := by
  rw [openResults, List.map_map]
  exact List.zipIdx_map_fst 0 openIds

theorem map_fst_closedResults (closed : List ClosedRun) (answers : Answers) :
    (closedResults closed answers).map Prod.fst = closed.map (·.id) := by
  rw [closedResults, List.map_map]
  exact List.zipIdx_map_fst 0 _

theorem map_fst_marksResults (answers : Answers) (needMarks : List String) :
    (marksResults answers needMarks).map Prod.fst = needMarks := by
  rw [marksResults, List.map_map]
  exact List.zipIdx_map_fst 0 needMarks

section Snapshot

variable (openIds : List String) (closed : List ClosedRun) (answers : Answers)
  (cache : Dict CachedMarks) (now : ℤ)

/-- The snapshot that `fetchRuns` makes. -/
def snapshot : FleetSnapshot := (fetchRuns openIds closed answers cache now).2

def closedOnly : List (Outcome (Option RunSummary)) :=
  (closedResults closed answers).filter (·.1 ∉ openIds)

theorem runs_snapshot : (snapshot openIds closed answers cache now).runs =
    (openResults openIds answers).filterMap openRow := by
  simp only [snapshot, fetchRuns, foldl_marksRound_fst, foldl_closedRound, foldl_openRound,
    List.nil_append]

theorem closed_snapshot : (snapshot openIds closed answers cache now).closed =
    (closedOnly openIds closed answers).filterMap closedRow := by
  simp only [snapshot, fetchRuns, foldl_marksRound_fst, foldl_closedRound, foldl_openRound,
    List.nil_append, closedOnly]

theorem counted_snapshot : counted (snapshot openIds closed answers cache now) =
    ((openResults openIds answers).filterMap inboxRow).map (·.runId) ++
      ((openResults openIds answers).filterMap (errorRow "")).map (·.runId) := by
  simp only [counted, snapshot, fetchRuns, foldl_marksRound_fst, foldl_closedRound,
    foldl_openRound, List.nil_append]

theorem runs_sublist : ((snapshot openIds closed answers cache now).runs.map (·.runId)).Sublist
    openIds := by
  rw [runs_snapshot]
  conv => rhs; rw [← map_fst_openResults openIds answers]
  refine map_filterMap_sublist fun x hx state hstate => ?_
  obtain ⟨⟨r, i⟩, -, rfl⟩ := List.mem_map.mp hx
  rw [openRow] at hstate
  split at hstate
  · cases hstate
  · rename_i st pending hfetch
    rw [hstate] at hfetch
    exact answers.openRun_named i r state (runState_of_fetchOpen hfetch)

theorem closed_sublist :
    ((snapshot openIds closed answers cache now).closed.map (·.runId)).Sublist
      ((closed.map (·.id)).filter (· ∉ openIds)) := by
  rw [closed_snapshot]
  have hids : (closedOnly openIds closed answers).map Prod.fst =
      (closed.map (·.id)).filter (· ∉ openIds) := by
    rw [closedOnly, ← map_fst_closedResults closed answers, List.filter_map]
    rfl
  rw [← hids]
  refine map_filterMap_sublist fun x hx summary hsummary => ?_
  obtain ⟨⟨r, i⟩, -, rfl⟩ := List.mem_map.mp (List.mem_filter.mp hx).1
  rw [closedRow] at hsummary
  split at hsummary
  · cases hsummary
  · rename_i s hfetch
    rw [hsummary] at hfetch
    obtain ⟨raw, hraw, hvalid⟩ := bind_eq_ok.mp hfetch
    exact answers.closedRun_named i r summary (by rw [hraw, validated_eq_some hvalid])

/-! ## 9.  The counts -/

theorem counted_perm (l : List (Outcome (Option RunState × List PendingDecision))) :
    ((l.filterMap inboxRow).map (·.runId) ++ (l.filterMap (errorRow "")).map (·.runId)).Perm
      ((l.filter fun x => owes x.2).map Prod.fst) := by
  induction l with
  | nil => exact List.Perm.nil
  | cons x l ih =>
    obtain ⟨r, e | ⟨state, pending⟩⟩ := x
    · have hcons := (List.perm_middle (a := r)).trans (ih.cons r)
      simpa [inboxRow, errorRow, owes, List.filterMap_cons] using hcons
    · by_cases hpending : pending = []
      · simpa [inboxRow, errorRow, owes, List.filterMap_cons, hpending] using ih
      · simpa [inboxRow, errorRow, owes, List.filterMap_cons, hpending] using ih.cons r

theorem mem_owing_iff {r : String} :
    r ∈ ((openResults openIds answers).filter fun x => owes x.2).map Prod.fst ↔
      Owes openIds answers r := by
  simp only [openResults, List.mem_map, List.mem_filter, Owes]
  constructor
  · rintro ⟨-, ⟨⟨⟨k, i⟩, hmem, rfl⟩, howes⟩, rfl⟩
    exact ⟨i, List.mem_zipIdx_iff_getElem?.mp hmem, howes⟩
  · rintro ⟨i, hi, howes⟩
    exact ⟨_, ⟨⟨(r, i), List.mem_zipIdx_iff_getElem?.mpr hi, rfl⟩, howes⟩, rfl⟩

/-- **An open id is counted once, if it owes**, where no id is open twice. -/
theorem count_counted (hopen : openIds.Nodup) (r : String) :
    (Owes openIds answers r → (counted (snapshot openIds closed answers cache now)).count r = 1) ∧
      (¬ Owes openIds answers r →
        (counted (snapshot openIds closed answers cache now)).count r = 0) := by
  rw [counted_snapshot, (counted_perm _).count_eq, ← mem_owing_iff]
  have hnodup : (((openResults openIds answers).filter fun x => owes x.2).map Prod.fst).Nodup := by
    refine (List.filter_sublist.map Prod.fst).nodup ?_
    rw [map_fst_openResults]
    exact hopen
  exact ⟨List.count_eq_one_of_mem hnodup, List.count_eq_zero_of_not_mem⟩

theorem mem_open_of_counted {r : String}
    (h : r ∈ counted (snapshot openIds closed answers cache now)) : r ∈ openIds := by
  rw [counted_snapshot, (counted_perm _).mem_iff] at h
  obtain ⟨i, hi, -⟩ := (mem_owing_iff openIds answers).mp h
  exact List.mem_of_getElem? hi

/-! ## 10.  The marks -/

theorem get?_pruned (r : String) :
    (cache.filter fun k _ => k ∈ graphClosed openIds closed)[r]? =
      if r ∈ graphClosed openIds closed then cache[r]? else none := by
  rw [Dict.get?_filter]
  by_cases hr : r ∈ graphClosed openIds closed
  · rw [if_pos hr]
    cases cache[r]? with
    | none => rfl
    | some m => simp only [Option.filter, decide_eq_true_eq, if_pos hr]
  · rw [if_neg hr]
    cases cache[r]? with
    | none => rfl
    | some m => simp only [Option.filter, decide_eq_true_eq, if_neg hr]

theorem of_get?_fetchRuns {r : String} {m : CachedMarks}
    (h : (fetchRuns openIds closed answers cache now).1[r]? = some m) :
    r ∈ graphClosed openIds closed ∧
      (cache[r]? = some m ∨ ∃ i, fetchMarks (answers.marks i r) = .ok m) := by
  rcases get?_foldl_marksRound _ _ _ h with hpruned | hmem
  · rw [get?_pruned] at hpruned
    split_ifs at hpruned with hr
    exact ⟨hr, .inl hpruned⟩
  · have hkey := List.mem_map_of_mem (f := Prod.fst) hmem
    rw [map_fst_marksResults] at hkey
    obtain ⟨⟨k, i⟩, -, hx⟩ := List.mem_map.mp hmem
    obtain ⟨rfl, hfetch⟩ := Prod.mk.inj hx
    exact ⟨(List.mem_filter.mp hkey).1, .inr ⟨i, hfetch⟩⟩

theorem get?_fetchRuns_of_cached {r : String} {m : CachedMarks}
    (hr : r ∈ graphClosed openIds closed) (hm : cache[r]? = some m) :
    (fetchRuns openIds closed answers cache now).1[r]? = some m := by
  have hpruned : (cache.filter fun k _ => k ∈ graphClosed openIds closed)[r]? = some m := by
    rw [get?_pruned, if_pos hr, hm]
  have hnot : r ∉ (marksResults answers ((graphClosed openIds closed).filter
      (· ∉ cache.filter fun k _ => k ∈ graphClosed openIds closed))).map Prod.fst := by
    rw [map_fst_marksResults, List.mem_filter]
    rintro ⟨-, hneed⟩
    exact of_decide_eq_true hneed ((Dict.mem_iff_get? _ r).mpr ⟨m, hpruned⟩)
  exact (get?_foldl_marksRound_of_notMem hnot _ _).trans hpruned

theorem closedMarks_snapshot : (snapshot openIds closed answers cache now).closedMarks =
    servedMarks (graphClosed openIds closed) (fetchRuns openIds closed answers cache now).1 := rfl

theorem mem_graphClosed {r : String} : r ∈ graphClosed openIds closed ↔
    ∃ run ∈ closed, run.workflowType = some "GraphWorkflow" ∧ run.id = r ∧ r ∉ openIds := by
  simp only [graphClosed, List.mem_map, List.mem_filter, decide_eq_true_eq]
  constructor
  · rintro ⟨run, ⟨hmem, htype, hopen⟩, rfl⟩
    exact ⟨run, hmem, htype, rfl, hopen⟩
  · rintro ⟨run, hmem, htype, rfl, hopen⟩
    exact ⟨run, ⟨hmem, htype, hopen⟩, rfl⟩

theorem marks_closed_snapshot {r : String}
    (h : r ∈ (snapshot openIds closed answers cache now).closedMarks) :
    r ∈ closed.map (·.id) ∧ r ∉ openIds := by
  rw [closedMarks_snapshot] at h
  obtain ⟨m, hm⟩ := (Dict.mem_iff_get? _ r).mp h
  obtain ⟨run, hrun, -, rfl, hopen⟩ :=
    (mem_graphClosed openIds closed).mp (get?_servedMarks.mp hm).1
  exact ⟨List.mem_map.mpr ⟨run, hrun, rfl⟩, hopen⟩

theorem execution_of_fetchMarks {q : MarksQuery} {m : CachedMarks} (h : fetchMarks q = .ok m) :
    m.execution = q.execution := by
  obtain ⟨raw, -, hrest⟩ := bind_eq_ok.mp h
  obtain ⟨state, -, hreturn⟩ := bind_eq_ok.mp hrest
  exact congrArg CachedMarks.execution (Except.ok.inj hreturn).symm

end Snapshot

/-! ## 11.  A call -/

variable {l : Listed}

theorem eq_of_once (honce : Once l) {run run' : ClosedRun} (hrun : run ∈ l.2) (hrun' : run' ∈ l.2)
    (hid : run.id = run'.id) (hopen : run'.id ∉ l.1) : run = run' := by
  have hnodup := honce.2
  rw [List.filter_map] at hnodup
  have hmem : ∀ x ∈ l.2, x.id = run'.id →
      x ∈ l.2.filter ((fun r => decide (r ∉ l.1)) ∘ (·.id)) := fun x hx hxid =>
    List.mem_filter.mpr ⟨hx, decide_eq_true ((congrArg (· ∉ l.1) hxid).mpr hopen)⟩
  exact List.inj_on_of_nodup_map hnodup (hmem run hrun hid) (hmem run' hrun' rfl) hid

section Call

variable {openIds : List String} {closed : List ClosedRun} {cache : Dict CachedMarks}

theorem lawful_of_distinct (h : Distinct cache openIds closed) {answers : Answers}
    (hlatest : answers.Latest closed) (now : ℤ) :
    Lawful openIds closed answers (snapshot openIds closed answers cache now) := by
  refine ⟨?_, fun r _ => (count_counted openIds closed answers cache now h.open_nodup r).1,
    fun r _ => (count_counted openIds closed answers cache now h.open_nodup r).2,
    fun r => mem_open_of_counted openIds closed answers cache now,
    fun r => marks_closed_snapshot openIds closed answers cache now, ?_⟩
  · have hruns := runs_sublist openIds closed answers cache now
    have hclosed := closed_sublist openIds closed answers cache now
    refine List.nodup_append'.mpr ⟨hruns.nodup h.open_nodup, hclosed.nodup h.closed_nodup, ?_⟩
    intro r hr hr'
    exact of_decide_eq_true (List.mem_filter.mp (hclosed.subset hr')).2 (hruns.subset hr)
  · intro run hrun m hm
    rw [closedMarks_snapshot] at hm
    obtain ⟨hgraph, hcached, hne⟩ := get?_servedMarks.mp hm
    obtain ⟨run', hrun', htype, hid, hopen⟩ := (mem_graphClosed openIds closed).mp hgraph
    rcases (of_get?_fetchRuns openIds closed answers cache now hcached).2 with
      hold | ⟨i, hfetch⟩
    · -- the two rows of the closed listing are one
      have hsame : run' = run :=
        eq_of_once (l := (openIds, closed)) ⟨h.open_nodup, h.closed_nodup⟩ hrun' hrun hid hopen
      exact h.cache_current run hrun (hsame ▸ htype) hopen m hold hne
    · rw [execution_of_fetchMarks hfetch]
      exact hlatest i run hrun

def last (closed : List ClosedRun) (r : String) : ℕ :=
  (closed.filter (·.id = r)).toFinset.sup (·.execution)

theorem le_last {run : ClosedRun} (h : run ∈ closed) : run.execution ≤ last closed run.id :=
  Finset.le_sup (f := (·.execution))
    (List.mem_toFinset.mpr (List.mem_filter.mpr ⟨h, decide_eq_true rfl⟩))

def everyAnswered (marks : String → Query RunState) (closed : List ClosedRun) : Answers where
  openRun _ r := { runState := .ok (some (.ok ⟨r, none⟩)), pendingDecisions := .ok none }
  closedRun _ r := .ok (some (.ok ⟨r⟩))
  marks _ r := ⟨marks r, last closed r⟩
  openRun_named := by
    intro _ r s h
    rw [← Except.ok.inj (Option.some.inj (Except.ok.inj h))]
  closedRun_named := by
    intro _ r s h
    rw [← Except.ok.inj (Option.some.inj (Except.ok.inj h))]

theorem latest_everyAnswered (marks : String → Query RunState) :
    (everyAnswered marks closed).Latest closed := fun _ _ hrun => le_last hrun

theorem runs_everyAnswered (marks : String → Query RunState) (now : ℤ) :
    (snapshot openIds closed (everyAnswered marks closed) cache now).runs.map (·.runId) =
      openIds := by
  rw [runs_snapshot, openResults, List.filterMap_map]
  have hrow : (openRow ∘ fun x : String × ℕ =>
      (x.1, fetchOpen ((everyAnswered marks closed).openRun x.2 x.1))) =
      some ∘ fun x => (⟨x.1, none⟩ : RunState) := rfl
  rw [hrow, List.filterMap_eq_map, List.map_map]
  exact List.zipIdx_map_fst 0 openIds

theorem closed_everyAnswered (marks : String → Query RunState) (now : ℤ) :
    (snapshot openIds closed (everyAnswered marks closed) cache now).closed.map (·.runId) =
      (closed.map (·.id)).filter (· ∉ openIds) := by
  rw [closed_snapshot, closedOnly, closedResults, List.filter_map, List.filterMap_map]
  have hrow : (closedRow ∘ fun x : String × ℕ =>
      (x.1, fetchClosed ((everyAnswered marks closed).closedRun x.2 x.1))) =
      some ∘ fun x => (⟨x.1⟩ : RunSummary) := rfl
  rw [hrow, List.filterMap_eq_map, List.map_map]
  conv => rhs; rw [← List.zipIdx_map_fst 0 (closed.map (·.id)), List.filter_map]
  rfl

/-- **A call is right, whatever the queries answer, exactly when no run is listed twice and the
cache is not behind.** -/
theorem forall_lawful_iff (now : ℤ) :
    (∀ answers : Answers, answers.Latest closed →
      Lawful openIds closed answers (snapshot openIds closed answers cache now)) ↔
      Distinct cache openIds closed := by
  constructor
  · intro h
    have hlawful := h _ (latest_everyAnswered fun _ => .ok none)
    have hrows := hlawful.rows_nodup
    rw [runs_everyAnswered, closed_everyAnswered] at hrows
    obtain ⟨hopen, hclosed, -⟩ := List.nodup_append'.mp hrows
    refine ⟨hopen, hclosed, fun run hrun htype hid m hm hne => hlawful.marks_current run hrun m ?_⟩
    have hgraph := (mem_graphClosed openIds closed).mpr ⟨run, hrun, htype, rfl, hid⟩
    rw [closedMarks_snapshot]
    exact get?_servedMarks.mpr
      ⟨hgraph, get?_fetchRuns_of_cached openIds closed _ cache now hgraph hm, hne⟩
  · exact fun h answers hlatest => lawful_of_distinct h hlatest now

end Call

/-! ## 12.  A sequence of calls -/

variable {s : FleetState}

variable {c : FleetCall} {flag : Bool}

theorem fetchFleet_of_ok (h : listings s.orderBySupported c = (flag, .ok l)) (answers : Answers) :
    fetchFleet s c answers =
      (⟨flag, (fetchRuns l.1 l.2 answers s.marksCache c.now).1⟩,
        .ok (snapshot l.1 l.2 answers s.marksCache c.now)) := by
  rw [fetchFleet, h]
  rfl

theorem fetchFleet_of_error {e : String} (h : listings s.orderBySupported c = (flag, .error e))
    (answers : Answers) :
    fetchFleet s c answers = ({ s with orderBySupported := flag }, .error e) := by
  rw [fetchFleet, h]

theorem listed_of_ok {flag' : Bool} (h : listings flag c = (flag', .ok l)) (calls : List FleetCall)
    :
    listed flag (c :: calls) = l :: listed flag' calls := by
  rw [listed, h]

theorem listed_of_error {flag' : Bool} {e : String} (h : listings flag c = (flag', .error e))
    (calls : List FleetCall) :
    listed flag (c :: calls) = listed flag' calls := by
  rw [listed, h]

theorem lawfulFrom_of_ok (h : listings s.orderBySupported c = (flag, .ok l))
    (calls : List FleetCall) :
    LawfulFrom s (c :: calls) ↔ ∀ answers : Answers, answers.Latest l.2 →
      Lawful l.1 l.2 answers (snapshot l.1 l.2 answers s.marksCache c.now) ∧
        LawfulFrom ⟨flag, (fetchRuns l.1 l.2 answers s.marksCache c.now).1⟩ calls := by
  rw [LawfulFrom]
  refine forall_congr' fun answers => ?_
  rw [fetchFleet_of_ok h answers, h]
  simp only [Except.ok.injEq, forall_eq', exists_eq_left']

theorem lawfulFrom_of_error {e : String} (h : listings s.orderBySupported c = (flag, .error e))
    (calls : List FleetCall) :
    LawfulFrom s (c :: calls) ↔ LawfulFrom { s with orderBySupported := flag } calls := by
  rw [LawfulFrom]
  simp only [fetchFleet_of_error h, h, reduceCtorEq, false_implies, implies_true, forall_const,
    true_and]
  exact ⟨fun hall => hall (everyAnswered (fun _ => .ok none) []), fun hlawful _ => hlawful⟩

/-- What the cache has is about a closed run of the last listing, and is not of an execution before
the listed one. -/
def CacheOf (prev : Option Listed) (cache : Dict CachedMarks) : Prop :=
  ∀ r m, cache[r]? = some m → ∃ l ∈ prev, r ∈ graphClosed l.1 l.2 ∧
    ∀ run ∈ l.2, run.id = r → run.execution ≤ m.execution

theorem CacheOf.fetchRuns {prev : Option Listed} {cache : Dict CachedMarks}
    (hcache : CacheOf prev cache) (hagain : ∀ p ∈ prev, NotAgain p l) {answers : Answers}
    (hlatest : answers.Latest l.2) (now : ℤ) :
    CacheOf (some l) (fetchRuns l.1 l.2 answers cache now).1 := by
  intro r m hm
  obtain ⟨hgraph, hfrom⟩ := of_get?_fetchRuns l.1 l.2 answers cache now hm
  refine ⟨l, rfl, hgraph, fun run hrun hid => ?_⟩
  rcases hfrom with hcached | ⟨i, hfetch⟩
  · -- it stayed closed since the listing before, and was not executed again
    obtain ⟨p, hp, hbefore, hle⟩ := hcache r m hcached
    obtain ⟨run', hrun', -, hid', -⟩ := (mem_graphClosed p.1 p.2).mp hbefore
    have hnot := hagain p hp run' hrun' run hrun (hid'.trans hid.symm) (hid'.symm ▸ hbefore)
      (hid.symm ▸ hgraph)
    exact hnot.trans (hle run' hrun' hid')
  · rw [execution_of_fetchMarks hfetch, ← hid]
    exact hlatest i run hrun

theorem CacheOf.distinct {prev : Option Listed} {cache : Dict CachedMarks}
    (hcache : CacheOf prev cache) (hagain : ∀ p ∈ prev, NotAgain p l) (honce : Once l) :
    Distinct cache l.1 l.2 := by
  refine ⟨honce.1, honce.2, fun run hrun htype hopen m hm _ => ?_⟩
  obtain ⟨p, hp, hbefore, hle⟩ := hcache run.id m hm
  obtain ⟨run', hrun', -, hid', -⟩ := (mem_graphClosed p.1 p.2).mp hbefore
  have hgraph := (mem_graphClosed l.1 l.2).mpr ⟨run, hrun, htype, rfl, hopen⟩
  exact (hagain p hp run' hrun' run hrun hid' (hid'.symm ▸ hbefore) hgraph).trans
    (hle run' hrun' hid')

theorem lawfulFrom_of_once (calls : List FleetCall) {prev : Option Listed}
    (hcache : CacheOf prev s.marksCache) (honce : ∀ l ∈ listed s.orderBySupported calls, Once l)
    (hagain : ∀ p ∈ prev, ∀ l ∈ (listed s.orderBySupported calls).head?, NotAgain p l)
    (hchain : (listed s.orderBySupported calls).IsChain NotAgain) : LawfulFrom s calls := by
  induction calls generalizing prev s with
  | nil => trivial
  | cons c calls ih =>
    rcases hl : listings s.orderBySupported c with ⟨flag, e | l⟩
    · rw [listed_of_error hl] at honce hagain hchain
      exact (lawfulFrom_of_error hl calls).mpr (ih hcache honce hagain hchain)
    · rw [listed_of_ok hl] at honce hagain hchain
      obtain ⟨hhead, htail⟩ := List.isChain_cons.mp hchain
      have hnot : ∀ p ∈ prev, NotAgain p l := fun p hp => hagain p hp l rfl
      refine (lawfulFrom_of_ok hl calls).mpr fun answers hlatest => ⟨?_, ?_⟩
      · exact lawful_of_distinct (hcache.distinct hnot (honce l List.mem_cons_self)) hlatest c.now
      · refine ih (hcache.fetchRuns hnot hlatest c.now)
          (fun l' hl' => honce l' (List.mem_cons_of_mem _ hl')) ?_ htail
        rintro p ⟨⟩ l' hl'
        exact hhead l' hl'

theorem le_of_lawfulFrom (calls : List FleetCall) (h : LawfulFrom s calls)
    (hm : s.marksCache[r]? = some m) (hne : m.marks ≠ ∅)
    (hl : l ∈ (listed s.orderBySupported calls).head?) (hgraph : r ∈ graphClosed l.1 l.2)
    {run : ClosedRun} (hrun : run ∈ l.2) (hid : run.id = r) :
    run.execution ≤ m.execution := by
  induction calls generalizing s with
  | nil => cases hl
  | cons c calls ih =>
    rcases hlist : listings s.orderBySupported c with ⟨flag, e | l'⟩
    · rw [listed_of_error hlist] at hl
      exact ih ((lawfulFrom_of_error hlist calls).mp h) hm hl
    · rw [listed_of_ok hlist] at hl
      obtain rfl := Option.some.inj hl
      obtain ⟨hlawful, -⟩ := (lawfulFrom_of_ok hlist calls).mp h _
        (latest_everyAnswered fun _ => .ok none)
      refine hlawful.marks_current run hrun m ?_
      rw [closedMarks_snapshot, hid]
      exact get?_servedMarks.mpr
        ⟨hgraph, get?_fetchRuns_of_cached l'.1 l'.2 _ s.marksCache c.now hgraph hm, hne⟩

theorem last_le (honce : Once l) {run : ClosedRun} (hrun : run ∈ l.2) (hopen : run.id ∉ l.1) :
    last l.2 run.id ≤ run.execution := by
  refine Finset.sup_le fun run' hrun' => ?_
  obtain ⟨hmem', hid⟩ := List.mem_filter.mp (List.mem_toFinset.mp hrun')
  rw [eq_of_once honce hmem' hrun (of_decide_eq_true hid) hopen]

def someMarks : Dict DotState := (∅ : Dict DotState).insert "intake" .done

theorem closeMarks_someMarks_ne : closeMarks someMarks ≠ ∅ := by
  decide

theorem get?_fetchRuns_someMarks {openIds : List String} {closed : List ClosedRun}
    (hr : r ∈ graphClosed openIds closed) (now : ℤ) :
    (fetchRuns openIds closed
      (everyAnswered (fun r => .ok (some (.ok ⟨r, some someMarks⟩))) closed) ∅ now).1[r]? =
      some ⟨closeMarks someMarks, last closed r⟩ := by
  have hempty : r ∉ (∅ : Dict CachedMarks).filter fun k _ => k ∈ graphClosed openIds closed := by
    rw [Dict.notMem_iff_get?, get?_pruned, Dict.get?_empty, ite_self]
  have hneed : r ∈ (marksResults (everyAnswered (fun r => .ok (some (.ok ⟨r, some someMarks⟩)))
      closed) ((graphClosed openIds closed).filter
        (· ∉ (∅ : Dict CachedMarks).filter fun k _ => k ∈ graphClosed openIds closed))).map
          Prod.fst := by
    rw [map_fst_marksResults]
    exact List.mem_filter.mpr ⟨hr, decide_eq_true hempty⟩
  refine get?_foldl_marksRound_of_answered (.inr hneed) (fun x hx hxr => ?_) _
  obtain ⟨⟨k, i⟩, -, rfl⟩ := List.mem_map.mp hx
  obtain rfl : k = r := hxr
  rfl

theorem fetchRuns_unanswered (openIds : List String) (closed : List ClosedRun) (now : ℤ) :
    (fetchRuns openIds closed (everyAnswered (fun _ => .error "") closed) ∅ now).1 = ∅ := by
  refine (Dict.eq_empty_iff _).mpr fun r => Option.eq_none_iff_forall_ne_some.mpr fun m hm => ?_
  rcases (of_get?_fetchRuns openIds closed _ ∅ now hm).2 with hcached | ⟨i, hfetch⟩
  · rw [Dict.get?_empty] at hcached
    cases hcached
  · cases hfetch

theorem once_of_lawfulFrom (calls : List FleetCall) (h : LawfulFrom s calls) :
    ∀ l ∈ listed s.orderBySupported calls, Once l := by
  induction calls generalizing s with
  | nil => nofun
  | cons c calls ih =>
    rcases hlist : listings s.orderBySupported c with ⟨flag, e | l⟩
    · rw [listed_of_error hlist]
      exact ih ((lawfulFrom_of_error hlist calls).mp h)
    · rw [listed_of_ok hlist]
      have hall := (lawfulFrom_of_ok hlist calls).mp h
      have hdistinct := (forall_lawful_iff c.now).mp fun answers hlatest => (hall answers hlatest).1
      have hrest := ih (hall _ (latest_everyAnswered fun _ => .ok none)).2
      exact List.forall_mem_cons.mpr ⟨⟨hdistinct.open_nodup, hdistinct.closed_nodup⟩, hrest⟩

theorem isChain_of_lawfulFrom (calls : List FleetCall) (h : LawfulFrom s calls)
    (hempty : s.marksCache = ∅) : (listed s.orderBySupported calls).IsChain NotAgain := by
  induction calls generalizing s with
  | nil => exact List.IsChain.nil
  | cons c calls ih =>
    have honce := once_of_lawfulFrom _ h
    rcases hlist : listings s.orderBySupported c with ⟨flag, e | l⟩
    · rw [listed_of_error hlist]
      exact ih ((lawfulFrom_of_error hlist calls).mp h) hempty
    · rw [listed_of_ok hlist] at honce ⊢
      have hall := (lawfulFrom_of_ok hlist calls).mp h
      rw [hempty] at hall
      refine List.isChain_cons.mpr ⟨fun l' hl' => ?_, ?_⟩
      · -- the marks of the runs of `l` are cached, as of the executions that are listed there
        intro run hrun run' hrun' hid hgraph hgraph'
        have hmarked := (hall _ (latest_everyAnswered fun r =>
          .ok (some (.ok ⟨r, some someMarks⟩)))).2
        have hle := le_of_lawfulFrom calls hmarked (get?_fetchRuns_someMarks hgraph c.now)
          closeMarks_someMarks_ne hl' (hid ▸ hgraph') hrun' hid.symm
        obtain ⟨-, -, -, -, hopen⟩ := (mem_graphClosed l.1 l.2).mp hgraph
        exact hle.trans (last_le (honce l List.mem_cons_self) hrun hopen)
      · exact ih (hall _ (latest_everyAnswered fun _ => .error "")).2
          (fetchRuns_unanswered l.1 l.2 c.now)

/-- **A snapshot lists each run once**, at each call of a sequence and however its queries are
answered, exactly when no listing names a run twice, but for a run that is open and closed, and no
closed run of a graph is executed again and closed before it has been seen to be anything else. -/
theorem fleet_lawful_iff (orderBySupported : Bool) (calls : List FleetCall) :
    LawfulFrom { orderBySupported := orderBySupported } calls ↔
      (∀ l ∈ listed orderBySupported calls, Once l) ∧
        (listed orderBySupported calls).IsChain NotAgain := by
  constructor
  · exact fun h => ⟨once_of_lawfulFrom calls h, isChain_of_lawfulFrom calls h rfl⟩
  · rintro ⟨honce, hchain⟩
    have hcache : CacheOf none ∅ := by
      intro r m hm
      rw [Dict.get?_empty] at hm
      cases hm
    exact lawfulFrom_of_once calls hcache honce nofun hchain

def callOf (closed : List ClosedRun) : FleetCall where
  now := 0
  openRuns := ⟨[], none⟩
  ordered := ⟨closed, none⟩
  unordered := ⟨closed, none⟩

/-- An id that was executed twice has two rows; and one that is executed again between two calls has
the marks of the execution before. -/
theorem executed_again :
    (∃ snap, (fetchFleet {} (callOf [⟨"run", some "FeatureWorkflow", 1⟩,
          ⟨"run", some "FeatureWorkflow", 0⟩])
        (everyAnswered (fun _ => .ok none) [⟨"run", some "FeatureWorkflow", 1⟩])).2 = .ok snap ∧
      snap.closed.map (·.runId) = ["run", "run"]) ∧
    ¬ LawfulFrom {} [callOf [⟨"run", some "FeatureWorkflow", 1⟩,
      ⟨"run", some "FeatureWorkflow", 0⟩]] ∧
    (∃ snap, (fetchFleet
        (fetchFleet {} (callOf [⟨"run", some "GraphWorkflow", 0⟩])
          (everyAnswered (fun r => .ok (some (.ok ⟨r, some someMarks⟩)))
            [⟨"run", some "GraphWorkflow", 0⟩])).1
        (callOf [⟨"run", some "GraphWorkflow", 1⟩])
        (everyAnswered (fun _ => .ok none) [⟨"run", some "GraphWorkflow", 1⟩])).2 = .ok snap ∧
      (snap.closedMarks["run"]?.map (·.execution)) = some 0) ∧
    ¬ LawfulFrom {} [callOf [⟨"run", some "GraphWorkflow", 0⟩],
      callOf [⟨"run", some "GraphWorkflow", 1⟩]] := by
  refine ⟨⟨_, rfl, by decide⟩, fun h => ?_, ⟨_, rfl, by decide +kernel⟩, fun h => ?_⟩
  · exact absurd (once_of_lawfulFrom _ h _ List.mem_cons_self).2 (by decide)
  · have hchain := isChain_of_lawfulFrom _ h rfl
    have hnot := (List.isChain_cons_cons.mp hchain).1
    exact absurd (hnot ⟨"run", some "GraphWorkflow", 0⟩ List.mem_cons_self
      ⟨"run", some "GraphWorkflow", 1⟩ List.mem_cons_self rfl (by decide) (by decide)) (by decide)

/-! ## 13.  Admission -/

/-- **A lawful snapshot counts the runs that owe a decision, or that could not be read.** -/
theorem Lawful.pendingRunCount_eq {openIds : List String} {closed : List ClosedRun}
    {answers : Answers} {snap : FleetSnapshot} (h : Lawful openIds closed answers snap) :
    pendingRunCount snap = {r | Owes openIds answers r}.ncard := by
  have hone : ∀ r ∈ counted snap, (counted snap).count r = 1 := by
    intro r hr
    by_contra hne
    have hopen := h.counted_open r hr
    have hzero := h.counted_never r hopen fun howes => hne (h.counted_once r hopen howes)
    exact List.count_eq_zero.mp hzero hr
  have hmem : {r | Owes openIds answers r} = ((counted snap).toFinset : Set String) := by
    ext r
    rw [List.coe_toFinset]
    constructor
    · intro howes
      have hopen : r ∈ openIds := howes.elim fun i hi => List.mem_of_getElem? hi.1
      have hcount := h.counted_once r hopen howes
      exact List.count_pos_iff.mp (hcount.symm ▸ Nat.one_pos)
    · intro hr
      by_contra hnot
      exact List.count_eq_zero.mp (h.counted_never r (h.counted_open r hr) hnot) hr
  have hnodup : (counted snap).Nodup := List.nodup_iff_count_le_one.mpr fun r => by
    by_cases hr : r ∈ counted snap
    · exact (hone r hr).le
    · exact (List.count_eq_zero.mpr hr).le.trans (Nat.zero_le 1)
  rw [hmem, Set.ncard_coe_finset, List.toFinset_card_of_nodup hnodup]
  exact Fleet.pendingRunCount_eq snap

/-- **A run is admitted exactly where fewer runs than the cap owe a decision**, or cannot be read. -/
theorem checkFleetCapacity_eq_ok_iff {openIds : List String} {closed : List ClosedRun}
    {answers : Answers} {snap : FleetSnapshot} (h : Lawful openIds closed answers snap)
    (cap : Option ℤ) : checkFleetCapacity snap cap = .ok () ↔
      ∀ n ∈ cap, ({r | Owes openIds answers r}.ncard : ℤ) < n := by
  rw [← h.pendingRunCount_eq]
  cases cap with
  | none => exact ⟨fun _ => nofun, fun _ => rfl⟩
  | some n =>
    rw [checkFleetCapacity]
    by_cases hn : n ≤ pendingRunCount snap
    · simp [hn]
    · simp [hn, not_le.mp hn]

theorem checkFleetCapacity_eq_ok_iff_sample :
    ({r | Owes ["run"] (everyAnswered (fun _ => .ok none) []) r}.ncard : ℤ) < 2 :=
  (checkFleetCapacity_eq_ok_iff (lawful_of_distinct (show Distinct ∅ ["run"] [] from
    ⟨by decide, by decide, by decide⟩) (latest_everyAnswered _) 0) (some 2)).mp rfl 2 rfl

end Kroker.Fleet
