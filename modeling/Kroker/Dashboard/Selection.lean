import Kroker.Dashboard.Board

/-!
# The board shows the selected task

Fetches overlap: a task may be selected while the fetch of another is in flight, and the answer to
either may come first.  The generation of the mount tells them apart only across a `stop`, and what
`select` puts back after a failure is what it found, which need not fit by then.

`settled_iff_timely` says exactly which runs show what is selected: those in which each fetch that
ends finds its own task selected, or does no harm to the one that is (`Fetch.Timely`).
-/

namespace Kroker.BoardView

/-! ## 1.  What is rendered -/

def Selection.Fits (x : Selection) : Prop :=
  (∀ d ∈ x.detail, x.taskId = some d.task.taskId) ∧
    ∀ e ∈ x.events, ∃ row : BoardTask, x.taskId = some row.taskId ∧ e.subject = taskSubject row

/-- **With no fetch in flight**, what is rendered is of the selected task. -/
def Settled (s : Store) : Prop := s.fetches = [] → s.selected.Fits

/-- How a fetch ends. -/
inductive Outcome where
  | fetched
  | notFound
  | failed

/-- The fetch that an event ends, with its position among those in flight. -/
def Store.ends? (s : Store) : Event → Option (ℕ × Fetch × Outcome)
  | .detailArrived i _ =>
    (s.fetches[i]?.filter (·.events.isSome)).map fun fetch => (i, fetch, .fetched)
  | .eventsArrived i _ =>
    (s.fetches[i]?.filter (·.detail.isSome)).map fun fetch => (i, fetch, .fetched)
  | .fetchFailed i notFound =>
    s.fetches[i]?.map fun fetch => (i, fetch, if notFound then .notFound else .failed)
  | _ => none

/-- **A fetch for a task that is no longer selected** keeps the selection, and the detail where it
is that of the selected task. -/
def Undisturbed (s : Store) (e : Event) (s' : Store) : Prop :=
  ∀ i fetch outcome id, s.ends? e = some (i, fetch, outcome) → s.selected.taskId = some id →
    id ≠ fetch.row.taskId →
    s'.selected.taskId = some id ∧
      ∀ d ∈ s.selected.detail, d.task.taskId = id → s'.selected.detail = some d

/-- What the end of a fetch has to find, the `last` one or not. -/
def Fetch.Timely (fetch : Fetch) (selected : Selection) (generation : ℕ) (last : Prop) :
    Outcome → Prop
  -- Its task is selected; or another fetch is still to come, and what is rendered is not of the
  -- selected task.
  | .fetched =>
    if fetch.generation = generation then
      selected.taskId = some fetch.row.taskId ∨
        ¬last ∧ ∀ d ∈ selected.detail, selected.taskId ≠ some d.task.taskId
    else last → selected.Fits
  -- No other task is selected.
  | .notFound =>
    match fetch.prior with
    | none => last → selected.Fits
    | some _ => ∀ id ∈ selected.taskId, id = fetch.row.taskId
  -- What is put back fits; and where another task is selected, it is what was selected before.
  | .failed =>
    match fetch.prior with
    | none => last → selected.Fits
    | some prior =>
      (last → prior.Fits) ∧ ∀ id ∈ selected.taskId, id ≠ fetch.row.taskId →
        prior.taskId = some id ∧ ∀ d ∈ selected.detail, d.task.taskId = id → prior.detail = some d

/-- What a step has to find. -/
def Timely (s : Store) (e : Event) : Prop :=
  ∀ i fetch outcome, s.ends? e = some (i, fetch, outcome) →
    fetch.Timely s.selected s.generation (s.fetches.eraseIdx i = []) outcome


/-! ## 2.  What a step does -/

inductive Ended (s : Store) (i : ℕ) (fetch : Fetch) : Outcome → Store → Prop
  | fetched {detail : TaskDetail} {events : List BoardEvent}
      (hdetail : detail.task.taskId = fetch.row.taskId)
      (hevents : ∀ e ∈ events, e.subject = taskSubject fetch.row) :
      Ended s i fetch .fetched
        ({ s with fetches := s.fetches.eraseIdx i }.fetched fetch detail events)
  | notFound :
      Ended s i fetch .notFound
        ({ s with fetches := s.fetches.eraseIdx i }.fetchFailed fetch true)
  | failed :
      Ended s i fetch .failed
        ({ s with fetches := s.fetches.eraseIdx i }.fetchFailed fetch false)

/-- No fetch ends; the selection is as it was, or is cleared, or a fetch is in flight. -/
def Going (s s' : Store) : Prop :=
  s'.fetches = [] → (s.fetches = [] ∧ s'.selected = s.selected) ∨ s'.selected = {}

inductive Advance (s : Store) (e : Event) : Store → Prop
  | going {s' : Store} (hends : s.ends? e = none) (h : Going s s') : Advance s e s'
  | ended {i : ℕ} {fetch : Fetch} {outcome : Outcome} {s' : Store}
      (hends : s.ends? e = some (i, fetch, outcome)) (h : Ended s i fetch outcome s') :
      Advance s e s'

section Going

variable (s : Store)

theorem going_of_eq {s s' : Store} (hfetches : s'.fetches = s.fetches)
    (hselected : s'.selected = s.selected) : Going s s' :=
  fun hnone => .inl ⟨hfetches.symm.trans hnone, hselected⟩

theorem going_of_fetch {s s' : Store} (hfetches : s'.fetches ≠ []) : Going s s' :=
  fun hnone => absurd hnone hfetches

theorem going_start (runId : String) (projectKey : Option String) :
    Going s (s.start runId projectKey) := by
  cases projectKey with
  | none => exact fun _ => .inr rfl
  | some projectKey => exact fun _ => .inr rfl

theorem going_select (taskId : String) : Going s (s.select taskId) := by
  unfold Store.select
  split
  · exact going_of_fetch (List.append_ne_nil_of_right_ne_nil _ (List.cons_ne_nil _ _))
  · exact going_of_eq rfl rfl

theorem polled_fields : s.polled.fetches = s.fetches ∧ s.polled.selected = s.selected := by
  unfold Store.polled
  split
  · exact ⟨rfl, rfl⟩
  · exact ⟨rfl, rfl⟩

theorem going_rowsArrived (rows : List BoardTask) : Going s (s.rowsArrived rows).polled := by
  obtain ⟨hfetches, hselected⟩ := polled_fields (s.rowsArrived rows)
  cases hmoved : s.moved? rows with
  | none =>
    have hrows : (s.rowsArrived rows).fetches = s.fetches ∧
        (s.rowsArrived rows).selected = s.selected := by
      simp [Store.rowsArrived, hmoved]
    exact going_of_eq (hfetches.trans hrows.1) (hselected.trans hrows.2)
  | some row =>
    refine going_of_fetch ?_
    rw [hfetches]
    simp [Store.rowsArrived, hmoved, Store.fetchSelection]

theorem going_pollArrived {s s' : Store} {poll : Poll} {answer : PollAnswer}
    (h : s.pollArrived poll answer = some s') : Going s s' := by
  unfold Store.pollArrived at h
  split at h
  · cases h
    exact going_of_eq rfl rfl
  · split at h
    · cases h
      exact going_of_eq rfl rfl
    · split at h
      · obtain ⟨-, h⟩ := Option.ite_none_right_eq_some.mp h
        cases h
        obtain ⟨hfetches, hselected⟩ := polled_fields (s.loaded _ _ _ _)
        exact going_of_eq hfetches hselected
      · obtain ⟨-, h⟩ := Option.ite_none_right_eq_some.mp h
        cases h
        exact going_rowsArrived s _
      · cases h
        exact going_of_eq rfl rfl
      · cases h

end Going

theorem ne_nil_of_getElem? {α : Type} {xs : List α} {i : ℕ} {x y : α} (h : xs[i]? = some x) :
    xs.set i y ≠ [] := by
  intro hnil
  have hlength : xs.length = 0 := by rw [← List.length_set (i := i) (a := y), hnil]; rfl
  rw [List.length_eq_zero_iff.mp hlength] at h
  cases h

variable {fetch : Fetch}

variable {s' : Store} {detail : TaskDetail}

theorem advance_detailArrived {s : Store} {i : ℕ} (hfetch : s.fetches[i]? = some fetch)
    (h : s.detailArrived i fetch detail = some s') :
    Advance s (.detailArrived i detail) s' := by
  unfold Store.detailArrived at h
  split at h
  · rename_i hnew
    split at h
    · rename_i events hevents
      cases h
      have hends : s.ends? (.detailArrived i detail) = some (i, fetch, .fetched) := by
        simp [Store.ends?, hfetch, hevents]
      exact .ended hends (.fetched hnew.2 (fetch.ofSubject events hevents))
    · rename_i hevents
      cases h
      refine .going ?_ (going_of_fetch (ne_nil_of_getElem? hfetch))
      simp [Store.ends?, hfetch, hevents]
  · cases h

variable {events : List BoardEvent}

theorem advance_eventsArrived {s : Store} {i : ℕ} (hfetch : s.fetches[i]? = some fetch)
    (h : s.eventsArrived i fetch events = some s') :
    Advance s (.eventsArrived i events) s' := by
  unfold Store.eventsArrived at h
  split at h
  · rename_i hnew
    split at h
    · rename_i detail hdetail
      cases h
      have hends : s.ends? (.eventsArrived i events) = some (i, fetch, .fetched) := by
        simp [Store.ends?, hfetch, hdetail]
      exact .ended hends (.fetched (fetch.ofTask detail hdetail) hnew.2)
    · rename_i hdetail
      cases h
      refine .going ?_ (going_of_fetch (ne_nil_of_getElem? hfetch))
      simp [Store.ends?, hfetch, hdetail]
  · cases h

theorem advance_of_step {s : Store} {e : Event} (h : step s e = some s') : Advance s e s' := by
  cases e with
  | start runId projectKey =>
    cases h
    exact .going rfl (going_start s runId projectKey)
  | stop =>
    cases h
    exact .going rfl fun _ => .inr rfl
  | select taskId =>
    cases h
    exact .going rfl (going_select s taskId)
  | tick =>
    obtain ⟨-, h⟩ := Option.ite_none_right_eq_some.mp h
    cases h
    exact .going rfl (going_of_eq rfl rfl)
  | pollArrived i answer =>
    obtain ⟨poll, -, h⟩ := Option.bind_eq_some_iff.mp h
    have hgoing := going_pollArrived h
    exact .going rfl hgoing
  | detailArrived i detail =>
    obtain ⟨fetch, hfetch, h⟩ := Option.bind_eq_some_iff.mp h
    exact advance_detailArrived hfetch h
  | eventsArrived i events =>
    obtain ⟨fetch, hfetch, h⟩ := Option.bind_eq_some_iff.mp h
    exact advance_eventsArrived hfetch h
  | fetchFailed i notFound =>
    obtain ⟨fetch, hfetch, rfl⟩ := Option.map_eq_some_iff.mp h
    cases notFound with
    | false => exact .ended (by simp [Store.ends?, hfetch]) .failed
    | true => exact .ended (by simp [Store.ends?, hfetch]) .notFound

/-! ## 3.  The end of a fetch -/

theorem fits_fetched_iff {x : Selection} {row : BoardTask}
    (hdetail : detail.task.taskId = row.taskId)
    (hevents : ∀ e ∈ events, e.subject = taskSubject row) :
    Selection.Fits
        { x with
          detail := some detail
          events := events } ↔ x.taskId = some row.taskId := by
  constructor
  · intro h
    exact (h.1 detail rfl).trans (congrArg some hdetail)
  · intro hselected
    refine ⟨?_, fun e he => ⟨row, hselected, hevents e he⟩⟩
    rintro d ⟨⟩
    exact hselected.trans (congrArg some hdetail.symm)

theorem fits_empty : Selection.Fits {} := ⟨nofun, nofun⟩

def KeepsSelected (fetch : Fetch) (selected selected' : Selection) : Prop :=
  ∀ id, selected.taskId = some id → id ≠ fetch.row.taskId →
    selected'.taskId = some id ∧
      ∀ d ∈ selected.detail, d.task.taskId = id → selected'.detail = some d

theorem keepsSelected_rfl (fetch : Fetch) (selected : Selection) :
    KeepsSelected fetch selected selected :=
  fun _ hid _ => ⟨hid, fun _ hd _ => hd⟩

theorem undisturbed_iff {s : Store} {e : Event} {i : ℕ} {outcome : Outcome}
    (hends : s.ends? e = some (i, fetch, outcome)) :
    Undisturbed s e s' ↔ KeepsSelected fetch s.selected s'.selected := by
  constructor
  · intro h id
    exact h i fetch outcome id hends
  · intro h i' fetch' outcome' id hends'
    cases hends.symm.trans hends'
    exact h id

theorem timely_iff {s : Store} {e : Event} {i : ℕ} {outcome : Outcome}
    (hends : s.ends? e = some (i, fetch, outcome)) :
    Timely s e ↔
      fetch.Timely s.selected s.generation (s.fetches.eraseIdx i = []) outcome := by
  constructor
  · intro h
    exact h i fetch outcome hends
  · intro h i' fetch' outcome' hends'
    cases hends.symm.trans hends'
    exact h

theorem keepsSelected_fetched_iff {x : Selection} (hdetail : detail.task.taskId = fetch.row.taskId)
    :
    KeepsSelected fetch x
        { x with
          detail := some detail
          events := events } ↔
      x.taskId = some fetch.row.taskId ∨ ∀ d ∈ x.detail, x.taskId ≠ some d.task.taskId := by
  constructor
  · intro h
    by_cases hselected : x.taskId = some fetch.row.taskId
    · exact .inl hselected
    · refine .inr fun d hd hid => ?_
      have hother : d.task.taskId ≠ fetch.row.taskId := fun heq => hselected (heq ▸ hid)
      have hsame : some detail = some d := (h d.task.taskId hid hother).2 d hd rfl
      exact hother (Option.some.inj hsame ▸ hdetail)
  · rintro (hselected | hunrendered) id hid hother
    · exact absurd (Option.some.inj (hid.symm.trans hselected)) hother
    · exact ⟨hid, fun d hd hsame => absurd (hsame ▸ hid) (hunrendered d hd)⟩

/-- **A fetch renders its task**: where another is selected, this must not be rendered yet, and
another fetch must be in flight. -/
theorem fetched_iff {s : Store} (hdetail : detail.task.taskId = fetch.row.taskId)
    (hevents : ∀ e ∈ events, e.subject = taskSubject fetch.row) :
    Settled (s.fetched fetch detail events) ∧
        KeepsSelected fetch s.selected (s.fetched fetch detail events).selected ↔
      fetch.Timely s.selected s.generation (s.fetches = []) .fetched := by
  unfold Store.fetched Fetch.Timely
  by_cases hgeneration : fetch.generation = s.generation
  · simp only [hgeneration, ne_eq, not_true_eq_false, if_false, if_true]
    rw [keepsSelected_fetched_iff hdetail, Settled]
    dsimp only
    rw [fits_fetched_iff hdetail hevents]
    constructor
    · rintro ⟨hlast, hselected | hunrendered⟩
      · exact .inl hselected
      · by_cases hnone : s.fetches = []
        · exact .inl (hlast hnone)
        · exact .inr ⟨hnone, hunrendered⟩
    · rintro (hselected | ⟨hmore, hunrendered⟩)
      · exact ⟨fun _ => hselected, .inl hselected⟩
      · exact ⟨fun hnone => absurd hnone hmore, .inr hunrendered⟩
  · rw [if_pos hgeneration, if_neg hgeneration]
    exact and_iff_left (keepsSelected_rfl fetch s.selected)

/-- **A fetch that fails** is given up, clears the selection, or puts it back. -/
theorem failed_iff {s : Store} :
    Settled (s.fetchFailed fetch false) ∧
        KeepsSelected fetch s.selected (s.fetchFailed fetch false).selected ↔
      fetch.Timely s.selected s.generation (s.fetches = []) .failed := by
  unfold Store.fetchFailed Fetch.Timely
  cases fetch.prior with
  | none => exact and_iff_left (keepsSelected_rfl fetch s.selected)
  | some prior => exact Iff.rfl

theorem notFound_iff {s : Store} :
    Settled (s.fetchFailed fetch true) ∧
        KeepsSelected fetch s.selected (s.fetchFailed fetch true).selected ↔
      fetch.Timely s.selected s.generation (s.fetches = []) .notFound := by
  unfold Store.fetchFailed Fetch.Timely
  cases fetch.prior with
  | none => exact and_iff_left (keepsSelected_rfl fetch s.selected)
  | some prior =>
    constructor
    · intro h id hid
      by_contra hother
      exact absurd (h.2 id hid hother).1 nofun
    · intro h
      refine ⟨fun _ => fits_empty, fun id hid hother => ?_⟩
      exact absurd (h id hid) hother

/-- **The end of a fetch does no harm exactly where it is timely.** -/
theorem Ended.iff_timely {s : Store} {i : ℕ} {outcome : Outcome} (h : Ended s i fetch outcome s') :
    Settled s' ∧ KeepsSelected fetch s.selected s'.selected ↔
      fetch.Timely s.selected s.generation (s.fetches.eraseIdx i = []) outcome := by
  cases h with
  | fetched hdetail hevents =>
    exact fetched_iff (s := { s with fetches := s.fetches.eraseIdx i }) hdetail hevents
  | notFound => exact notFound_iff (s := { s with fetches := s.fetches.eraseIdx i })
  | failed => exact failed_iff (s := { s with fetches := s.fetches.eraseIdx i })

/-! ## 4.  Runs -/

theorem Going.settled {s : Store} (h : Going s s') (hs : Settled s) : Settled s' := by
  intro hnone
  rcases h hnone with ⟨hnone, hselected⟩ | hselected
  · rw [hselected]
    exact hs hnone
  · rw [hselected]
    exact fits_empty

/-- **The board shows the selected task, and late answers leave it, exactly in the runs whose
fetches end timely.** -/
theorem settled_iff_timely {log : List (Transition Store Event)} {s : Store}
    (run : Run {} step log s) :
    (∀ x ∈ log, Settled x.after ∧ Undisturbed x.before x.event x.after) ↔
      ∀ x ∈ log, Timely x.before x.event := by
  refine Run.forall_iff (fun _ => fits_empty) ?_ run
  intro s e s' _ hs haccepted
  cases advance_of_step haccepted with
  | going hends h =>
    refine iff_of_true ⟨h.settled hs, fun i fetch outcome id hsome => ?_⟩
      fun i fetch outcome hsome => ?_
    · rw [hends] at hsome
      cases hsome
    · rw [hends] at hsome
      cases hsome
  | ended hends h =>
    rw [undisturbed_iff hends, timely_iff hends]
    exact h.iff_timely

/-! ## 5.  Samples -/

def Store.renders (s : Store) (e : Event) : Bool :=
  match s.ends? e with
  | none => true
  | some (_, fetch, .fetched) =>
    fetch.generation = s.generation && s.selected.taskId = some fetch.row.taskId
  | some _ => false

theorem timely_of_renders {s : Store} {e : Event} (h : s.renders e = true) : Timely s e := by
  intro i fetch outcome hends
  rw [Store.renders, hends] at h
  cases outcome with
  | fetched =>
    simp only [Bool.and_eq_true, decide_eq_true_eq] at h
    rw [Fetch.Timely, if_pos h.1]
    exact .inl h.2
  | notFound => cases h
  | failed => cases h

/-- A board with two tasks. -/
def mounted : List Event :=
  [.start "r1" (some "kroker"),
    .pollArrived 0 (.loaded (some [⟨7, "r1"⟩]) [⟨"T01", 7, 1⟩, ⟨"T02", 7, 1⟩] [("plan", [⟨7, "r1"⟩])])]

/-- A task is selected, its row moves and it is fetched again, and the other one is selected. -/
def oneByOne : List Event :=
  mounted ++ [.select "T01", .detailArrived 0 ⟨⟨"T01", 7, 1⟩, []⟩,
    .eventsArrived 0 [⟨"task:7:T01", "created"⟩], .tick,
    .pollArrived 0 (.rows [⟨"T01", 7, 2⟩, ⟨"T02", 7, 1⟩]), .eventsArrived 0 [],
    .detailArrived 0 ⟨⟨"T01", 7, 2⟩, []⟩, .select "T02", .eventsArrived 0 [],
    .detailArrived 0 ⟨⟨"T02", 7, 1⟩, []⟩]

theorem settled_iff_timely_sample :
    ∃ log s, Run {} step log s ∧
      (∀ x ∈ log, Settled x.after ∧ Undisturbed x.before x.event x.after) ∧
      s.selected.taskId = some "T02" ∧ s.selected.detail = some ⟨⟨"T02", 7, 1⟩, []⟩ := by
  have heval : (runScript step ([], {}) oneByOne).map (fun q =>
      (q.1.all fun x => x.before.renders x.event, q.2.selected.taskId, q.2.selected.detail)) =
      some (true, some "T02", some ⟨⟨"T02", 7, 1⟩, []⟩) := by decide +kernel
  obtain ⟨log, s, run, hview⟩ := Run.exists_of_runScript heval
  obtain ⟨hall, hend⟩ := Prod.mk.inj hview
  obtain ⟨hselected, hdetail⟩ := Prod.mk.inj hend
  have htimely : ∀ x ∈ log, Timely x.before x.event :=
    fun x hx => timely_of_renders (List.all_eq_true.mp hall x hx)
  exact ⟨log, s, run, (settled_iff_timely run).mpr htimely, hselected, hdetail⟩

/-- One task is selected and then the other, whose answers come first. -/
def overtaken : List Event :=
  mounted ++ [.select "T01", .select "T02", .detailArrived 1 ⟨⟨"T02", 7, 1⟩, []⟩, .eventsArrived 1 [],
    .eventsArrived 0 []]

/-- **A late detail is rendered in the place of that of the selected task, with nothing in flight; a
late failure takes the selection away.** -/
theorem selection_lost :
    (∃ log s, Run {} step log s ∧ s.selected.taskId = some "T02" ∧
        s.selected.detail = some ⟨⟨"T01", 7, 1⟩, []⟩ ∧ ¬Settled s) ∧
      ∃ log s s', Run {} step log s ∧ step s (.fetchFailed 0 false) = some s' ∧
        s.selected.taskId = some "T02" ∧ s'.selected.taskId = none ∧
        ¬Undisturbed s (.fetchFailed 0 false) s' := by
  constructor
  · have heval : (runScript step ([], {}) (overtaken ++ [.detailArrived 0 ⟨⟨"T01", 7, 1⟩, []⟩])).map
        (fun q => (q.2.selected.taskId, q.2.selected.detail, q.2.fetches.length)) =
        some (some "T02", some ⟨⟨"T01", 7, 1⟩, []⟩, 0) := by decide +kernel
    obtain ⟨log, s, run, hview⟩ := Run.exists_of_runScript heval
    obtain ⟨hselected, hview⟩ := Prod.mk.inj hview
    obtain ⟨hdetail, hlength⟩ := Prod.mk.inj hview
    refine ⟨log, s, run, hselected, hdetail,
      fun h => ?_⟩
    have hfits := (h (List.length_eq_zero_iff.mp hlength)).1 _ hdetail
    rw [hselected] at hfits
    exact absurd hfits (by decide)
  · have heval : (runScript step ([], {}) overtaken).map (fun q =>
        (q.2.selected.taskId, (q.2.ends? (.fetchFailed 0 false)).map (·.2.1.row.taskId),
          (step q.2 (.fetchFailed 0 false)).map (·.selected.taskId))) =
        some (some "T02", some "T01", some none) := by decide +kernel
    obtain ⟨log, s, run, hview⟩ := Run.exists_of_runScript heval
    obtain ⟨hselected, hview⟩ := Prod.mk.inj hview
    obtain ⟨hrow, hafter⟩ := Prod.mk.inj hview
    obtain ⟨⟨i, fetch, outcome⟩, hends, hrow⟩ := Option.map_eq_some_iff.mp hrow
    obtain ⟨s', haccepted, hselected'⟩ := Option.map_eq_some_iff.mp hafter
    refine ⟨log, s, s', run, haccepted,
      hselected, hselected', fun h => ?_⟩
    have hother : "T02" ≠ fetch.row.taskId := by
      rw [hrow]
      decide
    have hkept := (h i fetch outcome "T02" hends hselected hother).1
    rw [hselected'] at hkept
    cases hkept

end Kroker.BoardView
