import Kroker.Library.Dict
import Kroker.Library.Run

/-!
# The question host

`QuestionHost` of `workflows/question_host.py`: the answers a workflow has been sent, and its calls
of `ask_and_wait`.  As in the gate host, the workflow is single-threaded, and there is one event for
each thing that can happen between two awaits: an answer is signalled, the clock advances, some
caller asks a batch of questions, the await a call stands at completes or is cancelled.

The answers are one table for the whole run.  The first answer to an id is kept (`setdefault`), and
no answer is ever taken out, also not when the questions it answered have been returned.  A call
waits until every id it asked is in the table.  The wait raises `TimeoutError` at its deadline, and
nothing of `ask_and_wait` runs after that; with a timeout of zero or less it raises at once, without
looking at its condition.

## 1.  Answers and signals

The table is determined by the signals alone: it holds the first signal for each id
(`answers_eq_firstFor`).  The signals of a run are those before a call was made followed by those
since (`signals_eq`).
-/

namespace Kroker.Questions

/-- An `OpenQuestion`, as far as it is asked and answered. -/
structure OpenQuestion where
  id : String
  question : String := ""
  whyItMatters : String := ""
  suggestedAnswer : Option String := none
  answer : Option String := none

/-- Where a call of `ask_and_wait` stands. -/
inductive AskPhase where
  /-- In the wait for the answers. -/
  | waiting (deadline : ℤ)
  | returned (answers : Dict String)
  /-- The wait has raised `TimeoutError`. -/
  | timedOut
  /-- The wait was cancelled. -/
  | cancelled

def AskPhase.isWaiting : AskPhase → Bool
  | .waiting _ => true
  | _ => false

/-- One call of `ask_and_wait`. -/
structure Ask where
  questions : List OpenQuestion
  timeoutHours : ℤ := 72
  phase : AskPhase

namespace Ask

variable (a : Ask)

def ids : List String := a.questions.map (·.id)

def collect (answers : Dict String) : List OpenQuestion → Dict String → Dict String
  | [], found => found
  | q :: questions, found =>
    collect answers questions (match answers[q.id]? with
      | some answer => found.insert q.id answer
      | none => found)

/-- Whether every id that is asked has an answer. -/
def answered (answers : Dict String) : Bool := a.ids.all (· ∈ answers)

/-- What the call does when its wait completes; `none` while the wait cannot complete. -/
def resume (now : ℤ) (answers : Dict String) : Option AskPhase :=
  match a.phase with
  | .waiting deadline =>
    if 0 < a.timeoutHours ∧ a.answered answers = true then
      some (.returned (collect answers a.questions ∅))
    else if deadline ≤ now then some .timedOut
    else none
  | _ => none

end Ask

structure QuestionHost where
  now : ℤ
  answers : Dict String := ∅
  pendingQuestions : List String := []
  asks : List Ask := []

inductive QuestionEvent where
  | answer (id : String) (text : String)
  | tick (elapsed : ℕ)
  | ask (questions : List OpenQuestion) (timeoutHours : ℤ)
  /-- The wait of a call completes. -/
  | resumed (i : ℕ)
  /-- The wait of a call is cancelled. -/
  | cancelled (i : ℕ)

namespace QuestionHost

/-- `answer_question`: the first answer to an id wins. -/
def answerQuestion (h : QuestionHost) (id text : String) : QuestionHost :=
  { h with answers := if id ∈ h.answers then h.answers else h.answers.insert id text }

/-- The part of `ask_and_wait` before its await. -/
def askAndWait (h : QuestionHost) (questions : List OpenQuestion) (timeoutHours : ℤ) :
    QuestionHost :=
  if questions = [] then
    { h with asks := h.asks ++ [{ questions, timeoutHours, phase := .returned ∅ }] }
  else
    { h with
      pendingQuestions := questions.map (·.id)
      asks := h.asks ++
        [{ questions, timeoutHours, phase := .waiting (h.now + timeoutHours * 3600) }] }

/-- A call goes on to a phase; what returns clears the pending questions. -/
def moveTo (h : QuestionHost) (i : ℕ) (a : Ask) (phase : AskPhase) : QuestionHost :=
  { h with
    asks := h.asks.set i { a with phase }
    pendingQuestions := match phase with
      | .returned _ => []
      | _ => h.pendingQuestions }

def next (h : QuestionHost) : QuestionEvent → Option QuestionHost
  | .answer id text => some (h.answerQuestion id text)
  | .tick elapsed => some { h with now := h.now + elapsed }
  | .ask questions timeoutHours => some (h.askAndWait questions timeoutHours)
  | .resumed i => h.asks[i]?.bind fun a => (a.resume h.now h.answers).map (h.moveTo i a)
  | .cancelled i => h.asks[i]?.bind fun a =>
    if a.phase.isWaiting then some (h.moveTo i a .cancelled) else none

/-- The runs of a host that starts at the time `t`. -/
abbrev QuestionRun (t : ℤ) := Run { now := t : QuestionHost } next

end QuestionHost

/-- `clarify.step` with what `ask_and_wait` returned. -/
def assignAnswers (questions : List OpenQuestion) (answers : Dict String) : List OpenQuestion :=
  questions.map fun q => { q with answer := answers[q.id]? }

/-! ## Signals -/

/-- The signals of a run, oldest first. -/
def signals (log : List (Transition QuestionHost QuestionEvent)) : List (String × String) :=
  (log.filterMap fun x => match x.event with
    | .answer id text => some (id, text)
    | _ => none).reverse

/-- The signals of a run since its call `i` was made. -/
def since (log : List (Transition QuestionHost QuestionEvent)) (i : ℕ) : List (String × String) :=
  signals (log.filter fun x => i < x.before.asks.length)

/-- The signals of a run before its call `i` was made. -/
def earlier (log : List (Transition QuestionHost QuestionEvent)) (i : ℕ) : List (String × String) :=
  signals (log.filter fun x => x.before.asks.length ≤ i)

def firstFor (id : String) (l : List (String × String)) : Option String :=
  (l.find? (·.1 = id)).map (·.2)

/-- A call ends at a transition, and not by being cancelled. -/
structure Ends (x : Transition QuestionHost QuestionEvent) (i : ℕ) (a : Ask) : Prop where
  before : ∀ b, x.before.asks[i]? = some b → b.phase.isWaiting = true
  after : x.after.asks[i]? = some a
  ended : a.phase.isWaiting = false
  uncancelled : x.event ≠ .cancelled i

/-- The call has returned, of the ids it asked, those that were answered since it was made, with the
first answer to each. -/
def Delivered (log : List (Transition QuestionHost QuestionEvent)) (i : ℕ) (a : Ask) : Prop :=
  ∃ answers, a.phase = .returned answers ∧
    ∀ id : String, answers[id]? = if id ∈ a.ids then firstFor id (since log i) else none

/-- Every id that is asked is answered since the call was made, as it was before if it was. -/
def Answerable (log : List (Transition QuestionHost QuestionEvent)) (i : ℕ) (a : Ask) : Prop :=
  a.questions = [] ∨ 0 < a.timeoutHours ∧ ∀ id ∈ a.ids, ∃ text,
    firstFor id (since log i) = some text ∧
      ∀ old, firstFor id (earlier log i) = some old → old = text

/-! ## What the table holds -/

theorem firstFor_append (id : String) (l r : List (String × String)) :
    firstFor id (l ++ r) = (firstFor id l).or (firstFor id r) := by
  unfold firstFor
  rw [List.find?_append]
  cases l.find? (·.1 = id) <;> rfl

theorem firstFor_singleton (id k text : String) :
    firstFor id [(k, text)] = if k = id then some text else none := by
  unfold firstFor
  by_cases h : k = id <;> simp [h]

def QuestionEvent.signal : QuestionEvent → Option (String × String)
  | .answer id text => some (id, text)
  | _ => none

theorem signals_cons (x : Transition QuestionHost QuestionEvent)
    (log : List (Transition QuestionHost QuestionEvent)) :
    signals (x :: log) = signals log ++ x.event.signal.toList := by
  unfold signals
  cases hx : x.event <;> simp [hx, QuestionEvent.signal]

namespace QuestionHost

variable {h h' : QuestionHost}

/-- **What an event does to the table and to the calls.** -/
theorem next_cases {e : QuestionEvent} (hstep : next h e = some h') :
    (∃ id text, e = .answer id text ∧ h' = h.answerQuestion id text) ∨
    (e.signal = none ∧ h'.answers = h.answers ∧
      ((∃ new, h'.asks = h.asks ++ new) ∨ ∃ i a, h'.asks = h.asks.set i a)) := by
  cases e with
  | answer id text =>
    obtain rfl := Option.some.inj hstep
    exact Or.inl ⟨id, text, rfl, rfl⟩
  | tick elapsed =>
    obtain rfl := Option.some.inj hstep
    exact Or.inr ⟨rfl, rfl, Or.inl ⟨[], (List.append_nil _).symm⟩⟩
  | ask questions timeoutHours =>
    obtain rfl := Option.some.inj hstep
    unfold askAndWait
    split
    · exact Or.inr ⟨rfl, rfl, Or.inl ⟨_, rfl⟩⟩
    · exact Or.inr ⟨rfl, rfl, Or.inl ⟨_, rfl⟩⟩
  | resumed i =>
    obtain ⟨a, -, ha⟩ := Option.bind_eq_some_iff.mp hstep
    obtain ⟨phase, -, rfl⟩ := Option.map_eq_some_iff.mp ha
    exact Or.inr ⟨rfl, rfl, Or.inr ⟨i, _, rfl⟩⟩
  | cancelled i =>
    obtain ⟨a, -, ha⟩ := Option.bind_eq_some_iff.mp hstep
    split at ha
    · obtain rfl := Option.some.inj ha
      exact Or.inr ⟨rfl, rfl, Or.inr ⟨i, _, rfl⟩⟩
    · cases ha

theorem get?_answerQuestion (h : QuestionHost) (k text id : String) :
    (h.answerQuestion k text).answers[id]? = (h.answers[id]?).or (firstFor id [(k, text)]) := by
  rw [firstFor_singleton]
  show (if k ∈ h.answers then h.answers else h.answers.insert k text)[id]? = _
  by_cases hk : k ∈ h.answers
  · rw [if_pos hk]
    by_cases hid : k = id
    · subst hid
      obtain ⟨v, hv⟩ := (Dict.mem_iff_get? _ _).mp hk
      rw [hv, Option.some_or]
    · rw [if_neg hid, Option.or_none]
  · rw [if_neg hk, Dict.get?_insert]
    by_cases hid : k = id
    · subst hid
      rw [(Dict.notMem_iff_get? _ _).mp hk, if_pos rfl]
      rfl
    · rw [if_neg hid, if_neg hid, Option.or_none]

/-- **The table holds the first signal for each id.** -/
theorem answers_eq_firstFor {t : ℤ} {log : List (Transition QuestionHost QuestionEvent)}
    (run : QuestionRun t log h) (id : String) : h.answers[id]? = firstFor id (signals log) := by
  refine Run.induct (P := fun log h => h.answers[id]? = firstFor id (signals log)) ?_ ?_ run
  · exact Dict.get?_empty id
  · intro log h e h' _ ih hstep
    rw [signals_cons, firstFor_append, ← ih]
    rcases next_cases hstep with ⟨k, text, rfl, rfl⟩ | ⟨hsignal, hanswers, -⟩
    · exact get?_answerQuestion h k text id
    · rw [hsignal, hanswers]
      exact (Option.or_none).symm

theorem length_asks_le {e : QuestionEvent} (hstep : next h e = some h') :
    h.asks.length ≤ h'.asks.length := by
  rcases next_cases hstep with ⟨k, text, -, rfl⟩ | ⟨-, -, ⟨new, hnew⟩ | ⟨i, a, hset⟩⟩
  · exact Nat.le_refl _
  · rw [hnew, List.length_append]
    omega
  · rw [hset, List.length_set]

/-- **The signals of a run are those before a call was made, and then those since.** -/
theorem signals_eq {t : ℤ} {log : List (Transition QuestionHost QuestionEvent)}
    (run : QuestionRun t log h) (i : ℕ) : signals log = earlier log i ++ since log i := by
  have hboth : (∀ x ∈ log, x.before.asks.length ≤ h.asks.length) ∧
      signals log = earlier log i ++ since log i := by
    refine Run.induct (P := fun log h => (∀ x ∈ log, x.before.asks.length ≤ h.asks.length) ∧
      signals log = earlier log i ++ since log i) ?_ ?_ run
    · exact ⟨nofun, rfl⟩
    · intro log h e h' _ ⟨hle, ih⟩ hstep
      have hgrow := length_asks_le hstep
      refine ⟨fun x hx => ?_, ?_⟩
      · rcases List.mem_cons.mp hx with rfl | hx
        · exact hgrow
        · exact (hle x hx).trans hgrow
      · unfold earlier since at ih ⊢
        by_cases hi : h.asks.length ≤ i
        · -- Nothing has been signalled since a call that is yet to be made.
          have hnone : log.filter (fun x => i < x.before.asks.length) = [] := by
            rw [List.filter_eq_nil_iff]
            intro x hx
            have := hle x hx
            simp only [decide_eq_true_eq]
            omega
          rw [List.filter_cons_of_pos (by simpa using hi),
            List.filter_cons_of_neg (by simpa using hi), signals_cons, signals_cons, ih, hnone]
          simp [signals]
        · rw [List.filter_cons_of_neg (by simpa using hi),
            List.filter_cons_of_pos (by simpa using hi), signals_cons, signals_cons, ih,
            List.append_assoc]
  exact hboth.2

end QuestionHost

/-! ## What a call returns -/

theorem Ask.get?_collect (answers : Dict String) (questions : List OpenQuestion)
    (found : Dict String) (id : String) :
    (collect answers questions found)[id]? =
      if id ∈ questions.map (·.id) then (answers[id]?).or found[id]? else found[id]? := by
  induction questions generalizing found with
  | nil => rfl
  | cons q questions ih =>
    rw [collect, ih, List.map_cons]
    by_cases hq : q.id = id
    · subst hq
      cases hanswer : answers[q.id]? with
      | none => simp
      | some text => simp
    · have hfound : (match answers[q.id]? with
          | some answer => found.insert q.id answer
          | none => found)[id]? = found[id]? := by
        cases answers[q.id]? with
        | none => rfl
        | some text => exact Dict.get?_insert_of_ne _ _ hq
      rw [hfound]
      have hmem : id ∈ q.id :: questions.map (·.id) ↔ id ∈ questions.map (·.id) := by
        rw [List.mem_cons]
        exact or_iff_right fun h => hq h.symm
      simp only [hmem]

namespace QuestionHost

variable {h h' : QuestionHost}

theorem questions_ne {t : ℤ} {log : List (Transition QuestionHost QuestionEvent)}
    (run : QuestionRun t log h) : ∀ a ∈ h.asks, a.phase.isWaiting = true → a.questions ≠ [] := by
  refine Run.induct (P := fun _ h => ∀ a ∈ h.asks, a.phase.isWaiting = true → a.questions ≠ [])
    ?_ ?_ run
  · exact nofun
  · intro log h e h' _ ih hstep a ha hwaiting
    cases e with
    | answer id text =>
      obtain rfl := Option.some.inj hstep
      exact ih a ha hwaiting
    | tick elapsed =>
      obtain rfl := Option.some.inj hstep
      exact ih a ha hwaiting
    | ask questions timeoutHours =>
      obtain rfl := Option.some.inj hstep
      unfold askAndWait at ha
      split at ha
      · rcases List.mem_append.mp ha with ha | ha
        · exact ih a ha hwaiting
        · obtain rfl := List.mem_singleton.mp ha
          cases hwaiting
      · rename_i hne
        rcases List.mem_append.mp ha with ha | ha
        · exact ih a ha hwaiting
        · obtain rfl := List.mem_singleton.mp ha
          exact hne
    | resumed i =>
      obtain ⟨b, hb, hnext⟩ := Option.bind_eq_some_iff.mp hstep
      obtain ⟨phase, hphase, rfl⟩ := Option.map_eq_some_iff.mp hnext
      rcases List.mem_or_eq_of_mem_set ha with ha | rfl
      · exact ih a ha hwaiting
      · -- What has been resumed does not wait.
        unfold Ask.resume at hphase
        split at hphase
        · split at hphase
          · obtain rfl := Option.some.inj hphase
            cases hwaiting
          · split at hphase
            · obtain rfl := Option.some.inj hphase
              cases hwaiting
            · cases hphase
        · cases hphase
    | cancelled i =>
      obtain ⟨b, hb, hnext⟩ := Option.bind_eq_some_iff.mp hstep
      split at hnext
      · obtain rfl := Option.some.inj hnext
        rcases List.mem_or_eq_of_mem_set ha with ha | rfl
        · exact ih a ha hwaiting
        · cases hwaiting
      · cases hnext

/-- **How a call ends**: at once, having asked nothing, or where its wait completes. -/
theorem ends_cases {e : QuestionEvent} {i : ℕ} {a : Ask} (hstep : next h e = some h')
    (hends : Ends ⟨h, e, h'⟩ i a) :
    (a.questions = [] ∧ a.phase = .returned ∅) ∨
      ∃ b, h.asks[i]? = some b ∧ b.resume h.now h.answers = some a.phase ∧
        a.questions = b.questions ∧ a.timeoutHours = b.timeoutHours := by
  -- A call that is left as it was has not ended.
  have hkept : h.asks[i]? ≠ some a := fun hsame => by
    have hwaiting := hends.before a hsame
    rw [hends.ended] at hwaiting
    cases hwaiting
  have hafter := hends.after
  cases e with
  | answer id text =>
    obtain rfl := Option.some.inj hstep
    exact absurd hafter hkept
  | tick elapsed =>
    obtain rfl := Option.some.inj hstep
    exact absurd hafter hkept
  | ask questions timeoutHours =>
    obtain rfl := Option.some.inj hstep
    have hnew : ∀ x : Ask, (h.asks ++ [x])[i]? = some a → a = x := by
      intro x hx
      rw [List.getElem?_append] at hx
      split at hx
      · exact absurd hx hkept
      · have hmem := List.mem_of_getElem? hx
        exact List.mem_singleton.mp hmem
    unfold askAndWait at hafter
    split at hafter
    · rename_i hempty
      obtain rfl := hnew _ hafter
      exact Or.inl ⟨hempty, rfl⟩
    · obtain rfl := hnew _ hafter
      exact absurd hends.ended (by simp [AskPhase.isWaiting])
  | resumed j =>
    obtain ⟨b, hb, hnext⟩ := Option.bind_eq_some_iff.mp hstep
    obtain ⟨phase, hphase, rfl⟩ := Option.map_eq_some_iff.mp hnext
    have hset : (h.asks.set j { b with phase })[i]? = some a := hafter
    rw [List.getElem?_set] at hset
    split at hset
    · rename_i hij
      subst hij
      split at hset
      · obtain rfl := Option.some.inj hset
        exact Or.inr ⟨b, hb, hphase, rfl, rfl⟩
      · cases hset
    · exact absurd hset hkept
  | cancelled j =>
    obtain ⟨b, hb, hnext⟩ := Option.bind_eq_some_iff.mp hstep
    split at hnext
    · obtain rfl := Option.some.inj hnext
      have hset : (h.asks.set j { b with phase := .cancelled })[i]? = some a := hafter
      have hij : j ≠ i := fun hij => hends.uncancelled (congrArg QuestionEvent.cancelled hij)
      rw [List.getElem?_set_ne hij] at hset
      exact absurd hset hkept
    · cases hnext

end QuestionHost

theorem delivered_returned_iff {log : List (Transition QuestionHost QuestionEvent)} {i : ℕ} {a : Ask}
    {answers : Dict String} (hphase : a.phase = .returned (Ask.collect answers a.questions ∅)) :
    Delivered log i a ↔ ∀ id ∈ a.ids, answers[id]? = firstFor id (since log i) := by
  have hcollect : ∀ id : String, (Ask.collect answers a.questions ∅)[id]? =
      if id ∈ a.ids then answers[id]? else none := by
    intro id
    rw [Ask.get?_collect, Dict.get?_empty, Option.or_none]
    rfl
  constructor
  · rintro ⟨found, hfound, hall⟩ id hid
    rw [hphase, AskPhase.returned.injEq] at hfound
    have heq := hall id
    rwa [← hfound, hcollect, if_pos hid, if_pos hid] at heq
  · intro hall
    refine ⟨_, hphase, fun id => ?_⟩
    rw [hcollect]
    split
    · rename_i hid
      exact hall id hid
    · rfl

/-- **A call of `ask_and_wait` ends by returning the answers to its questions exactly when** it
asked nothing, or its timeout is positive and every id it asked is answered since it was made, by
the time the wait completes, and the first such answer is the one the id had before, if it had
one. -/
theorem delivered_iff {t : ℤ} {log : List (Transition QuestionHost QuestionEvent)}
    {h h' : QuestionHost} {e : QuestionEvent} {i : ℕ} {a : Ask}
    (run : QuestionHost.QuestionRun t log h) (hstep : QuestionHost.next h e = some h')
    (hends : Ends ⟨h, e, h'⟩ i a) : Delivered log i a ↔ Answerable log i a := by
  rcases QuestionHost.ends_cases hstep hends with ⟨hnothing, hphase⟩ |
    ⟨b, hb, hresume, hquestions, htimeout⟩
  · refine iff_of_true ⟨∅, hphase, fun id => ?_⟩ (Or.inl hnothing)
    rw [Ask.ids, hnothing, Dict.get?_empty]
    rfl
  · have hanswers : ∀ id : String, h.answers[id]? =
        (firstFor id (earlier log i)).or (firstFor id (since log i)) := by
      intro id
      rw [QuestionHost.answers_eq_firstFor run, QuestionHost.signals_eq run i, firstFor_append]
    have hids : b.ids = a.ids := by
      rw [Ask.ids, Ask.ids, hquestions]
    have hanswered : b.answered h.answers = true ↔ ∀ id ∈ a.ids, ∃ text,
        h.answers[id]? = some text := by
      rw [Ask.answered, hids, List.all_eq_true]
      refine forall₂_congr fun id _ => ?_
      rw [decide_eq_true_eq]
      exact Dict.mem_iff_get? _ _
    unfold Ask.resume at hresume
    split at hresume
    · rename_i deadline hwaiting
      have hsome : a.questions ≠ [] := by
        rw [hquestions]
        refine QuestionHost.questions_ne run b (List.mem_of_getElem? hb) ?_
        rw [hwaiting]
        rfl
      split at hresume
      · rename_i hready
        have hphase : a.phase = .returned (Ask.collect h.answers a.questions ∅) := by
          rw [hquestions]
          exact (Option.some.inj hresume).symm
        rw [delivered_returned_iff hphase]
        constructor
        · intro hall
          refine Or.inr ⟨htimeout ▸ hready.1, fun id hid => ?_⟩
          obtain ⟨text, htext⟩ := hanswered.mp hready.2 id hid
          refine ⟨text, by rw [← hall id hid, htext], fun old hold => ?_⟩
          rw [hanswers, hold, Option.some_or] at htext
          exact Option.some.inj htext
        · rintro (hnothing | ⟨-, hall⟩) id hid
          · exact absurd hnothing hsome
          · obtain ⟨text, htext, hold⟩ := hall id hid
            rw [hanswers, htext]
            cases hearlier : firstFor id (earlier log i) with
            | none => rfl
            | some old => rw [hold old hearlier, Option.some_or]
      · rename_i hready
        split at hresume
        · have hphase : a.phase = .timedOut := (Option.some.inj hresume).symm
          refine iff_of_false ?_ ?_
          · rintro ⟨found, hfound, -⟩
            rw [hphase] at hfound
            cases hfound
          · rintro (hnothing | ⟨hpositive, hall⟩)
            · exact hsome hnothing
            · refine hready ⟨htimeout ▸ hpositive, hanswered.mpr fun id hid => ?_⟩
              obtain ⟨text, htext, -⟩ := hall id hid
              rw [hanswers, htext]
              cases firstFor id (earlier log i) with
              | none => exact ⟨text, rfl⟩
              | some old => exact ⟨old, rfl⟩
        · cases hresume
    · cases hresume

/-! ## Calls of the samples -/

def AskPhase.answerTo (id : String) : AskPhase → Option (Option String)
  | .returned answers => some (answers[id]?)
  | _ => none

/-- A call of a run that has been resumed: its ids and timeout, what it returned for an id, and the
signals since and before it. -/
structure EndedView where
  ids : List String
  timeoutHours : ℤ
  answer : Option (Option String)
  new : List (String × String)
  old : List (String × String)
  deriving DecidableEq

/-- The view of call `i` for an id, if the call waits and can be resumed. -/
def endedView (id : String) (i : ℕ)
    (p : List (Transition QuestionHost QuestionEvent) × QuestionHost) : Option EndedView :=
  (p.2.asks[i]?).bind fun b => (QuestionHost.next p.2 (.resumed i)).bind fun h =>
    (h.asks[i]?).bind fun a =>
      if b.phase.isWaiting then
        some ⟨a.ids, a.timeoutHours, a.phase.answerTo id, since p.1 i, earlier p.1 i⟩
      else none

theorem ends_of_resumed {h h' : QuestionHost} {i : ℕ} {a b : Ask} (hb : h.asks[i]? = some b)
    (hwaiting : b.phase.isWaiting = true) (hstep : QuestionHost.next h (.resumed i) = some h')
    (ha : h'.asks[i]? = some a) : Ends ⟨h, .resumed i, h'⟩ i a := by
  refine ⟨fun c hc => ?_, ha, ?_, nofun⟩
  · obtain rfl := Option.some.inj (hb.symm.trans hc)
    exact hwaiting
  · obtain ⟨c, hc, hnext⟩ := Option.bind_eq_some_iff.mp hstep
    obtain ⟨phase, hphase, rfl⟩ := Option.map_eq_some_iff.mp hnext
    have hset : (h.asks.set i { c with phase })[i]? = some a := ha
    rw [List.getElem?_set, if_pos rfl] at hset
    split at hset
    · obtain rfl := Option.some.inj hset
      unfold Ask.resume at hphase
      split at hphase
      · split at hphase
        · obtain rfl := Option.some.inj hphase
          rfl
        · split at hphase
          · obtain rfl := Option.some.inj hphase
            rfl
          · cases hphase
      · cases hphase
    · cases hset

theorem exists_ends {script : List QuestionEvent} {id : String} {i : ℕ} {view : EndedView}
    (heval : (runScript QuestionHost.next ([], { now := 0 }) script).bind (endedView id i) =
      some view) :
    ∃ log h h' a, QuestionHost.QuestionRun 0 log h ∧
      QuestionHost.next h (.resumed i) = some h' ∧ Ends ⟨h, .resumed i, h'⟩ i a ∧
      view = ⟨a.ids, a.timeoutHours, a.phase.answerTo id, since log i, earlier log i⟩ := by
  obtain ⟨⟨log, h⟩, hq, hview⟩ := Option.bind_eq_some_iff.mp heval
  obtain ⟨b, hb, hview⟩ := Option.bind_eq_some_iff.mp hview
  obtain ⟨h', hstep, hview⟩ := Option.bind_eq_some_iff.mp hview
  obtain ⟨a, ha, hview⟩ := Option.bind_eq_some_iff.mp hview
  split at hview
  · rename_i hwaiting
    exact ⟨log, h, h', a, Run.of_runScript (p := ([], ({ now := 0 } : QuestionHost))) Run.start hq,
      hstep, ends_of_resumed hb hwaiting hstep ha, (Option.some.inj hview).symm⟩
  · cases hview

def answeredTwice : List QuestionEvent :=
  [.ask [{ id := "q1" }] 72, .answer "q1" "yes", .answer "q1" "no"]

/-- It is returned its first answer. -/
theorem delivered_iff_sample : ∃ log h h' a, QuestionHost.QuestionRun 0 log h ∧
    QuestionHost.next h (.resumed 0) = some h' ∧ Ends ⟨h, .resumed 0, h'⟩ 0 a ∧
    Delivered log 0 a := by
  have heval : (runScript QuestionHost.next ([], { now := 0 }) answeredTwice).bind
      (endedView "q1" 0) =
        some ⟨["q1"], 72, some (some "yes"), [("q1", "yes"), ("q1", "no")], []⟩ := by
    decide +kernel
  obtain ⟨log, h, h', a, run, hstep, hends, hview⟩ := exists_ends heval
  obtain ⟨hids, htimeout, -, hnew, hold⟩ := EndedView.mk.inj hview
  refine ⟨log, h, h', a, run, hstep, hends, (delivered_iff run hstep hends).mpr (Or.inr ⟨?_, ?_⟩)⟩
  · rw [← htimeout]
    decide
  · intro id hid
    rw [← hids, List.mem_singleton] at hid
    subst hid
    rw [← hnew, ← hold]
    exact ⟨"yes", rfl, nofun⟩

def askedAgain : List QuestionEvent :=
  [.ask [{ id := "q1" }] 72, .answer "q1" "yes", .resumed 0, .ask [{ id := "q1" }] 72]

/-- Two questions, of which one is answered before the deadline. -/
def halfAnswered : List QuestionEvent :=
  [.ask [{ id := "q1" }, { id := "q2" }] 72, .answer "q1" "yes", .tick 259200]

/-- **A question that is asked again is returned its earlier answer, and an answer is lost** at the
deadline of a call with another question. -/
theorem stale_and_lost :
    (∃ log h h' a, QuestionHost.QuestionRun 0 log h ∧
      QuestionHost.next h (.resumed 1) = some h' ∧ Ends ⟨h, .resumed 1, h'⟩ 1 a ∧
      a.phase.answerTo "q1" = some (some "yes") ∧ since log 1 = [] ∧ ¬Delivered log 1 a) ∧
    ∃ log h h' a, QuestionHost.QuestionRun 0 log h ∧
      QuestionHost.next h (.resumed 0) = some h' ∧ Ends ⟨h, .resumed 0, h'⟩ 0 a ∧
      a.phase.answerTo "q1" = none ∧ since log 0 = [("q1", "yes")] ∧ ¬Delivered log 0 a := by
  constructor
  · have heval : (runScript QuestionHost.next ([], { now := 0 }) askedAgain).bind
        (endedView "q1" 1) = some ⟨["q1"], 72, some (some "yes"), [], [("q1", "yes")]⟩ := by
      decide +kernel
    obtain ⟨log, h, h', a, run, hstep, hends, hview⟩ := exists_ends heval
    obtain ⟨hids, -, hanswer, hnew, -⟩ := EndedView.mk.inj hview
    refine ⟨log, h, h', a, run, hstep, hends, hanswer.symm, hnew.symm, ?_⟩
    rintro ⟨answers, hphase, hall⟩
    have hq := hall "q1"
    rw [hphase] at hanswer
    rw [← hids, ← hnew, ← Option.some.inj hanswer] at hq
    exact absurd hq (by decide)
  · have heval : (runScript QuestionHost.next ([], { now := 0 }) halfAnswered).bind
        (endedView "q1" 0) = some ⟨["q1", "q2"], 72, none, [("q1", "yes")], []⟩ := by
      decide +kernel
    obtain ⟨log, h, h', a, run, hstep, hends, hview⟩ := exists_ends heval
    obtain ⟨-, -, hanswer, hnew, -⟩ := EndedView.mk.inj hview
    refine ⟨log, h, h', a, run, hstep, hends, hanswer.symm, hnew.symm, ?_⟩
    rintro ⟨answers, hphase, -⟩
    rw [hphase] at hanswer
    cases hanswer

end Kroker.Questions
