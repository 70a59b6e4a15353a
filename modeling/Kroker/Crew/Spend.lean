import Kroker.Crew.Workflow

/-!
# What a crew run reports to have spent

The workflow adds a round's cost to `spent` where the round is complete, and returns `spent`, or
nothing when `cost_incomplete` was set on the way.  The turns that ran are read off the events here
(`turnPrices`), so that what the workflow returns can be compared with them.

## What is lost

A round is not always completed: the deadline, a failed turn of the lead, a question too many and a
missing note all leave it by a `break`, and with it the cost of its turns.  On the other hand a
failed critic marks the whole run as unpriced, also where the error carried the cost.
-/

namespace Kroker.Crew

/-! ## 1. Prices -/

def TurnRecord.price (t : TurnRecord) : Option ℚ := if t.costIncomplete then none else t.costUsd

def known (prices : List (Option ℚ)) : ℚ := (prices.filterMap id).sum

def total (prices : List (Option ℚ)) : Option ℚ :=
  if none ∈ prices then none else some (known prices)

theorem known_append (p q : List (Option ℚ)) : known (p ++ q) = known p + known q := by
  rw [known, List.filterMap_append, List.sum_append, known, known]

theorem known_of_none {p : List (Option ℚ)} (h : ∀ x ∈ p, x = none) : known p = 0 := by
  have hnil : p.filterMap id = [] := List.filterMap_eq_nil_iff.mpr h
  rw [known, hnil, List.sum_nil]

/-- What the failed, the cut off and the completed turns of an event cost. -/
def CrewEvent.prices : CrewEvent → List (Option ℚ)
  | .leadReturned turn => [turn.record.price]
  | .criticReturned turn => [turn.record.price]
  | .leadFailed details => [(recordFromFailure details "" 0).price]
  | .criticFailed details => [(recordFromFailure details "" 0).price]
  | .timerFired => [none]
  | _ => []

/-- Whether the event is a failed turn that the workflow takes for unpriced. -/
def CrewEvent.marks : CrewEvent → Bool
  | .criticFailed _ => true
  | .leadFailed details => (recordFromFailure details "" 0).costIncomplete
  | _ => false

abbrev CrewLog := List (Transition CrewRun CrewEvent)

def turnPrices (log : CrewLog) : List (Option ℚ) := log.reverse.flatMap (·.event.prices)

/-- Whether a critic's turn has failed, or the lead's without a complete reading of its cost. -/
def marked (log : CrewLog) : Bool := log.any (·.event.marks)

theorem turnPrices_cons (x : Transition CrewRun CrewEvent) (log : CrewLog) :
    turnPrices (x :: log) = turnPrices log ++ x.event.prices := by
  rw [turnPrices, List.reverse_cons, List.flatMap_append, List.flatMap_singleton, turnPrices]

theorem marked_cons (x : Transition CrewRun CrewEvent) (log : CrewLog) :
    marked (x :: log) = (x.event.marks || marked log) := rfl

theorem price_recordFromFailure (details : Option TurnRecord) (role : String) (rnd : ℕ) :
    (recordFromFailure details role rnd).price = (recordFromFailure details "" 0).price := by
  cases details <;> rfl

def RoundRecord.prices (r : RoundRecord) : List (Option ℚ) := r.turns.map (·.price)

theorem RoundRecord.costUsd_eq (r : RoundRecord) : r.costUsd = total r.prices := by
  have hnone : none ∈ r.prices ↔
      r.turns.any (·.costIncomplete) = true ∨ ∃ t ∈ r.turns, t.costUsd = none := by
    rw [RoundRecord.prices, List.mem_map, List.any_eq_true]
    constructor
    · rintro ⟨t, ht, hprice⟩
      rw [TurnRecord.price] at hprice
      split at hprice
      · rename_i hincomplete
        exact Or.inl ⟨t, ht, hincomplete⟩
      · exact Or.inr ⟨t, ht, hprice⟩
    · rintro (⟨t, ht, hincomplete⟩ | ⟨t, ht, hcost⟩)
      · exact ⟨t, ht, if_pos hincomplete⟩
      · exact ⟨t, ht, by simp [TurnRecord.price, hcost]⟩
  rw [RoundRecord.costUsd, total]
  by_cases hincomplete : r.turns.any (·.costIncomplete)
  · rw [if_pos hincomplete, if_pos (hnone.mpr (Or.inl hincomplete))]
  · have hany : (r.turns.map (·.costUsd)).any (·.isNone) = true ↔ none ∈ r.prices := by
      rw [hnone, List.any_eq_true]
      simp [hincomplete]
    have hsame : r.turns.map (·.costUsd) = r.prices := by
      refine List.map_congr_left fun t ht => (if_neg fun h => hincomplete ?_).symm
      exact List.any_eq_true.mpr ⟨t, ht, h⟩
    rw [if_neg hincomplete]
    dsimp only
    by_cases hmem : none ∈ r.prices
    · rw [if_pos (hany.mpr hmem), if_pos hmem]
    · rw [if_neg (mt hany.mp hmem), if_neg hmem, hsame, known]

/-! ## 2. The books of a run -/

/-- Whether a round is under way. -/
def CrewPhase.inRound : CrewPhase → Bool
  | .starting => false
  | .preparing => false
  | .roundTop => false
  | .finished _ => false
  | .raised => false
  | _ => true

/-- Whether the run has ended. -/
def CrewPhase.ended : CrewPhase → Bool
  | .finished _ => true
  | .raised => true
  | _ => false

namespace CrewRun

def recorded (s : CrewRun) : List (Option ℚ) := s.rounds.flatMap (·.prices)

/-- What is booked when turns of these prices have run, those of `lost` without a record. -/
structure Books (ran lost : List (Option ℚ)) (marked : Bool) (s : CrewRun) : Prop where
  recorded : ran = s.recorded ++ lost
  spent : s.spent = (s.completed.filterMap (·.costUsd)).sum
  incomplete : s.costIncomplete = true ↔ (∃ r ∈ s.completed, r.costUsd = none) ∨ marked = true

/-- **When the reported cost is complete**: a completed round has an unpriced turn; or a failed turn
was taken for unpriced and some turn was; or neither a turn was unpriced nor a failed turn taken for
it, and the turns of the round that was broken off cost nothing together. -/
def Accountable (ran : List (Option ℚ)) (marked : Bool) (s : CrewRun) : Prop :=
  (∃ r ∈ s.completed, none ∈ r.prices) ∨ (marked = true ∧ none ∈ ran) ∨
    (marked = false ∧ none ∉ ran ∧ known (s.current.toList.flatMap (·.prices)) = 0)

variable {inp : CrewTaskInput} {s s' : CrewRun} {ran lost : List (Option ℚ)} {m : Bool}
  {log : CrewLog}

theorem recorded_eq (s : CrewRun) :
    s.recorded = s.completed.flatMap (·.prices) ++ s.current.toList.flatMap (·.prices) := by
  rw [recorded, rounds, List.flatMap_append]

theorem sum_costUsd {rs : List RoundRecord} (h : ∀ r ∈ rs, none ∉ r.prices) :
    (rs.filterMap (·.costUsd)).sum = known (rs.flatMap (·.prices)) := by
  induction rs with
  | nil => rfl
  | cons r rs ih =>
    have hcost : r.costUsd = some (known r.prices) := by
      rw [RoundRecord.costUsd_eq, total, if_neg (h r List.mem_cons_self)]
    rw [List.filterMap_cons_some hcost, List.sum_cons, ih fun q hq => h q (List.mem_cons_of_mem _ hq),
      List.flatMap_cons, known_append]

theorem costUsd_eq_none {r : RoundRecord} : r.costUsd = none ↔ none ∈ r.prices := by
  rw [RoundRecord.costUsd_eq, total]
  split <;> simp_all

/-- **The books settle exactly when the run is accountable.** -/
theorem Books.settle (h : Books ran lost m s) (hlost : ∀ p ∈ lost, p = none) :
    (if s.costIncomplete then none else some s.spent) = total ran ↔ Accountable ran m s := by
  have hincomplete := h.incomplete
  simp only [costUsd_eq_none] at hincomplete
  rw [Accountable, total]
  by_cases hround : ∃ r ∈ s.completed, none ∈ r.prices
  · have hmem : none ∈ ran := by
      obtain ⟨r, hr, hnone⟩ := hround
      rw [h.recorded, recorded_eq, List.append_assoc]
      exact List.mem_append_left _ (List.mem_flatMap.mpr ⟨r, hr, hnone⟩)
    rw [if_pos (hincomplete.mpr (Or.inl hround)), if_pos hmem]
    exact iff_of_true rfl (Or.inl hround)
  · cases m with
    | true =>
      rw [if_pos (hincomplete.mpr (Or.inr rfl))]
      by_cases hmem : none ∈ ran <;> simp [hmem, hround]
    | false =>
      have hspent : s.spent = known (s.completed.flatMap (·.prices)) := by
        rw [h.spent, sum_costUsd]
        exact fun r hr hnone => hround ⟨r, hr, hnone⟩
      have hran : known ran = s.spent + known (s.current.toList.flatMap (·.prices)) := by
        rw [h.recorded, recorded_eq, known_append, known_append, known_of_none hlost, hspent,
          add_zero]
      have hflag : ¬ s.costIncomplete = true := fun hflag =>
        (hincomplete.mp hflag).elim hround (fun h => nomatch h)
      rw [if_neg hflag]
      by_cases hmem : none ∈ ran
      · simp [hmem, hround]
      · rw [if_neg hmem, hran]
        simp [hmem, hround]

/-- A run that has not ended: its books, and a record exactly where a round is under way. -/
structure Live (log : CrewLog) (s : CrewRun) : Prop where
  books : Books (turnPrices log) [] (marked log) s
  current : s.current.isSome = s.phase.inRound

/-- **What is known of every run.** -/
def Sound (log : CrewLog) (s : CrewRun) : Prop :=
  match s.phase with
  | .finished r => r.costUsd = total (turnPrices log) ↔ Accountable (turnPrices log) (marked log) s
  | .raised => True
  | _ => Live log s

theorem Sound.awaiting (h : Sound log s) {phase : CrewPhase} (hphase : s.phase = phase)
    (hended : phase.ended = false) : Live log s ∧ s.current.isSome = phase.inRound := by
  subst hphase
  rw [Sound] at h
  split at h
  · rename_i r hphase
    exact nomatch hended.symm.trans (congrArg CrewPhase.ended hphase)
  · rename_i hphase
    exact nomatch hended.symm.trans (congrArg CrewPhase.ended hphase)
  · exact ⟨h, h.current⟩

theorem Live.sound (h : Live log s) (hfinished : ∀ r, s.phase ≠ .finished r) : Sound log s := by
  rw [Sound]
  split
  · rename_i r hphase
    exact absurd hphase (hfinished r)
  · trivial
  · exact h

theorem sound_finish (h : Books (turnPrices log) lost (marked log) s) (hlost : ∀ p ∈ lost, p = none)
    (exit : CrewExit) : Sound log (s.finish inp exit) := h.settle hlost

/-! ## 3. What the steps do to the books -/

theorem Books.congr (h : Books ran lost m s) (hcompleted : s'.completed = s.completed)
    (hcurrent : s'.current.toList.flatMap (·.prices) = s.current.toList.flatMap (·.prices))
    (hspent : s'.spent = s.spent) (hincomplete : s'.costIncomplete = s.costIncomplete) :
    Books ran lost m s' := by
  refine ⟨?_, ?_, ?_⟩
  · rw [h.recorded, recorded_eq, recorded_eq, hcompleted, hcurrent]
  · rw [hspent, hcompleted, h.spent]
  · rw [hincomplete, hcompleted, h.incomplete]

@[simp] theorem addSession_completed (s : CrewRun) (role : String) (turn : TurnRecord) :
    (s.addSession role turn).completed = s.completed := by
  rw [addSession]
  split
  · rfl
  · split <;> rfl

@[simp] theorem addSession_current (s : CrewRun) (role : String) (turn : TurnRecord) :
    (s.addSession role turn).current = s.current := by
  rw [addSession]
  split
  · rfl
  · split <;> rfl

@[simp] theorem addSession_spent (s : CrewRun) (role : String) (turn : TurnRecord) :
    (s.addSession role turn).spent = s.spent := by
  rw [addSession]
  split
  · rfl
  · split <;> rfl

@[simp] theorem addSession_costIncomplete (s : CrewRun) (role : String) (turn : TurnRecord) :
    (s.addSession role turn).costIncomplete = s.costIncomplete := by
  rw [addSession]
  split
  · rfl
  · split <;> rfl

theorem Books.addTurn (h : Books ran [] m s) (hcurrent : s.current.isSome) (turn : TurnRecord) :
    Books (ran ++ [turn.price]) [] m (s.addTurn turn) := by
  obtain ⟨r, hr⟩ := Option.isSome_iff_exists.mp hcurrent
  refine ⟨?_, h.spent, h.incomplete⟩
  have hrecorded := h.recorded
  rw [List.append_nil, recorded_eq, hr] at hrecorded
  rw [List.append_nil, hrecorded, recorded_eq, CrewRun.addTurn, hr]
  simp [RoundRecord.prices]

theorem Books.bookRound (h : Books ran [] m s) {record : RoundRecord}
    (hcurrent : s.current = some record) : Books ran [] m (s.bookRound record) := by
  have hrecorded : ran = (s.completed ++ [record]).flatMap (·.prices) := by
    have hran := h.recorded
    rw [List.append_nil, recorded_eq, hcurrent] at hran
    simpa using hran
  rw [CrewRun.bookRound]
  cases hcost : record.costUsd with
  | none =>
    refine ⟨?_, ?_, ?_⟩
    · simpa [recorded_eq] using hrecorded
    · simpa [hcost] using h.spent
    · exact iff_of_true rfl (Or.inl ⟨record, by simp, hcost⟩)
  | some rc =>
    refine ⟨?_, ?_, ?_⟩
    · simpa [recorded_eq] using hrecorded
    · simpa [hcost] using h.spent
    · rw [h.incomplete]
      simp [or_and_right, exists_or, hcost]

theorem bookRound_current (s : CrewRun) (record : RoundRecord) :
    (s.bookRound record).current = none := by
  rw [bookRound]
  split <;> rfl

theorem sound_enterRound (h : Books (turnPrices log) [] (marked log) s)
    (hcurrent : s.current = none) (n : ℕ) : Sound log (s.enterRound inp n) := by
  rw [enterRound]
  split
  · refine Live.sound ⟨h.congr rfl rfl rfl rfl, ?_⟩ fun _ h => CrewPhase.noConfusion h
    show s.current.isSome = false
    rw [hcurrent]
    rfl
  · exact sound_finish h (List.forall_mem_nil _) _

theorem sound_closeRound (h : Books (turnPrices log) [] (marked log) s) {record : RoundRecord}
    (hcurrent : s.current = some record) : Sound log (s.closeRound inp record) := by
  have hbooked := h.bookRound hcurrent
  rw [closeRound]
  split
  · exact sound_finish hbooked (List.forall_mem_nil _) _
  · split
    · exact sound_finish hbooked (List.forall_mem_nil _) _
    · exact sound_enterRound hbooked (bookRound_current s record) _

theorem sound_afterQuestion (h : Live log s) (hround : s.phase.inRound) (reading : RoundReading) :
    Sound log (s.afterQuestion inp reading) := by
  have hcurrent := h.current
  rw [hround] at hcurrent
  obtain ⟨record, hrecord⟩ := Option.isSome_iff_exists.mp hcurrent
  rw [afterQuestion]
  split
  · exact sound_finish h.books (List.forall_mem_nil _) _
  · rw [hrecord]
    exact sound_closeRound h.books hrecord

theorem Live.quiet (h : Live log s) {x : Transition CrewRun CrewEvent} (hprices : x.event.prices = [])
    (hmarks : x.event.marks = false) : Live (x :: log) s := by
  refine ⟨?_, h.current⟩
  rw [turnPrices_cons, hprices, List.append_nil, marked_cons, hmarks, Bool.false_or]
  exact h.books

theorem Live.turn (h : Live log s) (hround : s.phase.inRound) {x : Transition CrewRun CrewEvent}
    (turn : TurnRecord) (hprices : x.event.prices = [turn.price]) (hmarks : x.event.marks = false)
    (role : String) :
    Books (turnPrices (x :: log)) [] (marked (x :: log)) ((s.addTurn turn).addSession role turn) ∧
      ((s.addTurn turn).addSession role turn).current.isSome := by
  have hcurrent := h.current
  rw [hround] at hcurrent
  constructor
  · rw [turnPrices_cons, hprices, marked_cons, hmarks, Bool.false_or]
    exact (h.books.addTurn hcurrent turn).congr (addSession_completed _ _ _)
      (by rw [addSession_current]) (addSession_spent _ _ _) (addSession_costIncomplete _ _ _)
  · rw [addSession_current, addTurn, Option.isSome_map]
    exact hcurrent

theorem Books.mark (h : Books ran [] m s) (b : Bool) :
    Books ran [] (b || m) { s with costIncomplete := s.costIncomplete || b } := by
  refine ⟨h.recorded, h.spent, ?_⟩
  show (s.costIncomplete || b) = true ↔ _
  rw [Bool.or_eq_true, h.incomplete, Bool.or_eq_true, or_assoc, or_comm (a := m = true)]

theorem Live.failed (h : Live log s) (hround : s.phase.inRound) {x : Transition CrewRun CrewEvent}
    (turn : TurnRecord) (hprices : x.event.prices = [turn.price]) :
    Books (turnPrices (x :: log)) [] (marked (x :: log))
        { s.addTurn turn with costIncomplete := s.costIncomplete || x.event.marks } ∧
      (s.addTurn turn).current.isSome := by
  have hcurrent := h.current
  rw [hround] at hcurrent
  constructor
  · rw [turnPrices_cons, hprices, marked_cons]
    exact (h.books.addTurn hcurrent turn).mark x.event.marks
  · rw [addTurn, Option.isSome_map]
    exact hcurrent

theorem Live.goto (h : Live log s) (hcompleted : s'.completed = s.completed)
    (hturns : s'.current.toList.flatMap (·.prices) = s.current.toList.flatMap (·.prices))
    (hspent : s'.spent = s.spent) (hincomplete : s'.costIncomplete = s.costIncomplete)
    (hcurrent : s'.current.isSome = s'.phase.inRound) (hfinished : ∀ r, s'.phase ≠ .finished r) :
    Sound log s' :=
  Live.sound ⟨h.books.congr hcompleted hturns hspent hincomplete, hcurrent⟩ hfinished

theorem sound_leadReturned (h : Live log s) (hround : s.phase.inRound) (turn : TurnOutput) (asked : ℕ)
    (capped : Bool) :
    Sound (⟨s, .leadReturned turn, s.leadReturned inp turn asked capped⟩ :: log)
      (s.leadReturned inp turn asked capped) := by
  obtain ⟨hbooks, hcurrent⟩ :=
    h.turn hround (x := ⟨s, .leadReturned turn, s.leadReturned inp turn asked capped⟩)
      turn.record rfl rfl inp.lead
  generalize hlog : (⟨s, .leadReturned turn, s.leadReturned inp turn asked capped⟩ :: log :
    CrewLog) = log' at hbooks ⊢
  rw [leadReturned]
  cases turn.deferred with
  | none => exact Live.sound ⟨hbooks.congr rfl rfl rfl rfl, hcurrent⟩ fun _ h => CrewPhase.noConfusion h
  | some d =>
    dsimp only
    split
    · exact Live.sound ⟨hbooks.congr rfl rfl rfl rfl, hcurrent⟩ fun _ h => CrewPhase.noConfusion h
    · split
      · exact Live.sound ⟨hbooks.congr rfl rfl rfl rfl, hcurrent⟩ fun _ h => CrewPhase.noConfusion h
      · exact Live.sound ⟨hbooks.congr rfl rfl rfl rfl, hcurrent⟩ fun _ h => CrewPhase.noConfusion h

theorem sound_leadFailed (h : Live log s) (hround : s.phase.inRound) (details : Option TurnRecord) :
    Sound (⟨s, .leadFailed details, s.leadFailed inp details⟩ :: log)
      (s.leadFailed inp details) := by
  obtain ⟨hbooks, -⟩ := h.failed hround
    (x := ⟨s, .leadFailed details, s.leadFailed inp details⟩)
    (recordFromFailure details inp.lead s.rnd)
    (by rw [price_recordFromFailure]; rfl)
  have hmarks : (recordFromFailure details "" 0).costIncomplete =
      (recordFromFailure details inp.lead s.rnd).costIncomplete := by cases details <;> rfl
  rw [CrewEvent.marks, hmarks] at hbooks
  exact sound_finish hbooks (List.forall_mem_nil _) _

theorem sound_criticFailed (h : Live log s) (hround : s.phase.inRound) (details : Option TurnRecord)
    (role : String) (rest : List String) :
    Sound (⟨s, .criticFailed details, s.criticFailed details role rest⟩ :: log)
      (s.criticFailed details role rest) := by
  obtain ⟨hbooks, hcurrent⟩ := h.failed hround
    (x := ⟨s, .criticFailed details, s.criticFailed details role rest⟩)
    (recordFromFailure details role s.rnd)
    (by rw [price_recordFromFailure]; rfl)
  exact Live.sound ⟨hbooks.congr rfl rfl rfl (by simp [criticFailed, CrewEvent.marks]), hcurrent⟩
    fun _ h => CrewPhase.noConfusion h

theorem sound_checkpointed (h : Live log s) (hround : s.phase.inRound) (sha : String)
    (reading : RoundReading) : Sound log (s.checkpointed inp sha reading) := by
  have hbooks : Books (turnPrices log) [] (marked log) { s with commitSha := some sha } :=
    h.books.congr rfl rfl rfl rfl
  have hcurrent := h.current
  rw [hround] at hcurrent
  rw [checkpointed]
  dsimp only
  split
  · refine sound_afterQuestion ⟨hbooks, ?_⟩ hround reading
    exact hcurrent.trans hround.symm
  · split
    · exact sound_finish hbooks (List.forall_mem_nil _) _
    · exact Live.sound ⟨hbooks.congr rfl rfl rfl rfl, hcurrent⟩ fun _ h => CrewPhase.noConfusion h

/-- **Every event keeps what is known of a run.** -/
theorem sound_next (h : Sound log s) {e : CrewEvent} (hstep : next inp s e = some s') :
    Sound (⟨s, e, s'⟩ :: log) s' := by
  unfold next at hstep
  split at hstep
  · rename_i now hphase
    obtain ⟨hlive, hcurrent⟩ := h.awaiting hphase rfl
    split at hstep
    · obtain rfl := Option.some.inj hstep
      exact (hlive.quiet rfl rfl).goto rfl rfl rfl rfl hcurrent fun _ h => CrewPhase.noConfusion h
    · obtain rfl := Option.some.inj hstep
      trivial
  · rename_i hphase
    obtain ⟨hlive, hcurrent⟩ := h.awaiting hphase rfl
    obtain rfl := Option.some.inj hstep
    exact sound_enterRound (hlive.quiet rfl rfl).books
      (Option.not_isSome_iff_eq_none.mp (Bool.eq_false_iff.mp hcurrent)) 1
  · rename_i now hphase
    obtain ⟨hlive, hcurrent⟩ := h.awaiting hphase rfl
    have hnone : s.current = none :=
      Option.not_isSome_iff_eq_none.mp (Bool.eq_false_iff.mp hcurrent)
    split at hstep
    · obtain rfl := Option.some.inj hstep
      exact sound_finish (hlive.quiet rfl rfl).books (List.forall_mem_nil _) _
    · obtain rfl := Option.some.inj hstep
      exact (hlive.quiet rfl rfl).goto rfl (by rw [hnone]; rfl) rfl rfl rfl fun _ h => CrewPhase.noConfusion h
  · rename_i asked capped turn hphase
    obtain ⟨hlive, -⟩ := h.awaiting hphase rfl
    obtain rfl := Option.some.inj hstep
    exact sound_leadReturned hlive (by rw [hphase]; rfl) turn asked capped
  · rename_i details hphase
    obtain ⟨hlive, -⟩ := h.awaiting hphase rfl
    obtain rfl := Option.some.inj hstep
    exact sound_leadFailed hlive (by rw [hphase]; rfl) details
  · rename_i hphase
    obtain ⟨hlive, -⟩ := h.awaiting hphase rfl
    obtain rfl := Option.some.inj hstep
    -- The turn that the timer cuts off has run, and leaves no record.
    have hbooks : Books (turnPrices log ++ [none]) [none] (marked log) s := by
      refine ⟨?_, hlive.books.spent, hlive.books.incomplete⟩
      rw [hlive.books.recorded, List.append_nil]
    have hcut : turnPrices (⟨s, .timerFired, s.finish inp .deadline⟩ :: log) =
        turnPrices log ++ [none] := turnPrices_cons _ _
    rw [← hcut] at hbooks
    exact sound_finish hbooks (by simp) _
  · rename_i asked call d hphase
    obtain ⟨hlive, hcurrent⟩ := h.awaiting hphase rfl
    obtain rfl := Option.some.inj hstep
    exact (hlive.quiet rfl rfl).goto rfl rfl rfl rfl hcurrent fun _ h => CrewPhase.noConfusion h
  · rename_i now hphase
    obtain ⟨hlive, hcurrent⟩ := h.awaiting hphase rfl
    obtain rfl := Option.some.inj hstep
    exact (hlive.quiet rfl rfl).goto rfl rfl rfl rfl hcurrent fun _ h => CrewPhase.noConfusion h
  · rename_i role rest now hphase
    obtain ⟨hlive, hcurrent⟩ := h.awaiting hphase rfl
    split at hstep
    · obtain rfl := Option.some.inj hstep
      exact (hlive.quiet rfl rfl).goto rfl rfl rfl rfl hcurrent fun _ h => CrewPhase.noConfusion h
    · obtain rfl := Option.some.inj hstep
      exact (hlive.quiet rfl rfl).goto rfl rfl rfl rfl hcurrent fun _ h => CrewPhase.noConfusion h
  · rename_i role rest turn hphase
    obtain ⟨hlive, -⟩ := h.awaiting hphase rfl
    obtain ⟨hbooks, hcurrent⟩ := hlive.turn (by rw [hphase]; rfl)
      (x := ⟨s, .criticReturned turn, s'⟩) turn.record rfl rfl role
    obtain rfl := Option.some.inj hstep
    exact Live.sound ⟨hbooks.congr rfl rfl rfl rfl, hcurrent⟩ fun _ h => CrewPhase.noConfusion h
  · rename_i role rest details hphase
    obtain ⟨hlive, -⟩ := h.awaiting hphase rfl
    obtain rfl := Option.some.inj hstep
    exact sound_criticFailed hlive (by rw [hphase]; rfl) details role rest
  · rename_i sha hphase
    obtain ⟨hlive, -⟩ := h.awaiting hphase rfl
    obtain rfl := Option.some.inj hstep
    have hquiet := (hlive.quiet (x := ⟨s, .checkpointed sha,
      { s with commitSha := some sha }.finish inp .deadline⟩) rfl rfl).books
    have hbooks : Books _ _ _ { s with commitSha := some sha } := hquiet.congr rfl rfl rfl rfl
    exact sound_finish hbooks (List.forall_mem_nil _) _
  · rename_i reading hphase
    obtain ⟨hlive, hcurrent⟩ := h.awaiting hphase rfl
    obtain rfl := Option.some.inj hstep
    refine (hlive.quiet rfl rfl).goto rfl ?_ rfl rfl ?_ fun _ h => CrewPhase.noConfusion h
    · rw [noteReading]
      cases s.current <;> rfl
    · rw [noteReading, Option.isSome_map]
      exact hcurrent
  · rename_i reading sha hphase
    obtain ⟨hlive, -⟩ := h.awaiting hphase rfl
    obtain rfl := Option.some.inj hstep
    exact sound_checkpointed (hlive.quiet rfl rfl) (by rw [hphase]; rfl) sha reading
  · rename_i reading d hphase
    obtain ⟨hlive, -⟩ := h.awaiting hphase rfl
    obtain rfl := Option.some.inj hstep
    exact sound_afterQuestion (hlive.quiet rfl rfl) (by rw [hphase]; rfl) reading
  · exact nomatch hstep
  · exact nomatch hstep
  · exact nomatch hstep
  · exact nomatch hstep
  · exact nomatch hstep
  · obtain rfl := Option.some.inj hstep
    trivial
  · exact nomatch hstep

theorem sound_of_run (run : Run {} (next inp) log s) : Sound log s := by
  refine run.induct (P := Sound) ?_ fun log s e s' _ h hstep => sound_next h hstep
  exact Live.sound ⟨⟨rfl, rfl, by simp [marked]⟩, rfl⟩ fun _ h => CrewPhase.noConfusion h

/-! ## 4. When the reported cost is complete -/

/-- **The returned cost is the total of all turns exactly when the run is accountable.** -/
theorem costUsd_eq_total_iff (inp : CrewTaskInput) (log : CrewLog) (s : CrewRun)
    (r : CrewRunResult) (run : Run {} (next inp) log s) (hfinished : s.phase = .finished r) :
    r.costUsd = total (turnPrices log) ↔ Accountable (turnPrices log) (marked log) s := by
  have hsound := sound_of_run run
  rwa [Sound, hfinished] at hsound

/-- A crew of one, whose one turn costs two dollars. -/
def soloInput : CrewTaskInput where
  lead := "lead"
  roles := ["lead"]

def soloScript (missing : Bool) : List CrewEvent :=
  [.started 0, .prepared, .clock 0,
    .leadReturned { record := { role := "lead", round := 1, costUsd := some 2 } }, .clock 60,
    .read { missing }, .checkpointed "c0ffee"]

/-- The cost of the result, once there is one. -/
def returned (s : CrewRun) : Option (Option ℚ) :=
  match s.phase with
  | .finished r => some r.costUsd
  | _ => none

theorem exists_soloRun (missing : Bool) : ∃ log s r, Run {} (next soloInput) log s ∧
    s.phase = .finished r ∧ turnPrices log = [some 2] ∧
    r.costUsd = if missing then some 0 else some 2 := by
  have heval : (runScript (next soloInput) ([], {}) (soloScript missing)).map
      (fun q => (turnPrices q.1, returned q.2)) =
      some ([some 2], some (if missing then some 0 else some 2)) := by
    cases missing <;> decide +kernel
  obtain ⟨log, s, run, hview⟩ := Run.exists_of_runScript heval
  obtain ⟨hprices, hreturned⟩ := Prod.mk.inj hview
  dsimp only at hprices hreturned
  rw [returned] at hreturned
  split at hreturned
  · rename_i r hphase
    exact ⟨log, s, r, run, hphase, hprices, Option.some.inj hreturned⟩
  · exact nomatch hreturned

theorem costUsd_eq_total_iff_sample : ∃ log s r, Run {} (next soloInput) log s ∧
    s.phase = .finished r ∧
    (r.costUsd = total (turnPrices log) ↔ Accountable (turnPrices log) (marked log) s) := by
  obtain ⟨log, s, r, run, hphase, -⟩ := exists_soloRun false
  exact ⟨log, s, r, run, hphase, costUsd_eq_total_iff soloInput log s r run hphase⟩

/-- Without the note, the round is broken off and its two dollars are lost. -/
theorem costUsd_lost : ¬ ∀ inp log s r, Run {} (next inp) log s → s.phase = .finished r →
    r.costUsd = total (turnPrices log) := by
  intro hall
  obtain ⟨log, s, r, run, hphase, hprices, hcost⟩ := exists_soloRun true
  have hclaim := hall soloInput log s r run hphase
  rw [hprices, hcost] at hclaim
  exact absurd hclaim (by decide +kernel)

end CrewRun

end Kroker.Crew
