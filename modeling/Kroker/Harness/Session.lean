import Kroker.Core.Config
import Kroker.Core.Lines
import Kroker.Library.Json
import Mathlib.Algebra.Order.BigOperators.Group.List

/-!
# The transcript a model is shown and the one that is checked

`session_to_jsonl`, `session_to_text` and `session_text_from_jsonl` of `harness/session.py`.  The
stored form has one JSON object on a line; the model is shown a rendering of the events, and what it
quotes is looked up in the rendering of the stored form.

The encoder and the validator are `pydantic`'s, and stand here as parameters (`Pydantic`) with what
is documented of them (`Pydantic.Documented`): the encoder writes compact JSON and escapes nothing
it need not, the validator accepts what was encoded, and accepts nothing but an object that has a
member.

## 1.  The code

`splitlines` breaks at eight characters beside the line feed and the carriage return, and the
encoder leaves three of them as they are.

## 2.  The lines of the stored form

A line on which an event was written comes back as it was where none of the three characters is in
the strings of the event (`accepted_pieces`); otherwise it comes back in pieces, none of which is an
object, and the event is lost.  So what is read is the list of the events that are not broken
(`accepted_events`), and of a prefix of the stored form the first of them
(`accepted_prefix`).

## 3.  The two renderings

Losing an event shortens the rendering.  `same_transcript_iff` says that the renderings agree, also
for every prefix, exactly when no event is broken.
-/

namespace Kroker

open JsonText

/-! ## 1.  The code -/

def HarnessKind.value : HarnessKind → String
  | .claudeCode => "claude_code"
  | .opencode => "opencode"
  | .cursor => "cursor"
  | .crew => "crew"

structure SessionEvent where
  kind : String
  tool : Option String := none
  target : Option String := none
  exitCode : Option ℤ := none
  tokensIn : Option ℤ := none
  tokensOut : Option ℤ := none
  text : Option String := none
  deriving DecidableEq

structure HarnessSession where
  harness : HarnessKind
  sessionId : Option String := none
  model : Option String := none
  events : List SessionEvent := []
  inputTokens : Option ℤ := none
  outputTokens : Option ℤ := none
  costUsd : Option ℚ := none

/-- `model_dump_json(exclude={"events"})` of a session, `model_dump_json` and `model_validate_json`
of an event. -/
structure Pydantic where
  dumpHead : HarnessSession → String
  dumpEvent : SessionEvent → String
  validateEvent : String → Option SessionEvent

/-- A text that is there and not empty. -/
def given (text : Option String) : Option String := text.filter (· ≠ "")

def eventToLine (ev : SessionEvent) : String :=
  let lead := match given ev.target, given ev.tool with
    | some target, _ => ev.kind ++ " " ++ target
    | none, some tool => ev.kind ++ " " ++ tool
    | none, none => ev.kind
  let exit := match ev.exitCode with
    | some code => if ev.kind = "command" then " (exit " ++ toString code ++ ")" else ""
    | none => ""
  let tail := match given ev.text with
    | some text => (if exit ≠ "" then exit ++ " " else "") ++ text
    | none => exit
  lead ++ tail

def eventsToText (events : List SessionEvent) : String :=
  let lines := events.map eventToLine
  joinWith "\n" lines ++ if lines ≠ [] then "\n" else ""

def sessionToText (session : HarnessSession) : String := eventsToText session.events

def sessionToJsonl (p : Pydantic) (session : HarnessSession) : String :=
  joinWith "\n" (p.dumpHead session :: session.events.map p.dumpEvent) ++ "\n"

def eventOf (p : Pydantic) (line : List Char) : Option SessionEvent :=
  if strip (String.ofList line) = "" then none else p.validateEvent (String.ofList line)

/-- `session_text_from_jsonl`; the first line is the header. -/
def sessionTextFromJsonl (p : Pydantic) (jsonl : String) : String :=
  eventsToText ((splitlines jsonl.toList).tail.filterMap (eventOf p))

/-! ### What is encoded -/

def intNumeral (z : ℤ) : Numeral where
  chars := (toString z).toList
  numeric := by
    intro c hc
    by_contra hnumeric
    have hdigit : c.isDigit = false := by
      rw [← Bool.not_eq_true]
      exact fun h => hnumeric (mem_numericChars_of_isDigit h)
    have hminus : c ≠ '-' := by
      rintro rfl
      exact hnumeric (by decide)
    exact notMem_toString_int hdigit hminus z hc

def textScalar (text : Option String) : Scalar :=
  text.elim .null fun s => .string s.toList

def intScalar (z : Option ℤ) : Scalar := z.elim .null fun z => .number (intNumeral z)

def eventMembers (ev : SessionEvent) : List (List Char × Scalar) :=
  [("kind".toList, .string ev.kind.toList), ("tool".toList, textScalar ev.tool),
    ("target".toList, textScalar ev.target), ("exit_code".toList, intScalar ev.exitCode),
    ("tokens_in".toList, intScalar ev.tokensIn), ("tokens_out".toList, intScalar ev.tokensOut),
    ("text".toList, textScalar ev.text)]

/-- `floatText` is how the encoder writes a float. -/
def headMembers (floatText : ℚ → Numeral) (session : HarnessSession) :
    List (List Char × Scalar) :=
  [("harness".toList, .string session.harness.value.toList),
    ("session_id".toList, textScalar session.sessionId),
    ("model".toList, textScalar session.model),
    ("input_tokens".toList, intScalar session.inputTokens),
    ("output_tokens".toList, intScalar session.outputTokens),
    ("cost_usd".toList, session.costUsd.elim .null fun q => .number (floatText q))]

/-- What is documented of the encoder and the validator: compact JSON with no escapes but the
required ones, read back as what was encoded; and what is not an object with a member is no
event. -/
structure Pydantic.Documented (p : Pydantic) (session : HarnessSession) : Prop where
  head : ∃ floatText, (p.dumpHead session).toList = JsonText.objectText (headMembers floatText session)
  event : ∀ ev ∈ session.events, (p.dumpEvent ev).toList = JsonText.objectText (eventMembers ev)
  roundTrip : ∀ ev ∈ session.events, p.validateEvent (p.dumpEvent ev) = some ev
  object : ∀ line ev, p.validateEvent line = some ev → ObjectText line.toList

theorem names_eventMembers (ev : SessionEvent) : ∀ m ∈ eventMembers ev, Name m.1 := by
  simp only [eventMembers, List.forall_mem_cons, List.not_mem_nil, false_imp_iff, implies_true,
    and_true]
  decide +kernel

theorem names_headMembers (floatText : ℚ → Numeral) (session : HarnessSession) :
    ∀ m ∈ headMembers floatText session, Name m.1 := by
  simp only [headMembers, List.forall_mem_cons, List.not_mem_nil, false_imp_iff, implies_true,
    and_true]
  decide +kernel

/-! ## 2.  The lines of the stored form -/

/-- The breaks that the encoder does not escape. -/
def separators : List Char := [Char.ofNat 0x85, Char.ofNat 0x2028, Char.ofNat 0x2029]

def SessionEvent.strings (ev : SessionEvent) : List String :=
  ev.kind :: (ev.tool.toList ++ ev.target.toList ++ ev.text.toList)

def SessionEvent.Unbroken (ev : SessionEvent) : Prop :=
  ∀ s ∈ ev.strings, ∀ c ∈ s.toList, c ∉ separators

instance (ev : SessionEvent) : Decidable ev.Unbroken :=
  inferInstanceAs (Decidable (∀ s ∈ ev.strings, _))

theorem mem_separators {c : Char} (hprinted : 32 ≤ c.toNat) (hc : c ∈ lineBreaks) :
    c ∈ separators := by
  have hall : ∀ d ∈ lineBreaks, 32 ≤ d.toNat → d ∈ separators := by decide
  exact hall c hc hprinted

theorem separators_beyond : ∀ c ∈ separators, 128 ≤ c.toNat ∧ c ∈ lineBreaks := by decide

variable {ev : SessionEvent}

/-- **The text of an event is one line exactly when the event is not broken.** -/
theorem unbroken_iff :
    ev.Unbroken ↔ ∀ c ∈ objectText (eventMembers ev), c ∉ lineBreaks := by
  have htext : ∀ (t : Option String) (c : Char),
      (∃ s, textScalar t = .string s ∧ c ∈ s) ↔ ∃ s ∈ t, c ∈ s.toList := by
    intro t c
    cases t <;> simp [textScalar]
  have hint : ∀ (z : Option ℤ) (c : Char), ¬∃ s, intScalar z = .string s ∧ c ∈ s := by
    intro z c
    cases z <;> simp [intScalar]
  have hstrings : ∀ c, 128 ≤ c.toNat →
      (c ∈ objectText (eventMembers ev) ↔ ∃ s ∈ ev.strings, c ∈ s.toList) := by
    intro c hc
    rw [mem_objectText_iff (names_eventMembers ev) hc]
    simp only [eventMembers, List.exists_mem_cons_iff, htext, hint, SessionEvent.strings,
      List.mem_append, or_and_right, exists_or]
    simp [or_assoc]
  constructor
  · intro h c hc hbreak
    have hseparator := mem_separators (printed_objectText hc) hbreak
    obtain ⟨s, hs, hmem⟩ := (hstrings c (separators_beyond c hseparator).1).mp hc
    exact h s hs c hmem hseparator
  · intro h s hs c hmem hseparator
    obtain ⟨hbeyond, hbreak⟩ := separators_beyond c hseparator
    exact h c ((hstrings c hbeyond).mpr ⟨s, hs, hmem⟩) hbreak

/-! ### Pieces of an object -/

section Pieces

variable {ms : List (List Char × Scalar)}

theorem notMem_objectText_return {t : List Char} (h : t <+: objectText ms) : '\r' ∉ t := by
  intro hmem
  have hprinted : 32 ≤ '\r'.toNat := printed_objectText (h.subset hmem)
  exact absurd hprinted (by decide)

theorem not_objectText_after (hnames : ∀ m ∈ ms, Name m.1) {t : List Char}
    (h : t <+: objectText ms) {q : List Char} (hq : q ∈ (pieces t).tail) : ¬ObjectText q := by
  obtain ⟨others, hothers, hafter⟩ := pieces_eq t
  rw [hothers, List.tail_cons] at hq
  obtain ⟨xs, c, ys, rfl, hbreak, r, rfl⟩ := hafter q hq
  obtain ⟨z, hz⟩ := h
  have hmem : c ∈ objectText ms := by
    rw [← hz]
    simp
  have hprinted : 32 ≤ c.toNat := printed_objectText hmem
  have hbeyond : 128 ≤ c.toNat := (separators_beyond c (mem_separators hprinted hbreak)).1
  have hsplit : objectText ms = xs ++ c :: (q ++ (r ++ z)) := by
    rw [← hz]
    simp
  exact fun hobject => not_opens_after hnames hbeyond hsplit (hobject.opens.append (r ++ z))

/-- **No piece of an object is an object**, where it is not all of it or has a break. -/
theorem not_objectText_of_mem_pieces (hnames : ∀ m ∈ ms, Name m.1) {t : List Char}
    (h : t <+: objectText ms) (hpart : t ≠ objectText ms ∨ ∃ c ∈ t, c ∈ lineBreaks) {q : List Char}
    (hq : q ∈ pieces t) : ¬ObjectText q := by
  obtain ⟨others, hothers, -⟩ := pieces_eq t
  have htail := not_objectText_after hnames h (q := q)
  rw [hothers, List.tail_cons] at htail
  rw [hothers, List.mem_cons] at hq
  rcases hq with rfl | hq
  · have hhead : t.takeWhile (· ∉ lineBreaks) <+: t := List.takeWhile_prefix _
    refine not_objectText_of_prefix (hhead.trans h) fun hwhole => ?_
    have hall : t.takeWhile (· ∉ lineBreaks) = t :=
      hhead.eq_of_length_le (hwhole ▸ h.length_le)
    rcases hpart with hne | ⟨c, hc, hbreak⟩
    · exact hne (hall.symm.trans hwhole)
    · rw [List.takeWhile_eq_self_iff] at hall
      exact absurd hbreak (by simpa using hall c hc)
  · exact htail hq

end Pieces

/-! ### What is read of them -/

variable {p : Pydantic} {session : HarnessSession}

theorem eventOf_eq_none (h : p.Documented session) {line : List Char} (hline : ¬ObjectText line) :
    eventOf p line = none := by
  rw [eventOf]
  split
  · rfl
  · cases hev : p.validateEvent (String.ofList line) with
    | none => rfl
    | some ev => exact absurd (by simpa using h.object _ _ hev) hline

theorem filterMap_eventOf_eq_nil (h : p.Documented session) {lines : List (List Char)}
    (hlines : ∀ q ∈ lines, ¬ObjectText q) : lines.filterMap (eventOf p) = [] :=
  List.filterMap_eq_nil_iff.mpr fun q hq => eventOf_eq_none h (hlines q hq)

theorem eventOf_dumpEvent (h : p.Documented session) (hev : ev ∈ session.events) :
    eventOf p (p.dumpEvent ev).toList = some ev := by
  have hbrace : strip (p.dumpEvent ev) ≠ "" := by
    intro hblank
    have hspace := strip_eq_empty_iff.mp hblank '{' (by rw [h.event ev hev]; exact List.mem_cons_self)
    exact absurd hspace (by decide)
  rw [eventOf, String.ofList_toList, if_neg hbrace, h.roundTrip ev hev]

theorem filterMap_splitlines (h : p.Documented session) {t : List Char} (hreturn : '\r' ∉ t) :
    (splitlines t).filterMap (eventOf p) = (pieces t).filterMap (eventOf p) := by
  have hempty : eventOf p [] = none := eventOf_eq_none h fun hobject => hobject.ne_nil rfl
  rcases splitlines_cases hreturn with heq | heq
  · rw [heq]
  · rw [heq, List.filterMap_append, List.filterMap_cons_none hempty, List.filterMap_nil,
      List.append_nil]

/-- **The line of an event** has the event, where it is not broken. -/
theorem accepted_pieces (h : p.Documented session) (hev : ev ∈ session.events) :
    (pieces (p.dumpEvent ev).toList).filterMap (eventOf p) =
      [ev].filter fun ev => ev.Unbroken := by
  by_cases hbroken : ev.Unbroken
  · rw [pieces_eq_self (by rw [h.event ev hev]; exact unbroken_iff.mp hbroken),
      List.filterMap_cons_some (eventOf_dumpEvent h hev), List.filterMap_nil,
      List.filter_cons_of_pos (by simpa using hbroken), List.filter_nil]
  · have hbreak : ∃ c ∈ objectText (eventMembers ev), c ∈ lineBreaks := by
      by_contra hnone
      push Not at hnone
      exact hbroken (unbroken_iff.mpr hnone)
    rw [List.filter_cons_of_neg (by simpa using hbroken), List.filter_nil, h.event ev hev]
    exact filterMap_eventOf_eq_nil h fun q hq =>
      not_objectText_of_mem_pieces (names_eventMembers ev) List.prefix_rfl (.inr hbreak) hq

def eventLines (p : Pydantic) (events : List SessionEvent) : List Char :=
  events.flatMap fun ev => (p.dumpEvent ev).toList ++ ['\n']

theorem toList_joinWith_newline (parts : List String) (h : parts ≠ []) :
    (joinWith "\n" parts ++ "\n").toList = parts.flatMap fun part => part.toList ++ ['\n'] := by
  induction parts with
  | nil => exact absurd rfl h
  | cons part parts ih =>
    cases parts with
    | nil => simp [joinWith]
    | cons next parts =>
      have hrest := ih (by simp)
      rw [joinWith, String.intercalate_cons_cons] at *
      simp_all

theorem toList_sessionToJsonl : (sessionToJsonl p session).toList =
    (p.dumpHead session).toList ++ '\n' :: eventLines p session.events := by
  rw [sessionToJsonl, toList_joinWith_newline _ (List.cons_ne_nil _ _), List.flatMap_cons,
    List.flatMap_map, eventLines]
  simp

section

variable (h : p.Documented session)

include h

theorem notMem_dumpEvent (hev : ev ∈ session.events) :
    '\r' ∉ (p.dumpEvent ev).toList := by
  rw [h.event ev hev]
  exact notMem_objectText_return List.prefix_rfl

theorem accepted_cons (hev : ev ∈ session.events) (rest : List Char) :
    (splitlines ((p.dumpEvent ev).toList ++ '\n' :: rest)).filterMap (eventOf p) =
      ([ev].filter fun ev => ev.Unbroken) ++ (splitlines rest).filterMap (eventOf p) := by
  rw [splitlines_append_newline (notMem_dumpEvent h hev), List.filterMap_append,
    accepted_pieces h hev]

/-- **What is read of the events is those that are not broken.** -/
theorem accepted_events {events : List SessionEvent}
    (hevents : ∀ ev ∈ events, ev ∈ session.events) :
    (splitlines (eventLines p events)).filterMap (eventOf p) =
      events.filter fun ev => ev.Unbroken := by
  induction events with
  | nil => rfl
  | cons ev events ih =>
    rw [List.forall_mem_cons] at hevents
    rw [eventLines, List.flatMap_cons, List.append_assoc, List.singleton_append,
      accepted_cons h hevents.1]
    have hrest := ih hevents.2
    rw [eventLines] at hrest
    rw [hrest, ← List.filter_append, List.singleton_append]

/-- **And of a prefix, the first of them.** -/
theorem accepted_prefix {events : List SessionEvent}
    (hevents : ∀ ev ∈ events, ev ∈ session.events) {t : List Char}
    (ht : t <+: eventLines p events) :
    ∃ k, (splitlines t).filterMap (eventOf p) = (events.take k).filter fun ev => ev.Unbroken := by
  induction events generalizing t with
  | nil =>
    rw [List.prefix_nil.mp ht]
    exact ⟨0, rfl⟩
  | cons ev events ih =>
    rw [List.forall_mem_cons] at hevents
    have hnext : ∀ r, r <+: eventLines p events →
        ∃ k, (splitlines ((p.dumpEvent ev).toList ++ '\n' :: r)).filterMap (eventOf p) =
          ((ev :: events).take k).filter fun ev => ev.Unbroken := by
      intro r hr
      obtain ⟨k, hk⟩ := ih hevents.2 hr
      refine ⟨k + 1, ?_⟩
      rw [accepted_cons h hevents.1, hk, List.take_succ_cons, ← List.filter_append,
        List.singleton_append]
    rw [eventLines, List.flatMap_cons] at ht
    rcases prefix_append_cases ht with ht | ⟨r, rfl, hr⟩
    · rcases List.prefix_concat_iff.mp ht with rfl | ht
      · exact hnext [] List.nil_prefix
      · have hobject : t <+: objectText (eventMembers ev) := h.event ev hevents.1 ▸ ht
        rw [filterMap_splitlines h (notMem_objectText_return hobject)]
        by_cases hwhole : t = (p.dumpEvent ev).toList
        · exact ⟨1, by rw [hwhole, accepted_pieces h hevents.1]; rfl⟩
        · refine ⟨0, filterMap_eventOf_eq_nil h fun q hq => ?_⟩
          exact not_objectText_of_mem_pieces (names_eventMembers ev) hobject
            (.inl (h.event ev hevents.1 ▸ hwhole)) hq
    · rw [List.append_assoc, List.singleton_append]
      exact hnext r hr

/-- **What is read of the header** after its first line is no event. -/
theorem accepted_head (r : List Char) :
    (splitlines ((p.dumpHead session).toList ++ '\n' :: r)).tail.filterMap (eventOf p) =
      (splitlines r).filterMap (eventOf p) := by
  obtain ⟨floatText, hhead⟩ := h.head
  have hreturn : '\r' ∉ (p.dumpHead session).toList := by
    rw [hhead]
    exact notMem_objectText_return List.prefix_rfl
  have hlater : (pieces (p.dumpHead session).toList).tail.filterMap (eventOf p) = [] := by
    rw [hhead]
    exact filterMap_eventOf_eq_nil h fun q hq =>
      not_objectText_after (names_headMembers floatText session) List.prefix_rfl hq
  obtain ⟨others, hothers, -⟩ := pieces_eq (p.dumpHead session).toList
  rw [hothers, List.tail_cons] at hlater
  rw [splitlines_append_newline hreturn, hothers, List.cons_append, List.tail_cons,
    List.filterMap_append, hlater, List.nil_append]

theorem accepted_part_of_head {t : List Char}
    (ht : t <+: (p.dumpHead session).toList) :
    (splitlines t).tail.filterMap (eventOf p) = [] := by
  obtain ⟨floatText, hhead⟩ := h.head
  rw [hhead] at ht
  refine filterMap_eventOf_eq_nil h fun q hq => ?_
  refine not_objectText_after (names_headMembers floatText session) ht ?_
  rcases splitlines_cases (notMem_objectText_return ht) with heq | heq
  · exact heq ▸ hq
  · rw [heq]
    cases hlines : splitlines t with
    | nil => rw [hlines] at hq; exact nomatch hq
    | cons line lines =>
      rw [hlines, List.tail_cons] at hq
      exact List.mem_append_left _ hq

/-! ## 3.  The two renderings -/

theorem sessionTextFromJsonl_prefix {t : String}
    (ht : t.toList <+: (sessionToJsonl p session).toList) :
    ∃ k, sessionTextFromJsonl p t =
      eventsToText ((session.events.take k).filter fun ev => ev.Unbroken) := by
  have hafter : ∀ r, r <+: eventLines p session.events → ∃ k,
      (splitlines ((p.dumpHead session).toList ++ '\n' :: r)).tail.filterMap (eventOf p) =
        (session.events.take k).filter fun ev => ev.Unbroken := by
    intro r hr
    rw [accepted_head h]
    exact accepted_prefix h (fun _ hev => hev) hr
  have hsplit : t.toList <+: ((p.dumpHead session).toList ++ ['\n']) ++
      eventLines p session.events := by
    rw [toList_sessionToJsonl] at ht
    simpa using ht
  rcases prefix_append_cases hsplit with hhead | ⟨r, hr, hevents⟩
  · rcases List.prefix_concat_iff.mp hhead with hwhole | hpart
    · obtain ⟨k, hk⟩ := hafter [] List.nil_prefix
      exact ⟨k, by rw [sessionTextFromJsonl, hwhole, hk]⟩
    · exact ⟨0, by rw [sessionTextFromJsonl, accepted_part_of_head h hpart]; rfl⟩
  · obtain ⟨k, hk⟩ := hafter r hevents
    refine ⟨k, ?_⟩
    rw [sessionTextFromJsonl, hr, List.append_assoc, List.singleton_append, hk]

theorem sessionTextFromJsonl_sessionToJsonl :
    sessionTextFromJsonl p (sessionToJsonl p session) =
      eventsToText (session.events.filter fun ev => ev.Unbroken) := by
  rw [sessionTextFromJsonl, toList_sessionToJsonl, accepted_head h,
    accepted_events h fun _ hev => hev]

end

theorem length_eventsToText (events : List SessionEvent) :
    (eventsToText events).length = (events.map fun ev => (eventToLine ev).length + 1).sum := by
  cases events with
  | nil => rfl
  | cons ev events =>
    have hlines : (ev :: events).map eventToLine ≠ [] := by simp
    have htext : (eventsToText (ev :: events)).toList =
        ((ev :: events).map eventToLine).flatMap fun line => line.toList ++ ['\n'] := by
      rw [← toList_joinWith_newline _ hlines, eventsToText]
      simp only [if_pos hlines]
    rw [← String.length_toList, htext, List.length_flatMap, List.map_map]
    simp only [← String.length_toList, Function.comp_def, List.length_append, List.length_cons,
      List.length_nil]

theorem length_filter_lt {events : List SessionEvent} {keep : SessionEvent → Bool}
    (hev : ev ∈ events) (hkeep : keep ev = false) :
    (eventsToText (events.filter keep)).length < (eventsToText events).length := by
  have hle : ∀ l : List SessionEvent,
      (eventsToText (l.filter keep)).length ≤ (eventsToText l).length := by
    intro l
    rw [length_eventsToText, length_eventsToText]
    exact (List.filter_sublist.map _).sum_le_sum fun _ _ => Nat.zero_le _
  obtain ⟨l, l', rfl⟩ := List.append_of_mem hev
  have hl := hle l
  have hl' := hle l'
  rw [length_eventsToText] at *
  rw [length_eventsToText] at *
  simp only [List.filter_append, List.filter_cons_of_neg (by simpa using hkeep), List.map_append,
    List.sum_append, List.map_cons, List.sum_cons] at *
  omega

theorem rendering_eq_iff (h : p.Documented session) :
    sessionTextFromJsonl p (sessionToJsonl p session) = sessionToText session ↔
      ∀ ev ∈ session.events, ev.Unbroken := by
  rw [sessionTextFromJsonl_sessionToJsonl h, sessionToText]
  constructor
  · intro hsame ev hev
    by_contra hbroken
    have hshorter : (eventsToText (session.events.filter fun ev => ev.Unbroken)).length <
        (eventsToText session.events).length := length_filter_lt hev (decide_eq_false hbroken)
    rw [hsame] at hshorter
    exact lt_irrefl _ hshorter
  · intro hunbroken
    rw [List.filter_eq_self.mpr fun ev hev => decide_eq_true (hunbroken ev hev)]

/-- A command, and what it printed, which has a line separator. -/
def sampleSession : HarnessSession where
  harness := .claudeCode
  events :=
    [{ kind := "command", target := some "pytest", exitCode := some 0 },
      { kind := "tool_result", text := some (String.ofList ['a', Char.ofNat 0x2028, 'b']) }]

/-- The same commands, with a line feed in the output, which the encoder escapes. -/
def sampleEscaped : HarnessSession where
  harness := .claudeCode
  events :=
    [{ kind := "command", target := some "pytest", exitCode := some 0 },
      { kind := "tool_result", text := some "a\nb" }]

/-- Writes compact JSON, and reads the events of the two sessions. -/
def samplePydantic : Pydantic where
  dumpHead session := String.ofList (objectText (headMembers (fun _ => ⟨[], by simp⟩) session))
  dumpEvent ev := String.ofList (objectText (eventMembers ev))
  validateEvent line := (sampleSession.events ++ sampleEscaped.events).find? fun ev =>
    line = String.ofList (objectText (eventMembers ev))

theorem samplePydantic_documented {session : HarnessSession}
    (h : ∀ ev ∈ session.events, samplePydantic.validateEvent (samplePydantic.dumpEvent ev) = some ev) :
    samplePydantic.Documented session where
  head := ⟨_, String.toList_ofList⟩
  event _ _ := String.toList_ofList
  roundTrip := h
  object line ev hev := by
    have hline := List.find?_some hev
    rw [decide_eq_true_eq] at hline
    rw [hline, String.toList_ofList]
    exact objectText_cons _ _

end Kroker
