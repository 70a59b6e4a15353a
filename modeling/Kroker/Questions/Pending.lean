import Kroker.Gates.Isolation
import Kroker.Library.Notices
import Kroker.Questions.Host

/-!
# What a human is shown to owe

`FeatureWorkflow` and `GraphWorkflow` mix `GateHost` and `QuestionHost`, and the two share one
dictionary: the pending decisions, a gate's under the gate's key and a question's under its id.  An
item is entered when a gate opens and for each question of a batch.  A gate's item is taken out by
the signal that decides it and by the `finally` its wait ends in, and a question's by the signal
that answers it and where `ask_and_wait` returns.

The two kinds of key are not kept apart.  A signal takes out whatever item its key holds, so an
answer whose id is the key of a gate takes the gate off the list; and what `ask_and_wait` enters it
takes out only where it returns, not where its wait times out or is cancelled.

`HitlHost` is what the two mixins hold, its questions as in `QuestionHost`.  A gate may also raise
at its await: a cancelled wait ends in the `finally`, as does a failed notification, but the hook
that announces the gate runs before the `try`.  A decision is owed on a key as long as a gate is open under it and none is recorded, and an answer
to an id as long as some call waits for it and none is recorded (`Owed`).  The list should show
exactly that (`PendingExact`).
-/

namespace Kroker.Questions

/-! ## Items -/

/-- The reply a surface offers for an item, and so the signal it is sent by. -/
inductive ReplyKind where
  /-- `answer_question`. -/
  | text
  /-- `submit_gate_decision`. -/
  | gate
  deriving DecidableEq

@[simp] theorem ReplyKind.forall_iff {p : ReplyKind → Prop} :
    (∀ kind, p kind) ↔ p .text ∧ p .gate :=
  ⟨fun h => ⟨h .text, h .gate⟩, fun h kind => match kind with
    | .text => h.1
    | .gate => h.2⟩

inductive PendingDecision where
  | clarify (key question whyItMatters : String) (suggestedAnswer : Option String) (openedAt : ℤ)
  | stageGate (key gate : String) (round : ℕ) (openedAt : ℤ)
  | taskEscalation (key gate : String) (round : ℕ) (openedAt : ℤ)
  | mergeGate (key gate : String) (round : ℕ) (openedAt : ℤ)

namespace PendingDecision

def key : PendingDecision → String
  | .clarify key _ _ _ _ => key
  | .stageGate key _ _ _ => key
  | .taskEscalation key _ _ _ => key
  | .mergeGate key _ _ _ => key

def replyKind : PendingDecision → ReplyKind
  | .clarify _ _ _ _ _ => .text
  | _ => .gate

end PendingDecision

def clarifyPending (openQuestions : List OpenQuestion) (answeredIds : List String) (openedAt : ℤ) :
    List PendingDecision :=
  (openQuestions.filter (·.id ∉ answeredIds)).map fun q =>
    .clarify q.id q.question q.whyItMatters q.suggestedAnswer openedAt

def gatePending (name : String) (round : ℕ) (openedAt : ℤ) : PendingDecision :=
  if name = "merge" then .mergeGate (gateKey name round) name round openedAt
  else if "task:".toList.isPrefixOf name.toList then
    .taskEscalation (gateKey name round) name round openedAt
  else .stageGate (gateKey name round) name round openedAt

@[simp] theorem key_gatePending (name : String) (round : ℕ) (openedAt : ℤ) :
    (gatePending name round openedAt).key = gateKey name round := by
  unfold gatePending
  split_ifs <;> rfl

@[simp] theorem replyKind_gatePending (name : String) (round : ℕ) (openedAt : ℤ) :
    (gatePending name round openedAt).replyKind = .gate := by
  unfold gatePending
  split_ifs <;> rfl

/-! ## 1.  The host -/

/-- One call of `_gate`. -/
structure GateCall where
  request : GateRequest
  /-- Where it stands; `none` once it has raised. -/
  phase : Option Phase

def GateCall.isOpen (g : GateCall) : Bool := g.phase.any Phase.isOpen

structure HitlHost where
  questions : QuestionHost
  decisions : Dict GateDecision := ∅
  gates : List GateCall := []
  pending : Dict PendingDecision := ∅

inductive HitlEvent where
  | decision (d : GateDecision)
  | opened (q : GateRequest)
  /-- The await of a gate completes. -/
  | gateResumed (i : ℕ)
  /-- The await of a gate raises. -/
  | gateRaised (i : ℕ)
  | question (e : QuestionEvent)

namespace HitlHost

variable (h : HitlHost)

def pendingDecisions : List PendingDecision := h.pending.toList.map (·.2)

/-- `submit_gate_decision`: the first decision for a key wins. -/
def submitGateDecision (d : GateDecision) : HitlHost :=
  let key := gateKey d.gate d.round
  { h with
    decisions := if key ∈ h.decisions then h.decisions
      else h.decisions.insert key { d with decidedAt := some h.questions.now }
    pending := h.pending.erase key }

/-- The part of `_gate` before its first await. -/
def openGate (q : GateRequest) : HitlHost :=
  match q.immediate with
  | some r => { h with gates := h.gates ++ [⟨q, some (.deciding r)⟩] }
  | none => { h with
      gates := h.gates ++ [⟨q, some .announcing⟩]
      pending := h.pending.insert q.key (gatePending q.name q.round h.questions.now) }

/-- A gate moves to its next await; leaving the wait takes out its item. -/
def moveGate (i : ℕ) (g : GateCall) (phase : Phase) : HitlHost :=
  { h with
    gates := h.gates.set i ⟨g.request, some phase⟩
    pending := match phase with
      | .deciding _ => h.pending.erase g.request.key
      | _ => h.pending }

/-- A gate raises at an await; the `finally` is that of the wait and its notifications. -/
def raiseGate (i : ℕ) (g : GateCall) : Phase → Option HitlHost
  | .returned _ => none
  | .announcing | .deciding _ => some { h with gates := h.gates.set i ⟨g.request, none⟩ }
  | _ => some { h with
      gates := h.gates.set i ⟨g.request, none⟩
      pending := h.pending.erase g.request.key }

/-- The items after an event of the questions: an answer takes out what is pending under its id, a
batch enters its questions, and a call that returns takes them out. -/
def pendingAfter (questions : QuestionHost) : QuestionEvent → Dict PendingDecision
  | .answer id _ => h.pending.erase id
  | .ask openQuestions _ =>
    (clarifyPending openQuestions [] h.questions.now).foldl (fun d p => d.insert p.key p) h.pending
  | .resumed i =>
    match questions.asks[i]? with
    | some a =>
      match a.phase with
      | .returned _ => a.ids.foldl (fun d id => d.erase id) h.pending
      | _ => h.pending
    | none => h.pending
  | _ => h.pending

def next (h : HitlHost) : HitlEvent → Option HitlHost
  | .decision d => some (h.submitGateDecision d)
  | .opened q => some (h.openGate q)
  | .gateResumed i => h.gates[i]?.bind fun g => g.phase.bind fun p =>
    (p.resume g.request h.questions.now h.decisions[g.request.key]?).map (h.moveGate i g)
  | .gateRaised i => h.gates[i]?.bind fun g => g.phase.bind fun p => h.raiseGate i g p
  | .question e => (QuestionHost.next h.questions e).map fun questions =>
    { h with questions, pending := h.pendingAfter questions e }

/-- The runs of a host that starts at the time `t`. -/
abbrev HitlRun (t : ℤ) := Run { questions := { now := t } : HitlHost } next

end HitlHost

/-! ## What is owed -/

def OpenUnder (gates : List GateCall) (k : String) : Prop :=
  ∃ g ∈ gates, g.isOpen = true ∧ g.request.key = k

def WaitingFor (asks : List Ask) (id : String) : Prop :=
  ∃ a ∈ asks, a.phase.isWaiting = true ∧ id ∈ a.ids

instance (gates : List GateCall) (k : String) : Decidable (OpenUnder gates k) :=
  inferInstanceAs (Decidable (∃ g ∈ gates, g.isOpen = true ∧ g.request.key = k))

instance (asks : List Ask) (id : String) : Decidable (WaitingFor asks id) :=
  inferInstanceAs (Decidable (∃ a ∈ asks, a.phase.isWaiting = true ∧ id ∈ a.ids))

namespace HitlHost

/-- What a human owes a reply to: what is waited for and has none. -/
def Owed (h : HitlHost) : ReplyKind → String → Prop
  | .gate, k => OpenUnder h.gates k ∧ k ∉ h.decisions
  | .text, k => WaitingFor h.questions.asks k ∧ k ∉ h.questions.answers

instance (h : HitlHost) (kind : ReplyKind) (k : String) : Decidable (h.Owed kind k) :=
  match kind with
  | .gate => inferInstanceAs (Decidable (_ ∧ _))
  | .text => inferInstanceAs (Decidable (_ ∧ _))

def PendingExact (h : HitlHost) : Prop :=
  ∀ kind k, (∃ p ∈ h.pendingDecisions, p.replyKind = kind ∧ p.key = k) ↔ h.Owed kind k

end HitlHost

/-- Whether a gate leaves its wait when its await completes: a decision is recorded, or the last
deadline has been notified and it does not hold. -/
def leavesWait (recorded : Bool) : Phase → Bool
  | .waiting _ _ _ _ => recorded
  | .holding => recorded
  | .notifying _ rest expires => rest.isEmpty && expires.isSome
  | _ => false

namespace HitlHost

/-- Gate `i` may leave its wait and take out its item: no answer is owed under the key, and no
decision that another gate waits for. -/
def MayLeave (h : HitlHost) (i : ℕ) (k : String) : Prop :=
  ¬h.Owed .text k ∧ (k ∈ h.decisions ∨ ¬OpenUnder (h.gates.eraseIdx i) k)

/-- Gate `i` may raise at its await: the item of a gate that raises before the `try` stays. -/
def MayRaise (h : HitlHost) (i : ℕ) (k : String) : Phase → Prop
  | .announcing => k ∈ h.decisions ∨ OpenUnder (h.gates.eraseIdx i) k
  | .deciding _ => True
  | .returned _ => True
  | _ => h.MayLeave i k

/-- Call `i` may end and leave the items of its questions. -/
def MayLeaveItems (h : HitlHost) (i : ℕ) (a : Ask) : Prop :=
  ∀ id ∈ a.ids, id ∈ h.questions.answers ∨ WaitingFor (h.questions.asks.eraseIdx i) id

/-- Call `i` may end where its wait completes: what it takes out where it returns is no gate's. -/
def MayEnd (h : HitlHost) (i : ℕ) (a : Ask) : Prop :=
  if 0 < a.timeoutHours ∧ a.answered h.questions.answers = true then ∀ id ∈ a.ids, ¬h.Owed .gate id
  else h.MayLeaveItems i a

/-- What an event must find for the list to stay exact. -/
def Keeps (h : HitlHost) : HitlEvent → Prop
  | .decision d => ¬h.Owed .text (gateKey d.gate d.round)
  | .opened q => q.immediate = none → q.key ∉ h.decisions ∧ ¬h.Owed .text q.key
  | .gateResumed i => ∀ g ∈ h.gates[i]?, ∀ p ∈ g.phase,
    leavesWait (h.decisions[g.request.key]?).isSome p = true → h.MayLeave i g.request.key
  | .gateRaised i => ∀ g ∈ h.gates[i]?, ∀ p ∈ g.phase, h.MayRaise i g.request.key p
  | .question (.answer id _) => ¬h.Owed .gate id
  | .question (.tick _) => True
  | .question (.ask openQuestions _) => ∀ id ∈ openQuestions.map (·.id),
    id ∉ h.questions.answers ∧ ¬h.Owed .gate id
  | .question (.resumed i) => ∀ a ∈ h.questions.asks[i]?, h.MayEnd i a
  | .question (.cancelled i) => ∀ a ∈ h.questions.asks[i]?, h.MayLeaveItems i a

instance (h : HitlHost) (i : ℕ) (k : String) : Decidable (h.MayLeave i k) :=
  inferInstanceAs (Decidable (_ ∧ _))

instance (h : HitlHost) (i : ℕ) (k : String) (p : Phase) : Decidable (h.MayRaise i k p) :=
  match p with
  | .announcing => inferInstanceAs (Decidable (_ ∨ _))
  | .waiting _ _ _ _ => inferInstanceAs (Decidable (h.MayLeave i k))
  | .notifying _ _ _ => inferInstanceAs (Decidable (h.MayLeave i k))
  | .holding => inferInstanceAs (Decidable (h.MayLeave i k))
  | .deciding _ => inferInstanceAs (Decidable True)
  | .returned _ => inferInstanceAs (Decidable True)

instance (h : HitlHost) (i : ℕ) (a : Ask) : Decidable (h.MayLeaveItems i a) :=
  inferInstanceAs (Decidable (∀ id ∈ a.ids, _))

instance (h : HitlHost) (i : ℕ) (a : Ask) : Decidable (h.MayEnd i a) :=
  inferInstanceAs (Decidable (if 0 < a.timeoutHours ∧ a.answered h.questions.answers = true then
    ∀ id ∈ a.ids, ¬h.Owed .gate id else h.MayLeaveItems i a))

instance (h : HitlHost) (e : HitlEvent) : Decidable (h.Keeps e) :=
  match e with
  | .decision _ => inferInstanceAs (Decidable (¬_))
  | .opened _ => inferInstanceAs (Decidable (_ → _))
  | .gateResumed _ => inferInstanceAs (Decidable (∀ _ ∈ _, ∀ _ ∈ _, _ → _))
  | .gateRaised _ => inferInstanceAs (Decidable (∀ _ ∈ _, ∀ _ ∈ _, HitlHost.MayRaise _ _ _ _))
  | .question (.answer _ _) => inferInstanceAs (Decidable (¬_))
  | .question (.tick _) => inferInstanceAs (Decidable True)
  | .question (.ask _ _) => inferInstanceAs (Decidable (∀ _ ∈ _, _ ∧ _))
  | .question (.resumed _) => inferInstanceAs (Decidable (∀ _ ∈ _, HitlHost.MayEnd _ _ _))
  | .question (.cancelled _) => inferInstanceAs (Decidable (∀ _ ∈ _, HitlHost.MayLeaveItems _ _ _))

/-! ## The list under one key -/

end HitlHost

def shown (pending : Dict PendingDecision) (k : String) : Option ReplyKind :=
  (pending[k]?).map (·.replyKind)

/-- Each item is kept under its own key. -/
def Keyed (pending : Dict PendingDecision) : Prop :=
  ∀ (k : String) p, pending[k]? = some p → p.key = k

theorem shown_insert (d : Dict PendingDecision) (key k : String) (p : PendingDecision) :
    shown (d.insert key p) k = if key = k then some p.replyKind else shown d k := by
  unfold shown
  rw [Dict.get?_insert]
  split <;> rfl

theorem shown_erase (d : Dict PendingDecision) (key k : String) :
    shown (d.erase key) k = if key = k then none else shown d k := by
  unfold shown
  rw [Dict.get?_erase]
  split <;> rfl

theorem shown_insertAll {kind : ReplyKind} {items : List PendingDecision}
    (hkind : ∀ p ∈ items, p.replyKind = kind) (d : Dict PendingDecision) (k : String) :
    shown (items.foldl (fun d p => d.insert p.key p) d) k =
      if k ∈ items.map (·.key) then some kind else shown d k := by
  induction items generalizing d with
  | nil => rfl
  | cons p items ih =>
    obtain ⟨hp, hitems⟩ := List.forall_mem_cons.mp hkind
    rw [List.foldl_cons, ih hitems, shown_insert, hp]
    rw [List.map_cons]
    by_cases hk : k ∈ items.map (·.key)
    · rw [if_pos hk, if_pos (List.mem_cons_of_mem _ hk)]
    · by_cases hkey : p.key = k
      · rw [if_neg hk, if_pos hkey, if_pos (List.mem_cons.mpr (Or.inl hkey.symm))]
      · rw [if_neg hk, if_neg hkey, if_neg]
        exact List.not_mem_cons_of_ne_of_not_mem (Ne.symm hkey) hk

@[simp] theorem map_key_clarifyPending (openQuestions : List OpenQuestion) (openedAt : ℤ) :
    (clarifyPending openQuestions [] openedAt).map (·.key) = openQuestions.map (·.id) := by
  unfold clarifyPending
  simp [Function.comp_def, PendingDecision.key]

theorem replyKind_clarifyPending {openQuestions : List OpenQuestion} {ids : List String}
    {openedAt : ℤ} : ∀ p ∈ clarifyPending openQuestions ids openedAt, p.replyKind = .text := by
  intro p hp
  obtain ⟨q, -, rfl⟩ := List.mem_map.mp hp
  rfl

theorem shown_eraseAll (ids : List String) (d : Dict PendingDecision) (k : String) :
    shown (ids.foldl (fun d id => d.erase id) d) k = if k ∈ ids then none else shown d k := by
  induction ids generalizing d with
  | nil => rfl
  | cons id ids ih =>
    rw [List.foldl_cons, ih, shown_erase]
    by_cases hk : k ∈ ids
    · simp [hk]
    · by_cases hid : id = k
      · simp [hid]
      · simp [hk, hid, Ne.symm hid]

/-! ## What each event does to what is owed -/

theorem mem_setdefault {β : Type} (d : Dict β) (key : String) (v : β) (k : String) :
    k ∈ (if key ∈ d then d else d.insert key v) ↔ key = k ∨ k ∈ d := by
  split
  · rename_i hrecorded
    exact ⟨Or.inr, fun hk => hk.elim (fun heq => heq ▸ hrecorded) id⟩
  · exact Dict.mem_insert _ _ _ _

section

variable {gates : List GateCall} {i : ℕ} {g : GateCall}

theorem openUnder_iff (hg : gates[i]? = some g) (k : String) : OpenUnder gates k ↔
    (g.isOpen = true ∧ g.request.key = k) ∨ OpenUnder (gates.eraseIdx i) k :=
  exists_mem_iff hg _

theorem openUnder_set (hg : gates[i]? = some g) (g' : GateCall) (k : String) :
    OpenUnder (gates.set i g') k ↔
      (g'.isOpen = true ∧ g'.request.key = k) ∨ OpenUnder (gates.eraseIdx i) k :=
  exists_mem_set_iff hg g' _

theorem openUnder_append (new : GateCall) (k : String) : OpenUnder (gates ++ [new]) k ↔
    OpenUnder gates k ∨ new.isOpen = true ∧ new.request.key = k := by
  unfold OpenUnder
  simp [or_and_right, exists_or]

end

section

variable {asks : List Ask} {i : ℕ} {a : Ask}

theorem waitingFor_iff (ha : asks[i]? = some a) (id : String) : WaitingFor asks id ↔
    (a.phase.isWaiting = true ∧ id ∈ a.ids) ∨ WaitingFor (asks.eraseIdx i) id :=
  exists_mem_iff ha _

theorem waitingFor_set (ha : asks[i]? = some a) (a' : Ask) (id : String) :
    WaitingFor (asks.set i a') id ↔
      (a'.phase.isWaiting = true ∧ id ∈ a'.ids) ∨ WaitingFor (asks.eraseIdx i) id :=
  exists_mem_set_iff ha a' _

theorem waitingFor_append (new : Ask) (id : String) : WaitingFor (asks ++ [new]) id ↔
    WaitingFor asks id ∨ new.phase.isWaiting = true ∧ id ∈ new.ids := by
  unfold WaitingFor
  simp [or_and_right, exists_or]

end

namespace HitlHost

variable {h : HitlHost}

/-- **A decision keeps the list exact exactly when** no answer is owed under its key. -/
theorem exact_submitGateDecision (hexact : Exact (shown h.pending) h.Owed) (d : GateDecision) :
    Exact (shown (h.submitGateDecision d).pending) (h.submitGateDecision d).Owed ↔
      ¬h.Owed .text (gateKey d.gate d.round) := by
  have hmem : ∀ k, k ∈ (h.submitGateDecision d).decisions ↔
      gateKey d.gate d.round = k ∨ k ∈ h.decisions :=
    mem_setdefault h.decisions _ _
  have hshown : ∀ k, shown (h.submitGateDecision d).pending k =
      if gateKey d.gate d.round = k then none else shown h.pending k :=
    shown_erase h.pending _
  rw [hexact.erase_iff (gateKey d.gate d.round = ·)]
  · simp only [forall_eq', ReplyKind.forall_iff]
    refine and_iff_left fun howed => ?_
    exact howed.2 ((hmem _).mpr (Or.inl rfl))
  · exact fun k hk => by rw [hshown, if_neg hk]
  · intro k hk
    refine ReplyKind.forall_iff.mpr ⟨Iff.rfl, ?_⟩
    refine and_congr_right fun _ => not_congr ?_
    rw [hmem]
    exact or_iff_right hk
  · exact fun k hk => by rw [hshown, if_pos hk]

/-- **An answer keeps the list exact exactly when** no decision is owed under its id. -/
theorem exact_answer (hexact : Exact (shown h.pending) h.Owed) (id text : String) :
    Exact (shown (h.pending.erase id))
        { h with questions := h.questions.answerQuestion id text
                 pending := h.pending.erase id : HitlHost }.Owed ↔ ¬h.Owed .gate id := by
  have hmem : ∀ k, k ∈ (h.questions.answerQuestion id text).answers ↔
      id = k ∨ k ∈ h.questions.answers :=
    mem_setdefault h.questions.answers _ _
  rw [hexact.erase_iff (id = ·)]
  · simp only [forall_eq', ReplyKind.forall_iff]
    refine and_iff_right fun howed => ?_
    exact howed.2 ((hmem _).mpr (Or.inl rfl))
  · exact fun k hk => by rw [shown_erase, if_neg hk]
  · intro k hk
    refine ReplyKind.forall_iff.mpr ⟨?_, Iff.rfl⟩
    refine and_congr_right fun _ => not_congr ?_
    rw [hmem]
    exact or_iff_right hk
  · exact fun k hk => by rw [shown_erase, if_pos hk]

/-- **An opening keeps the list exact exactly when** it waits for nobody, or no decision is recorded
under its key and no answer owed. -/
theorem exact_openGate (hexact : Exact (shown h.pending) h.Owed) (q : GateRequest) :
    Exact (shown (h.openGate q).pending) (h.openGate q).Owed ↔
      (q.immediate = none → q.key ∉ h.decisions ∧ ¬h.Owed .text q.key) := by
  unfold openGate
  cases hq : q.immediate with
  | some r =>
    refine iff_of_true ?_ nofun
    rw [hexact.keep_iff fun k => rfl]
    refine fun k => ReplyKind.forall_iff.mpr ⟨Iff.rfl, and_congr_left fun _ => ?_⟩
    rw [openUnder_append]
    exact or_iff_left fun hopen => Bool.false_ne_true hopen.1
  | none =>
    rw [hexact.enter_iff (q.key = ·) (t := .gate)]
    · simp only [forall_eq', ReplyKind.forall_iff, true_implies, ne_eq, not_true, reduceCtorEq,
        not_false_eq_true, false_implies, and_true]
      refine and_congr_left fun _ => and_iff_right ?_
      exact (openUnder_append _ _).mpr (Or.inr ⟨rfl, rfl⟩)
    · exact fun k hk => by rw [shown_insert, if_neg hk]
    · refine fun k hk => ReplyKind.forall_iff.mpr ⟨Iff.rfl, and_congr_left fun _ => ?_⟩
      rw [openUnder_append]
      exact or_iff_left fun hopen => hk hopen.2
    · exact fun k hk => by rw [shown_insert, if_pos hk, replyKind_gatePending]

section

variable {i : ℕ} {g : GateCall} (hg : h.gates[i]? = some g)

include hg

/-- **A gate that leaves its wait keeps the list exact exactly when** what it takes out is owed to
nobody else. -/
theorem exact_leave (hexact : Exact (shown h.pending) h.Owed) {phase : Option Phase}
    (hclosed : phase.any Phase.isOpen = false) :
    Exact (shown (h.pending.erase g.request.key))
        { h with gates := h.gates.set i ⟨g.request, phase⟩
                 pending := h.pending.erase g.request.key : HitlHost }.Owed ↔
      h.MayLeave i g.request.key := by
  have hothers : ∀ k, OpenUnder (h.gates.set i ⟨g.request, phase⟩) k ↔
      OpenUnder (h.gates.eraseIdx i) k := by
    intro k
    rw [openUnder_set hg]
    exact or_iff_right fun hopen => Bool.false_ne_true (hclosed.symm.trans hopen.1)
  rw [hexact.erase_iff (g.request.key = ·)]
  · simp only [forall_eq', ReplyKind.forall_iff]
    refine and_congr_right fun _ => ?_
    show ¬(OpenUnder (h.gates.set i ⟨g.request, phase⟩) _ ∧ g.request.key ∉ h.decisions) ↔ _
    rw [hothers, not_and_or, not_not]
    exact or_comm
  · exact fun k hk => by rw [shown_erase, if_neg hk]
  · refine fun k hk => ReplyKind.forall_iff.mpr ⟨Iff.rfl, and_congr_left fun _ => ?_⟩
    rw [hothers, openUnder_iff hg]
    exact (or_iff_right fun hopen => hk hopen.2).symm
  · exact fun k hk => by rw [shown_erase, if_pos hk]

theorem exact_stay (hexact : Exact (shown h.pending) h.Owed) {phase : Option Phase}
    (hsame : phase.any Phase.isOpen = g.isOpen) :
    Exact (shown h.pending) { h with gates := h.gates.set i ⟨g.request, phase⟩ : HitlHost }.Owed := by
  rw [hexact.keep_iff fun k => rfl]
  refine fun k => ReplyKind.forall_iff.mpr ⟨Iff.rfl, and_congr_left fun _ => ?_⟩
  rw [openUnder_set hg, openUnder_iff hg]
  show (phase.any Phase.isOpen = true ∧ _) ∨ _ ↔ _
  rw [hsame]

/-- **A gate that raises before its wait keeps the list exact exactly when** its item is owed all
the same, or was not owed. -/
theorem exact_abandon (hexact : Exact (shown h.pending) h.Owed) (hopen : g.isOpen = true) :
    Exact (shown h.pending) { h with gates := h.gates.set i ⟨g.request, none⟩ : HitlHost }.Owed ↔
      (g.request.key ∈ h.decisions ∨ OpenUnder (h.gates.eraseIdx i) g.request.key) := by
  have hothers : ∀ k, OpenUnder (h.gates.set i ⟨g.request, none⟩) k ↔
      OpenUnder (h.gates.eraseIdx i) k := by
    intro k
    rw [openUnder_set hg]
    exact or_iff_right fun hopen => Bool.false_ne_true hopen.1
  rw [hexact.keep_iff fun k => rfl]
  constructor
  · intro hkept
    by_cases hrecorded : g.request.key ∈ h.decisions
    · exact Or.inl hrecorded
    · have howed : h.Owed .gate g.request.key :=
        ⟨(openUnder_iff hg _).mpr (Or.inl ⟨hopen, rfl⟩), hrecorded⟩
      exact Or.inr ((hothers _).mp ((hkept _ .gate).mpr howed).1)
  · intro hmay k
    refine ReplyKind.forall_iff.mpr ⟨Iff.rfl, and_congr_left fun hk => ?_⟩
    rw [hothers, openUnder_iff hg]
    refine ⟨Or.inr, ?_⟩
    rintro (⟨-, rfl⟩ | hother)
    · exact hmay.resolve_left hk
    · exact hother

end

/-- **A batch keeps the list exact exactly when** none of its ids has an answer, and no decision is
owed under one. -/
theorem exact_ask (hexact : Exact (shown h.pending) h.Owed) (openQuestions : List OpenQuestion)
    (timeoutHours : ℤ) :
    Exact (shown ((clarifyPending openQuestions [] h.questions.now).foldl
          (fun d p => d.insert p.key p) h.pending))
        { h with questions := h.questions.askAndWait openQuestions timeoutHours : HitlHost }.Owed ↔
      ∀ id ∈ openQuestions.map (·.id), id ∉ h.questions.answers ∧ ¬h.Owed .gate id := by
  have hanswers : (h.questions.askAndWait openQuestions timeoutHours).answers =
      h.questions.answers := by
    unfold QuestionHost.askAndWait
    split <;> rfl
  have hasks : ∀ id, WaitingFor (h.questions.askAndWait openQuestions timeoutHours).asks id ↔
      WaitingFor h.questions.asks id ∨ id ∈ openQuestions.map (·.id) := by
    intro id
    unfold QuestionHost.askAndWait
    split
    · rename_i hempty
      rw [waitingFor_append, hempty]
      simp [AskPhase.isWaiting]
    · rw [waitingFor_append]
      exact or_congr_right (and_iff_right rfl)
  have hshown : ∀ k, shown ((clarifyPending openQuestions [] h.questions.now).foldl
      (fun d p => d.insert p.key p) h.pending) k =
        if k ∈ openQuestions.map (·.id) then some .text else shown h.pending k := by
    intro k
    rw [shown_insertAll replyKind_clarifyPending, map_key_clarifyPending]
  rw [hexact.enter_iff (· ∈ openQuestions.map (·.id)) (t := .text)]
  · refine forall₂_congr fun k hk => ?_
    simp only [ReplyKind.forall_iff, ne_eq, not_true, reduceCtorEq, not_false_eq_true, false_implies,
      true_implies, true_and]
    refine and_congr_left fun _ => ?_
    show WaitingFor _ k ∧ k ∉ (h.questions.askAndWait openQuestions timeoutHours).answers ↔ _
    rw [hanswers]
    exact and_iff_right ((hasks k).mpr (Or.inr hk))
  · exact fun k hk => by rw [hshown, if_neg hk]
  · refine fun k hk => ReplyKind.forall_iff.mpr ⟨?_, Iff.rfl⟩
    show WaitingFor _ k ∧ k ∉ (h.questions.askAndWait openQuestions timeoutHours).answers ↔ _
    rw [hanswers]
    refine and_congr_left fun _ => ?_
    rw [hasks]
    exact or_iff_left hk
  · exact fun k hk => by rw [hshown, if_pos hk]

section

variable {i : ℕ} {a : Ask} (ha : h.questions.asks[i]? = some a)

include ha

theorem waitingFor_moveTo {phase : AskPhase} (hended : phase.isWaiting = false) (id : String) :
    WaitingFor (h.questions.moveTo i a phase).asks id ↔
      WaitingFor (h.questions.asks.eraseIdx i) id := by
  show WaitingFor (h.questions.asks.set i _) id ↔ _
  rw [waitingFor_set ha]
  exact or_iff_right fun hwaits => Bool.false_ne_true (hended.symm.trans hwaits.1)

/-- **A call that returns keeps the list exact exactly when** no decision is owed under one of its
ids. -/
theorem exact_returned (hexact : Exact (shown h.pending) h.Owed)
    (hanswered : a.answered h.questions.answers = true) (answers : Dict String) :
    Exact (shown (a.ids.foldl (fun d id => d.erase id) h.pending))
        { h with questions := h.questions.moveTo i a (.returned answers) : HitlHost }.Owed ↔
      ∀ id ∈ a.ids, ¬h.Owed .gate id := by
  have hmem : ∀ id ∈ a.ids, id ∈ h.questions.answers := by
    intro id hid
    exact of_decide_eq_true (List.all_eq_true.mp hanswered id hid)
  rw [hexact.erase_iff (· ∈ a.ids)]
  · refine forall₂_congr fun k hk => ?_
    rw [ReplyKind.forall_iff]
    exact and_iff_right fun howed => howed.2 (hmem k hk)
  · exact fun k hk => by rw [shown_eraseAll, if_neg hk]
  · refine fun k hk => ReplyKind.forall_iff.mpr ⟨and_congr_left fun _ => ?_, Iff.rfl⟩
    rw [waitingFor_moveTo ha rfl, waitingFor_iff ha]
    exact (or_iff_right fun hwaits => hk hwaits.2).symm
  · exact fun k hk => by rw [shown_eraseAll, if_pos hk]

/-- **A call that ends and leaves its items keeps the list exact exactly when** each of its
questions is answered or asked by another call. -/
theorem exact_leaveItems (hexact : Exact (shown h.pending) h.Owed)
    (hwaiting : a.phase.isWaiting = true) {phase : AskPhase} (hended : phase.isWaiting = false) :
    Exact (shown h.pending) { h with questions := h.questions.moveTo i a phase : HitlHost }.Owed ↔
      h.MayLeaveItems i a := by
  have howed : ∀ k, h.Owed .text k ↔
      ((a.phase.isWaiting = true ∧ k ∈ a.ids) ∨ WaitingFor (h.questions.asks.eraseIdx i) k) ∧
        k ∉ h.questions.answers :=
    fun k => and_congr_left fun _ => waitingFor_iff ha k
  rw [hexact.keep_iff fun k => rfl]
  constructor
  · intro hkept id hid
    by_cases hanswer : id ∈ h.questions.answers
    · exact Or.inl hanswer
    · have hstill := (hkept id .text).mpr ((howed id).mpr ⟨Or.inl ⟨hwaiting, hid⟩, hanswer⟩)
      exact Or.inr ((waitingFor_moveTo ha hended id).mp hstill.1)
  · intro hmay k
    refine ReplyKind.forall_iff.mpr ⟨?_, Iff.rfl⟩
    rw [howed]
    refine and_congr_left fun hanswer => ?_
    rw [waitingFor_moveTo ha hended]
    refine ⟨Or.inr, ?_⟩
    rintro (⟨-, hid⟩ | hother)
    · exact (hmay k hid).resolve_left hanswer
    · exact hother

end

end HitlHost

theorem isOpen_proceed_cons (now : ℤ) (expires : Option ℤ) (e : ℤ × NotifyReason) (rest : Schedule) :
    (proceed now expires (e :: rest)).isOpen = true := by
  obtain ⟨due, reason⟩ := e
  rw [proceed]
  split <;> rfl

/-- **Where a gate leaves its wait**: a gate that moves comes to report a decision exactly where
`leavesWait` says, and else it is open as before. -/
theorem leavesWait_of_resume {q : GateRequest} {now : ℤ} {recorded : Option GateDecision}
    {p p' : Phase} (hr : p.resume q now recorded = some p') :
    (leavesWait recorded.isSome p = true ∧ ∃ r, p' = .deciding r) ∨
      (leavesWait recorded.isSome p = false ∧ p'.isOpen = p.isOpen ∧ ∀ r, p' ≠ .deciding r) := by
  have hopen : ∀ {p' : Phase}, p'.isOpen = true → ∀ r, p' ≠ .deciding r := by
    rintro p' hp' r rfl
    cases hp'
  cases p with
  | announcing =>
    obtain rfl := Option.some.inj hr
    obtain ⟨rest, hrest⟩ := buildSchedule_eq_cons q.config q.settings.gateTimeoutHours now
    rw [hrest]
    have hproceed := isOpen_proceed_cons now
      (buildSchedule q.config q.settings.gateTimeoutHours now).2 (now, .opened) rest
    exact Or.inr ⟨rfl, hproceed, hopen hproceed⟩
  | waiting due reason rest expires =>
    cases recorded with
    | some d =>
      obtain rfl := Option.some.inj hr
      exact Or.inl ⟨rfl, _, rfl⟩
    | none =>
      simp only [Phase.resume] at hr
      split at hr
      · obtain rfl := Option.some.inj hr
        exact Or.inr ⟨rfl, rfl, hopen rfl⟩
      · cases hr
  | notifying reason rest expires =>
    obtain rfl := Option.some.inj hr
    cases rest with
    | nil =>
      cases expires with
      | none => exact Or.inr ⟨rfl, rfl, hopen rfl⟩
      | some deadline => exact Or.inl ⟨rfl, _, rfl⟩
    | cons e rest =>
      have hproceed := isOpen_proceed_cons now expires e rest
      exact Or.inr ⟨rfl, hproceed, hopen hproceed⟩
  | holding =>
    obtain ⟨d, rfl, rfl⟩ := Option.map_eq_some_iff.mp hr
    exact Or.inl ⟨rfl, _, rfl⟩
  | deciding r =>
    obtain rfl := Option.some.inj hr
    exact Or.inr ⟨rfl, rfl, fun _ h => Phase.noConfusion h⟩
  | returned r => cases hr

namespace HitlHost

variable {h h' : HitlHost}

section

variable (hexact : Exact (shown h.pending) h.Owed)

include hexact

theorem exact_gateResumed {i : ℕ}
    (hstep : next h (.gateResumed i) = some h') :
    Exact (shown h'.pending) h'.Owed ↔ h.Keeps (.gateResumed i) := by
  obtain ⟨g, hg, hstep⟩ := Option.bind_eq_some_iff.mp hstep
  obtain ⟨p, hp, hstep⟩ := Option.bind_eq_some_iff.mp hstep
  obtain ⟨p', hp', rfl⟩ := Option.map_eq_some_iff.mp hstep
  have hkeeps : h.Keeps (.gateResumed i) ↔
      (leavesWait (h.decisions[g.request.key]?).isSome p = true → h.MayLeave i g.request.key) := by
    simp [Keeps, hg, hp]
  rw [hkeeps]
  rcases leavesWait_of_resume hp' with ⟨hleaves, r, rfl⟩ | ⟨hstays, hopen, hne⟩
  · rw [forall_prop_of_true hleaves]
    have hclosed : (some (Phase.deciding r)).any Phase.isOpen = false := rfl
    exact exact_leave hg hexact hclosed
  · rw [hstays]
    refine iff_of_true ?_ nofun
    have hpending : (h.moveGate i g p').pending = h.pending := by
      cases p' with
      | deciding r => exact absurd rfl (hne r)
      | _ => rfl
    rw [hpending]
    have hsame : (some p').any Phase.isOpen = g.isOpen := by
      rw [GateCall.isOpen, hp]
      exact hopen
    exact exact_stay hg hexact hsame

theorem exact_gateRaised {i : ℕ}
    (hstep : next h (.gateRaised i) = some h') :
    Exact (shown h'.pending) h'.Owed ↔ h.Keeps (.gateRaised i) := by
  obtain ⟨g, hg, hstep⟩ := Option.bind_eq_some_iff.mp hstep
  obtain ⟨p, hp, hstep⟩ := Option.bind_eq_some_iff.mp hstep
  have hkeeps : h.Keeps (.gateRaised i) ↔ h.MayRaise i g.request.key p := by
    simp [Keeps, hg, hp]
  have hopen : g.isOpen = p.isOpen := by
    rw [GateCall.isOpen, hp]
    rfl
  rw [hkeeps]
  cases p with
  | announcing =>
    obtain rfl := Option.some.inj hstep
    exact exact_abandon hg hexact hopen
  | waiting due reason rest expires =>
    obtain rfl := Option.some.inj hstep
    exact exact_leave hg hexact rfl
  | notifying reason rest expires =>
    obtain rfl := Option.some.inj hstep
    exact exact_leave hg hexact rfl
  | holding =>
    obtain rfl := Option.some.inj hstep
    exact exact_leave hg hexact rfl
  | deciding r =>
    obtain rfl := Option.some.inj hstep
    exact iff_of_true (exact_stay hg hexact hopen.symm) trivial
  | returned r => cases hstep

theorem exact_question {e : QuestionEvent}
    (hstep : next h (.question e) = some h') :
    Exact (shown h'.pending) h'.Owed ↔ h.Keeps (.question e) := by
  obtain ⟨questions, hquestions, rfl⟩ := Option.map_eq_some_iff.mp hstep
  cases e with
  | answer id text =>
    obtain rfl := Option.some.inj hquestions
    exact exact_answer hexact id text
  | tick elapsed =>
    obtain rfl := Option.some.inj hquestions
    exact iff_of_true hexact trivial
  | ask openQuestions timeoutHours =>
    obtain rfl := Option.some.inj hquestions
    exact exact_ask hexact openQuestions timeoutHours
  | resumed i =>
    obtain ⟨a, ha, hnext⟩ := Option.bind_eq_some_iff.mp hquestions
    obtain ⟨phase, hphase, rfl⟩ := Option.map_eq_some_iff.mp hnext
    have hkeeps : h.Keeps (.question (.resumed i)) ↔ h.MayEnd i a := by
      simp [Keeps, ha]
    have hmoved : (h.questions.moveTo i a phase).asks[i]? = some { a with phase } := by
      show (h.questions.asks.set i _)[i]? = _
      rw [List.getElem?_set_self (List.getElem?_eq_some_iff.mp ha).1]
    rw [hkeeps, MayEnd]
    unfold Ask.resume at hphase
    split at hphase
    · rename_i deadline hwaiting
      split at hphase
      · rename_i hready
        obtain rfl := Option.some.inj hphase
        rw [if_pos hready]
        have hpending : h.pendingAfter (h.questions.moveTo i a
            (.returned (Ask.collect h.questions.answers a.questions ∅))) (.resumed i) =
              a.ids.foldl (fun d id => d.erase id) h.pending := by
          unfold pendingAfter
          simp only [hmoved]
          rfl
        rw [hpending]
        exact exact_returned ha hexact hready.2 _
      · rename_i hready
        split at hphase
        · obtain rfl := Option.some.inj hphase
          rw [if_neg hready]
          have hpending : h.pendingAfter (h.questions.moveTo i a .timedOut) (.resumed i) =
              h.pending := by
            unfold pendingAfter
            simp only [hmoved]
          rw [hpending]
          refine exact_leaveItems ha hexact ?_ rfl
          rw [hwaiting]
          rfl
        · cases hphase
    · cases hphase
  | cancelled i =>
    obtain ⟨a, ha, hnext⟩ := Option.bind_eq_some_iff.mp hquestions
    have hkeeps : h.Keeps (.question (.cancelled i)) ↔ h.MayLeaveItems i a := by
      simp [Keeps, ha]
    rw [hkeeps]
    split at hnext
    · rename_i hwaiting
      obtain rfl := Option.some.inj hnext
      exact exact_leaveItems ha hexact hwaiting rfl
    · cases hnext

/-- **What an event keeps**: a list that is exact stays so exactly when the event meets its
condition. -/
theorem exact_next {e : HitlEvent}
    (hstep : next h e = some h') : Exact (shown h'.pending) h'.Owed ↔ h.Keeps e := by
  cases e with
  | decision d =>
    obtain rfl := Option.some.inj hstep
    exact exact_submitGateDecision hexact d
  | opened q =>
    obtain rfl := Option.some.inj hstep
    exact exact_openGate hexact q
  | gateResumed i => exact exact_gateResumed hexact hstep
  | gateRaised i => exact exact_gateRaised hexact hstep
  | question e => exact exact_question hexact hstep

end

/-! ## 2.  The list along a run -/

theorem keyed_erase {d : Dict PendingDecision} (hd : Keyed d) (key : String) :
    Keyed (d.erase key) := by
  intro k p hp
  rw [Dict.get?_erase] at hp
  split at hp
  · cases hp
  · exact hd k p hp

theorem keyed_insert {d : Dict PendingDecision} (hd : Keyed d) (p : PendingDecision) :
    Keyed (d.insert p.key p) := by
  intro k q hq
  rw [Dict.get?_insert] at hq
  split at hq
  · rename_i hkey
    obtain rfl := Option.some.inj hq
    exact hkey
  · exact hd k q hq

/-- Items are kept under their own keys. -/
theorem keyed_of_reachable {t : ℤ}
    (hreachable : Reachable { questions := { now := t } : HitlHost } next h) : Keyed h.pending := by
  refine Reachable.induct (P := fun h => Keyed h.pending) ?_ ?_ hreachable
  · intro k p hp
    rw [Dict.get?_empty] at hp
    cases hp
  · intro h e h' _ hkeyed hstep
    cases e with
    | decision d =>
      obtain rfl := Option.some.inj hstep
      exact keyed_erase hkeyed _
    | opened q =>
      obtain rfl := Option.some.inj hstep
      unfold openGate
      split
      · exact hkeyed
      · have hentered := keyed_insert hkeyed (gatePending q.name q.round h.questions.now)
        rwa [key_gatePending] at hentered
    | gateResumed i =>
      obtain ⟨g, -, hstep⟩ := Option.bind_eq_some_iff.mp hstep
      obtain ⟨p, -, hstep⟩ := Option.bind_eq_some_iff.mp hstep
      obtain ⟨p', -, rfl⟩ := Option.map_eq_some_iff.mp hstep
      cases p' with
      | deciding r => exact keyed_erase hkeyed _
      | _ => exact hkeyed
    | gateRaised i =>
      obtain ⟨g, -, hstep⟩ := Option.bind_eq_some_iff.mp hstep
      obtain ⟨p, -, hstep⟩ := Option.bind_eq_some_iff.mp hstep
      cases p with
      | announcing =>
        obtain rfl := Option.some.inj hstep
        exact hkeyed
      | deciding r =>
        obtain rfl := Option.some.inj hstep
        exact hkeyed
      | returned r => cases hstep
      | _ =>
        obtain rfl := Option.some.inj hstep
        exact keyed_erase hkeyed _
    | question e =>
      obtain ⟨questions, -, rfl⟩ := Option.map_eq_some_iff.mp hstep
      show Keyed (h.pendingAfter questions e)
      unfold pendingAfter
      split
      · exact keyed_erase hkeyed _
      · refine List.foldlRecOn _ _ hkeyed fun d hd p _ => keyed_insert hd p
      · split
        · split
          · exact List.foldlRecOn _ _ hkeyed fun d hd id _ => keyed_erase hd id
          · exact hkeyed
        · exact hkeyed
      · exact hkeyed

theorem pendingExact_iff_exact (hkeyed : Keyed h.pending) :
    h.PendingExact ↔ Exact (shown h.pending) h.Owed := by
  have hitem : ∀ kind k, (∃ p ∈ h.pendingDecisions, p.replyKind = kind ∧ p.key = k) ↔
      shown h.pending k = some kind := by
    intro kind k
    unfold pendingDecisions shown
    rw [Option.map_eq_some_iff]
    constructor
    · rintro ⟨p, hp, hkind, hkey⟩
      obtain ⟨⟨l, q⟩, hlq, rfl⟩ := List.mem_map.mp hp
      have hl := Std.ExtTreeMap.mem_toList_iff_getElem?_eq_some.mp hlq
      obtain rfl : l = k := (hkeyed l q hl).symm.trans hkey
      exact ⟨q, hl, hkind⟩
    · rintro ⟨p, hp, hkind⟩
      have hmem := Std.ExtTreeMap.mem_toList_iff_getElem?_eq_some.mpr hp
      exact ⟨p, List.mem_map.mpr ⟨(k, p), hmem, rfl⟩, hkind, hkeyed k p hp⟩
  unfold PendingExact Exact ExactAt
  simp only [hitem]
  exact forall_comm

end HitlHost

/-- **The pending decisions are what is owed after every event of a run exactly when** every event
meets its condition: it takes out no item that is owed, and enters none of which the reply is
recorded and none in the place of one that is owed. -/
theorem pending_exact_iff {t : ℤ} {log : List (Transition HitlHost HitlEvent)} {h : HitlHost}
    (run : HitlHost.HitlRun t log h) :
    (∀ x ∈ log, x.after.PendingExact) ↔ ∀ x ∈ log, x.before.Keeps x.event := by
  have hinit : Exact (shown ∅) { questions := { now := t } : HitlHost }.Owed := by
    intro k
    rw [ExactAt.iff_of_none (show shown ∅ k = none by rw [shown, Dict.get?_empty]; rfl)]
    refine ReplyKind.forall_iff.mpr ⟨?_, ?_⟩
    · rintro ⟨⟨a, ha, -⟩, -⟩
      exact nomatch ha
    · rintro ⟨⟨g, hg, -⟩, -⟩
      exact nomatch hg
  have hkeeps : (∀ x ∈ log, Exact (shown x.after.pending) x.after.Owed) ↔
      ∀ x ∈ log, x.before.Keeps x.event :=
    Run.forall_after_iff (P := fun h => Exact (shown h.pending) h.Owed) hinit
      (fun s e s' _ hexact hstep => HitlHost.exact_next hexact hstep) run
  rw [← hkeeps]
  refine forall₂_congr fun x hx => ?_
  exact HitlHost.pendingExact_iff_exact
    (HitlHost.keyed_of_reachable (Run.reachable_of_mem run x hx).2.2)

def decidedAndAnswered : List HitlEvent :=
  [.opened { name := "merge" }, .question (.ask [{ id := "q1" }] 72),
    .decision { gate := "merge", round := 1, outcome := .approve, decidedBy := .human },
    .question (.answer "q1" "yes"), .gateResumed 0, .question (.resumed 0)]

/-- The list is exact all along. -/
theorem pending_exact_iff_sample : ∃ log h, HitlHost.HitlRun 0 log h ∧ log.length = 6 ∧
    ∀ x ∈ log, x.after.PendingExact := by
  have heval : (runScript HitlHost.next ([], { questions := { now := 0 } })
      decidedAndAnswered).map (fun p => (p.1.length, p.1.all fun x => x.before.Keeps x.event)) =
        some (6, true) := by
    decide +kernel
  obtain ⟨log, h, run, hview⟩ := Run.exists_of_runScript heval
  obtain ⟨hlength, hall⟩ := Prod.mk.inj hview
  refine ⟨log, h, run, hlength, (pending_exact_iff run).mpr fun x hx => ?_⟩
  exact of_decide_eq_true (List.all_eq_true.mp hall x hx)

def answeredGate : List HitlEvent :=
  [.opened { name := "merge" }, .question (.answer "merge#1" "yes")]

/-- A question that is not answered in time. -/
def unansweredQuestion : List HitlEvent :=
  [.question (.ask [{ id := "q1" }] 72), .question (.tick 259200), .question (.resumed 0)]

/-- **An answer hides a gate that is open and undecided, and a question is shown when nobody waits
for it any more.** -/
theorem gate_hidden_by_answer :
    (∃ log h, HitlHost.HitlRun 0 log h ∧ h.Owed .gate "merge#1" ∧ h.pendingDecisions = [] ∧
      ¬h.PendingExact) ∧
    ∃ log h, HitlHost.HitlRun 0 log h ∧ h.pendingDecisions.map (·.key) = ["q1"] ∧
      ¬h.Owed .text "q1" ∧ ¬h.PendingExact := by
  constructor
  · have heval : (runScript HitlHost.next ([], { questions := { now := 0 } }) answeredGate).map
        (fun p => (p.2.pendingDecisions.map (·.key), decide (p.2.Owed .gate "merge#1"))) =
          some ([], true) := by
      decide +kernel
    obtain ⟨log, h, run, hview⟩ := Run.exists_of_runScript heval
    obtain ⟨hkeys, howed⟩ := Prod.mk.inj hview
    have hnone : h.pendingDecisions = [] := List.map_eq_nil_iff.mp hkeys
    have howed : h.Owed .gate "merge#1" := of_decide_eq_true howed
    refine ⟨log, h, run, howed, hnone, fun hexact => ?_⟩
    obtain ⟨p, hp, -⟩ := (hexact .gate "merge#1").mpr howed
    rw [hnone] at hp
    exact nomatch hp
  · have heval : (runScript HitlHost.next ([], { questions := { now := 0 } })
        unansweredQuestion).map (fun p => (p.2.pendingDecisions.map fun p => (p.replyKind, p.key),
          decide (p.2.Owed .text "q1"))) = some ([(.text, "q1")], false) := by
      decide +kernel
    obtain ⟨log, h, run, hview⟩ := Run.exists_of_runScript heval
    obtain ⟨hitems, howed⟩ := Prod.mk.inj hview
    have howed : ¬h.Owed .text "q1" := of_decide_eq_false howed
    refine ⟨log, h, run, ?_, howed, fun hexact => ?_⟩
    · have hkeys := congrArg (List.map Prod.snd) hitems
      rw [List.map_map] at hkeys
      exact hkeys
    · have hmem : (ReplyKind.text, "q1") ∈ h.pendingDecisions.map fun p => (p.replyKind, p.key) := by
        rw [hitems]
        exact List.mem_singleton_self _
      obtain ⟨p, hp, hpair⟩ := List.mem_map.mp hmem
      obtain ⟨hkind, hkey⟩ := Prod.mk.inj hpair
      exact howed ((hexact .text "q1").mp ⟨p, hp, hkind, hkey⟩)

end Kroker.Questions
