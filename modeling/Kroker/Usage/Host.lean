import Kroker.Library.Run
import Kroker.Usage.Ledger
import Mathlib.Data.Rat.Encodable

/-!
# The usage of a run is conserved

`_run_role` of `workflows/role_host.py` and `_track_usage` of `workflows/report_host.py`, for any
number of role calls in flight.  A call awaits its agent, then the price of its own usage, then the
price of each batch of its sub-runs; what it does between two awaits is one step.

A call is booked in three places: in the bag of its role and as an event of the trace, in the spend
of the activation it ran in, and in the bag its caller holds, if it holds one.  A bag that a caller
holds is its own object, and is written through the calls it is passed to.

The trace has usage events that other stages emit for what their harnesses report.  These name their
stage, and `_track_usage` names none, which is how the two are told apart here.
-/

namespace Kroker.Usage

/-! ## 1. The host -/

structure ActivationSpend where
  activation : String
  spent : ℚ := 0
  priced : Bool := true

/-- The awaits of a role call. -/
inductive CallPhase where
  /-- In `agent.run`. -/
  | running
  /-- In `_price`, for the call's own usage. -/
  | pricing (usage : TokenCounts) (reports : List SubRunUsage)
  /-- In `_price`, for the first of the batches left. -/
  | batching (usage : TokenCounts) (usd : Option ℚ) (reports : List SubRunUsage)
      (batchUsd : List (String × Option ℚ)) (left : List Batch)
  | returned (usage : TokenCounts) (usd : Option ℚ) (reports : List SubRunUsage)
      (batchUsd : List (String × Option ℚ))
  | raised

/-- A call of `_run_role`; `into` is the bag its caller holds, and `activation` is what the task's
`ACTIVATION` is set to. -/
structure RoleCall where
  role : String
  model : String
  into : Option ℕ := none
  activation : Option String := none
  phase : CallPhase := .running

structure UsageHost where
  trace : List RunEvent := []
  seq : ℕ := 0
  roleUsage : RoleBags := ∅
  activationSpend : Table ActivationSpend.activation := ∅
  unattributed : ℚ × Bool := (0, true)
  held : List RoleUsage := []
  calls : List RoleCall := []

inductive UsageEvent where
  /-- A caller makes a bag of its own. -/
  | hold (role model : String)
  | call (role model : String) (into : Option ℕ) (activation : Option String)
  /-- The agent of a call has returned, with the reports its messages carry. -/
  | returned (i : ℕ) (usage : TokenCounts) (reports : List SubRunUsage)
  | raised (i : ℕ)
  /-- A price is in; `none` is a pricing that failed. -/
  | priced (i : ℕ) (usd : Option ℚ)
  /-- Another part of the workflow emits an event. -/
  | emitted (kind : RunEventKind) (stage : Option String) (data : Dict String)

def forwardedModel (overrides registry : Dict String) (role : String) : Option String :=
  match (overrides[role]? : Option String), (registry[role]? : Option String) with
  | some model, some registered => if model = registered then none else some model
  | _, _ => none

/-- A label that disagrees with the forwarded model raises before the call is made. -/
def startPhase (fwd : Option String) (model : String) : CallPhase :=
  match fwd with
  | none => .running
  | some fwd => if fwd = model then .running else .raised

namespace UsageHost

variable (T : MoneyText)

def emit (h : UsageHost) (kind : RunEventKind) (stage : Option String) (data : Dict String) :
    UsageHost :=
  { h with
    trace := h.trace ++ [{ seq := h.seq, kind, stage, data }]
    seq := h.seq + 1 }

/-- The first lines of `_track_usage`: the spend of the activation, if one is set. -/
def spend (h : UsageHost) (activation : Option String) (cost : Option ℚ) : UsageHost :=
  match activation.filter (· ≠ "") with
  | some aid =>
    { h with
      activationSpend := h.activationSpend.upsert { activation := aid }
        (fun prior =>
          { prior with
            spent := prior.spent + cost.getD 0
            priced := prior.priced && cost.isSome })
        fun _ => rfl }
  | none =>
    { h with unattributed := (h.unattributed.1 + cost.getD 0, h.unattributed.2 && cost.isSome) }

/-- The bag that a call's caller holds, if any, is updated. -/
def fold (held : List RoleUsage) (into : Option ℕ) (f : RoleUsage → RoleUsage) : List RoleUsage :=
  match into with
  | none => held
  | some j => held.modify j f

def trackUsage (h : UsageHost) (activation : Option String) (role model : String)
    (tokens : TokenCounts) (cost : Option ℚ) (into : Option ℕ) : UsageHost :=
  let h := h.spend activation cost
  { h with
    roleUsage := h.roleUsage.book role model tokens cost
    held := fold h.held into (mergeUsage model tokens cost) }.emit .modelUsage none
      (usageData T role model tokens cost)

def setPhase (h : UsageHost) (i : ℕ) (c : RoleCall) (phase : CallPhase) : UsageHost :=
  { h with calls := h.calls.set i { c with phase } }

/-- `batch_usd[model]`. -/
def usdOf (batchUsd : List (String × Option ℚ)) (model : String) : Option ℚ :=
  (batchUsd.find? (·.1 = model)).bind (·.2)

/-- The accounting of the reports, when all batches are priced. -/
def trackReports (h : UsageHost) (activation : Option String) (usd : String → Option ℚ)
    (reports : List SubRunUsage) : UsageHost :=
  (reports.zip (shares usd reports [])).foldl
    (fun h r => h.trackUsage T activation "research" r.1.model r.1.tokens r.2 none) h

/-- The loop of `add_spend` over the batches. -/
def addBatches (usd : String → Option ℚ) (left : List Batch) (bag : RoleUsage) : RoleUsage :=
  left.foldl (fun bag b => addSpend b.tokens (usd b.model) bag) bag

/-- From the last price of a batch to the return. -/
def settle (h : UsageHost) (i : ℕ) (c : RoleCall) (usage : TokenCounts) (usd : Option ℚ)
    (reports : List SubRunUsage) (batchUsd : List (String × Option ℚ)) : UsageHost :=
  let h := h.trackReports T c.activation (usdOf batchUsd) reports
  { h with held := fold h.held c.into (addBatches (usdOf batchUsd) (batches reports).rows) }.setPhase
    i c (.returned usage usd reports batchUsd)

def bookOwn (h : UsageHost) (i : ℕ) (c : RoleCall) (usage : TokenCounts) (usd : Option ℚ)
    (reports : List SubRunUsage) : UsageHost :=
  let h := h.trackUsage T c.activation c.role c.model usage usd c.into
  match (batches reports).rows with
  | [] => h.setPhase i c (.returned usage usd reports [])
  | left => h.setPhase i c (.batching usage usd reports [] left)

/-- One event; `none` where it cannot occur. -/
def next (overrides registry : Dict String) (h : UsageHost) (e : UsageEvent) : Option UsageHost :=
  match e with
  | .hold role model => some { h with held := h.held ++ [{ role, model }] }
  | .call role model into activation =>
    if ∀ j ∈ into, j < h.held.length then
      let phase := startPhase (forwardedModel overrides registry role) model
      some { h with calls := h.calls ++ [{ role, model, into, activation, phase }] }
    else none
  | .returned i usage reports =>
    match h.calls[i]? with
    | none => none
    | some c =>
      match c.phase with
      | .running =>
        if usage.used then some (h.setPhase i c (.pricing usage reports))
        else some (h.bookOwn T i c usage none reports)
      | _ => none
  | .raised i =>
    match h.calls[i]? with
    | none => none
    | some c =>
      match c.phase with
      | .running => some (h.setPhase i c .raised)
      | _ => none
  | .priced i usd =>
    match h.calls[i]? with
    | none => none
    | some c =>
      match c.phase with
      | .pricing usage reports => some (h.bookOwn T i c usage usd reports)
      | .batching usage own reports batchUsd (b :: left) =>
        let batchUsd := batchUsd ++ [(b.model, usd)]
        match left with
        | [] => some (h.settle T i c usage own reports batchUsd)
        | _ :: _ => some (h.setPhase i c (.batching usage own reports batchUsd left))
      | _ => none
  | .emitted kind stage data =>
    if kind = .modelUsage ∧ stage = none then none else some (h.emit kind stage data)

/-! ## 2. Bags of the roles, trace and activations -/

variable {T} {h : UsageHost}

@[simp] theorem spend_trace (h : UsageHost) (activation : Option String) (cost : Option ℚ) :
    (h.spend activation cost).trace = h.trace := by
  rw [spend]
  split <;> rfl

@[simp] theorem spend_roleUsage (h : UsageHost) (activation : Option String) (cost : Option ℚ) :
    (h.spend activation cost).roleUsage = h.roleUsage := by
  rw [spend]
  split <;> rfl

@[simp] theorem spend_held (h : UsageHost) (activation : Option String) (cost : Option ℚ) :
    (h.spend activation cost).held = h.held := by
  rw [spend]
  split <;> rfl

@[simp] theorem spend_calls (h : UsageHost) (activation : Option String) (cost : Option ℚ) :
    (h.spend activation cost).calls = h.calls := by
  rw [spend]
  split <;> rfl

def spent (h : UsageHost) : ℚ := (h.activationSpend.rows.map (·.spent)).sum + h.unattributed.1

theorem spent_spend (h : UsageHost) (activation : Option String) (cost : Option ℚ) :
    (h.spend activation cost).spent = h.spent + cost.getD 0 := by
  rw [spend]
  split
  · rename_i aid _
    have hsum := h.activationSpend.sum_upsert (a := { activation := aid })
      (f := fun prior =>
        { prior with
          spent := prior.spent + cost.getD 0
          priced := prior.priced && cost.isSome })
      (fun _ => rfl) (·.spent) (d := cost.getD 0) rfl fun _ => rfl
    rw [spent, hsum, spent, add_right_comm]
  · rw [spent, spent, add_assoc]

/-- The bags of the roles are what the events without a stage roll up to, and their dollars are what
has been spent. -/
structure Balanced (T : MoneyText) (h : UsageHost) : Prop where
  bags : h.roleUsage = roleRollup T (h.trace.filter (·.stage = none))
  spent : h.spent = (h.roleUsage.rows.map (·.dollars)).sum

theorem Balanced.congr {h' : UsageHost} (hb : Balanced T h) (htrace : h'.trace = h.trace)
    (hroles : h'.roleUsage = h.roleUsage) (hspent : h'.spent = h.spent) : Balanced T h' := by
  refine ⟨?_, ?_⟩
  · rw [hroles, htrace, hb.bags]
  · rw [hspent, hroles, hb.spent]

theorem roleRollup_append (trace : List RunEvent) (e : RunEvent) :
    roleRollup T (trace ++ [e]) = rollupEvent T (roleRollup T trace) e := by
  rw [roleRollup, List.foldl_append, List.foldl_cons, List.foldl_nil, roleRollup]

/-- **A tracked call keeps the balance.** -/
theorem Balanced.trackUsage (hb : Balanced T h) (activation : Option String) (role model : String)
    (tokens : TokenCounts) (cost : Option ℚ) (into : Option ℕ) :
    Balanced T (h.trackUsage T activation role model tokens cost into) := by
  have hroles : (h.trackUsage T activation role model tokens cost into).roleUsage =
      h.roleUsage.book role model tokens cost :=
    congrArg (·.book role model tokens cost) (spend_roleUsage h activation cost)
  have htrace : (h.trackUsage T activation role model tokens cost into).trace = h.trace ++
      [⟨(h.spend activation cost).seq, .modelUsage, none, usageData T role model tokens cost⟩] :=
    congrArg (· ++ _) (spend_trace h activation cost)
  have hspent : (h.trackUsage T activation role model tokens cost into).spent =
      h.spent + cost.getD 0 := spent_spend h activation cost
  refine ⟨?_, ?_⟩
  · rw [hroles, htrace, List.filter_append, List.filter_cons_of_pos (by simp), List.filter_nil,
      roleRollup_append, rollupEvent_usageData, hb.bags]
  · rw [hspent, hroles, RoleBags.sum_dollars_book, hb.spent]

theorem Balanced.trackReports (hb : Balanced T h) (activation : Option String)
    (usd : String → Option ℚ) (reports : List SubRunUsage) :
    Balanced T (h.trackReports T activation usd reports) := by
  rw [UsageHost.trackReports]
  induction reports.zip (shares usd reports []) generalizing h with
  | nil => exact hb
  | cons r rs ih =>
    rw [List.foldl_cons]
    exact ih (hb.trackUsage activation "research" r.1.model r.1.tokens r.2 none)

theorem Balanced.emit (hb : Balanced T h) {kind : RunEventKind} {stage : Option String}
    (data : Dict String) (hother : ¬(kind = .modelUsage ∧ stage = none)) :
    Balanced T (h.emit kind stage data) := by
  refine ⟨?_, hb.spent⟩
  show h.roleUsage = roleRollup T ((h.trace ++ [_]).filter (·.stage = none))
  rw [List.filter_append, hb.bags]
  by_cases hstage : stage = none
  · have hkind : kind ≠ .modelUsage := fun hkind => hother ⟨hkind, hstage⟩
    rw [List.filter_cons_of_pos (by simp [hstage]), List.filter_nil, roleRollup_append,
      rollupEvent, if_neg hkind]
  · rw [List.filter_cons_of_neg (by simp [hstage]), List.filter_nil, List.append_nil]

theorem roleRollup_filter {trace : List RunEvent}
    (hstage : ∀ e ∈ trace, e.kind = .modelUsage → e.stage = none) :
    roleRollup T (trace.filter (·.stage = none)) = roleRollup T trace := by
  induction trace using List.reverseRecOn with
  | nil => rfl
  | append_singleton trace e ih =>
    have hbefore := ih fun x hx => hstage x (List.mem_append_left _ hx)
    rw [List.filter_append, roleRollup_append]
    by_cases he : e.stage = none
    · rw [List.filter_cons_of_pos (by simp [he]), List.filter_nil, roleRollup_append, hbefore]
    · have hkind : e.kind ≠ .modelUsage := fun hkind => he (hstage e (by simp) hkind)
      rw [List.filter_cons_of_neg (by simp [he]), List.filter_nil, List.append_nil, hbefore,
        rollupEvent, if_neg hkind]

/-! ## 3. Held bags -/

end UsageHost

def RoleCall.bookedTokens (c : RoleCall) : TokenCounts :=
  match c.phase with
  | .batching usage _ _ _ _ => usage
  | .returned usage _ reports _ => usage + (reports.map (·.tokens)).sum
  | _ => 0

def RoleCall.bookedDollars (c : RoleCall) : ℚ :=
  match c.phase with
  | .batching _ usd _ _ _ => usd.getD 0
  | .returned _ usd reports batchUsd =>
    usd.getD 0 + ((shares (UsageHost.usdOf batchUsd) reports []).map (·.getD 0)).sum
  | _ => 0

def RoleCall.bookedCalls (c : RoleCall) : ℕ :=
  match c.phase with
  | .batching _ _ _ _ _ => 1
  | .returned _ _ _ _ => 1
  | _ => 0

/-- The calls that a held bag was passed to. -/
def callsInto (calls : List RoleCall) (j : ℕ) : List RoleCall := calls.filter (·.into = some j)

/-- **Each held bag has what its calls have booked**, and their sub-runs, each once. -/
def HeldSound (held : List RoleUsage) (calls : List RoleCall) : Prop :=
  ∀ (j : ℕ) (bag : RoleUsage), held[j]? = some bag →
    bag.tokens = ((callsInto calls j).map (·.bookedTokens)).sum ∧
      bag.dollars = ((callsInto calls j).map (·.bookedDollars)).sum ∧
      bag.calls = ((callsInto calls j).map (·.bookedCalls)).sum

variable {calls : List RoleCall}

theorem sum_callsInto_set {M : Type} [AddCommMonoid M] {i : ℕ} {c c' : RoleCall}
    (hi : calls[i]? = some c) (hinto : c'.into = c.into) (f : RoleCall → M) {d : M}
    (hd : f c' = f c + d) (j : ℕ) :
    ((callsInto (calls.set i c') j).map f).sum =
      ((callsInto calls j).map f).sum + (if c.into = some j then d else 0) := by
  induction calls generalizing i with
  | nil => exact nomatch hi
  | cons x calls ih =>
    cases i with
    | zero =>
      obtain rfl := Option.some.inj hi
      rw [List.set_cons_zero, callsInto, callsInto, List.filter_cons, List.filter_cons, hinto]
      by_cases hj : x.into = some j
      · simp only [hj, decide_true, if_true, List.map_cons, List.sum_cons, hd]
        rw [add_right_comm]
      · simp [hj]
    | succ i =>
      rw [List.getElem?_cons_succ] at hi
      have htail := ih hi
      rw [callsInto, callsInto] at htail
      rw [List.set_cons_succ, callsInto, callsInto, List.filter_cons, List.filter_cons]
      by_cases hj : x.into = some j
      · simp only [hj, decide_true, if_true, List.map_cons, List.sum_cons, htail, add_assoc]
      · simp only [hj, decide_false, Bool.false_eq_true, if_false, htail]

theorem HeldSound.book {held : List RoleUsage} (h : HeldSound held calls) {i : ℕ} {c y : RoleCall}
    (hi : calls[i]? = some c) (hinto : y.into = c.into) {tokens : TokenCounts} {usd : ℚ} {n : ℕ}
    (htokens : y.bookedTokens = c.bookedTokens + tokens)
    (husd : y.bookedDollars = c.bookedDollars + usd) (hn : y.bookedCalls = c.bookedCalls + n)
    {f : RoleUsage → RoleUsage}
    (hf : ∀ bag, (f bag).tokens = bag.tokens + tokens ∧
      (f bag).dollars = bag.dollars + usd ∧ (f bag).calls = bag.calls + n) :
    HeldSound (UsageHost.fold held c.into f) (calls.set i y) := by
  intro j bag hbag
  rw [sum_callsInto_set hi hinto _ htokens, sum_callsInto_set hi hinto _ husd,
    sum_callsInto_set hi hinto _ hn]
  cases hc : c.into with
  | none =>
    rw [hc] at hbag
    obtain ⟨ht, hd, hk⟩ := h j bag hbag
    simp [ht, hd, hk]
  | some k =>
    rw [hc] at hbag
    by_cases hkj : k = j
    · subst hkj
      rw [UsageHost.fold, List.getElem?_modify_eq] at hbag
      obtain ⟨old, hold, rfl⟩ := Option.map_eq_some_iff.mp hbag
      obtain ⟨ht, hd, hk⟩ := h k old hold
      obtain ⟨hft, hfd, hfk⟩ := hf old
      simp [hft, hfd, hfk, ht, hd, hk]
    · rw [UsageHost.fold, List.getElem?_modify_ne _ _ hkj] at hbag
      obtain ⟨ht, hd, hk⟩ := h j bag hbag
      simp [hkj, ht, hd, hk]

theorem HeldSound.call {held : List RoleUsage} (h : HeldSound held calls) {c : RoleCall}
    (htokens : c.bookedTokens = 0) (husd : c.bookedDollars = 0) (hn : c.bookedCalls = 0) :
    HeldSound held (calls ++ [c]) := by
  intro j bag hbag
  obtain ⟨ht, hd, hk⟩ := h j bag hbag
  rw [callsInto, List.filter_append]
  by_cases hj : c.into = some j
  · rw [List.filter_cons_of_pos (by simp [hj])]
    simp [htokens, husd, hn, ht, hd, hk, callsInto]
  · rw [List.filter_cons_of_neg (by simp [hj])]
    simp [ht, hd, hk, callsInto]

theorem HeldSound.hold {held : List RoleUsage} (h : HeldSound held calls)
    (hbounded : ∀ c ∈ calls, ∀ j ∈ c.into, j < held.length) (role model : String) :
    HeldSound (held ++ [({ role, model } : RoleUsage)]) calls := by
  intro j bag hbag
  by_cases hj : j < held.length
  · rw [List.getElem?_append_left hj] at hbag
    exact h j bag hbag
  · rw [List.getElem?_append_right (by omega)] at hbag
    have hnew : bag = { role, model } := by
      rw [List.getElem?_singleton] at hbag
      split at hbag
      · exact (Option.some.inj hbag).symm
      · exact nomatch hbag
    have hnone : callsInto calls j = [] := by
      refine List.filter_eq_nil_iff.mpr fun c hc => ?_
      rw [decide_eq_true_eq]
      exact fun hinto => hj (hbounded c hc j hinto)
    rw [hnew, hnone]
    exact ⟨rfl, rfl, rfl⟩

/-! ## 4. What every reachable state conserves -/

namespace UsageHost

variable {T : MoneyText} {h h' : UsageHost}

theorem addBatches_spec (usd : String → Option ℚ) (left : List Batch) (bag : RoleUsage) :
    (addBatches usd left bag).tokens = bag.tokens + (left.map (·.tokens)).sum ∧
      (addBatches usd left bag).dollars =
        bag.dollars + (left.map fun b => (usd b.model).getD 0).sum ∧
      (addBatches usd left bag).calls = bag.calls + 0 := by
  rw [addBatches]
  induction left generalizing bag with
  | nil => simp
  | cons b left ih =>
    obtain ⟨ht, hd, hk⟩ := ih (addSpend b.tokens (usd b.model) bag)
    rw [List.foldl_cons, ht, hd, hk]
    simp [add_assoc]

@[simp] theorem trackUsage_held (h : UsageHost) (activation : Option String) (role model : String)
    (tokens : TokenCounts) (cost : Option ℚ) (into : Option ℕ) :
    (h.trackUsage T activation role model tokens cost into).held =
      fold h.held into (mergeUsage model tokens cost) :=
  congrArg (fold · into _) (spend_held h activation cost)

@[simp] theorem trackUsage_calls (h : UsageHost) (activation : Option String) (role model : String)
    (tokens : TokenCounts) (cost : Option ℚ) (into : Option ℕ) :
    (h.trackUsage T activation role model tokens cost into).calls = h.calls :=
  spend_calls h activation cost

theorem trackReports_held_calls (h : UsageHost) (activation : Option String)
    (usd : String → Option ℚ) (reports : List SubRunUsage) :
    (h.trackReports T activation usd reports).held = h.held ∧
      (h.trackReports T activation usd reports).calls = h.calls := by
  rw [trackReports]
  induction reports.zip (shares usd reports []) generalizing h with
  | nil => exact ⟨rfl, rfl⟩
  | cons r rs ih =>
    obtain ⟨hheld, hcalls⟩ := ih (h.trackUsage T activation "research" r.1.model r.1.tokens r.2 none)
    rw [List.foldl_cons, hheld, hcalls, trackUsage_held, trackUsage_calls]
    exact ⟨rfl, rfl⟩

/-- **The invariant of the host.** -/
structure Inv (T : MoneyText) (h : UsageHost) : Prop where
  balanced : Balanced T h
  held : HeldSound h.held h.calls
  bounded : ∀ c ∈ h.calls, ∀ j ∈ c.into, j < h.held.length

theorem length_fold (held : List RoleUsage) (into : Option ℕ) (f : RoleUsage → RoleUsage) :
    (fold held into f).length = held.length := by
  cases into with
  | none => rfl
  | some j => exact List.length_modify _ _ _

theorem inv_book (hinv : Inv T h) {i : ℕ} {c : RoleCall} (hi : h.calls[i]? = some c)
    {k : UsageHost} (hbalanced : Balanced T k) {f : RoleUsage → RoleUsage}
    (hheld : k.held = fold h.held c.into f) (hcalls : k.calls = h.calls) (phase : CallPhase)
    {tokens : TokenCounts} {usd : ℚ} {n : ℕ}
    (htokens : ({ c with phase } : RoleCall).bookedTokens = c.bookedTokens + tokens)
    (husd : ({ c with phase } : RoleCall).bookedDollars = c.bookedDollars + usd)
    (hn : ({ c with phase } : RoleCall).bookedCalls = c.bookedCalls + n)
    (hf : ∀ bag, (f bag).tokens = bag.tokens + tokens ∧ (f bag).dollars = bag.dollars + usd ∧
      (f bag).calls = bag.calls + n) : Inv T (k.setPhase i c phase) := by
  refine ⟨hbalanced.congr rfl rfl rfl, ?_, fun x hx j hj => ?_⟩
  · show HeldSound k.held (k.calls.set i { c with phase })
    rw [hheld, hcalls]
    exact hinv.held.book (y := { c with phase }) hi rfl htokens husd hn hf
  · show j < k.held.length
    rw [hheld, length_fold]
    have hmem : x ∈ h.calls.set i { c with phase } := by
      rw [← hcalls]
      exact hx
    rcases List.mem_or_eq_of_mem_set hmem with hx | rfl
    · exact hinv.bounded x hx j hj
    · exact hinv.bounded c (List.mem_of_getElem? hi) j hj

theorem inv_setPhase (hinv : Inv T h) {i : ℕ} {c : RoleCall} (hi : h.calls[i]? = some c)
    (phase : CallPhase) (htokens : ({ c with phase } : RoleCall).bookedTokens = c.bookedTokens)
    (husd : ({ c with phase } : RoleCall).bookedDollars = c.bookedDollars)
    (hn : ({ c with phase } : RoleCall).bookedCalls = c.bookedCalls) :
    Inv T (h.setPhase i c phase) := by
  refine inv_book hinv hi hinv.balanced (f := id) ?_ rfl phase (htokens.trans (add_zero _).symm)
    (husd.trans (add_zero _).symm) (hn.trans (add_zero _).symm) fun bag =>
      ⟨(add_zero _).symm, (add_zero _).symm, (add_zero _).symm⟩
  cases c.into with
  | none => rfl
  | some j => rw [fold, List.modify_id]

/-- **The call's own usage is booked.** -/
theorem inv_bookOwn (hinv : Inv T h) {i : ℕ} {c : RoleCall} (hi : h.calls[i]? = some c)
    (hnone : c.bookedTokens = 0 ∧ c.bookedDollars = 0 ∧ c.bookedCalls = 0) (usage : TokenCounts)
    (usd : Option ℚ) (reports : List SubRunUsage) : Inv T (h.bookOwn T i c usage usd reports) := by
  obtain ⟨ht, hd, hk⟩ := hnone
  have hbooked : ∀ phase, ({ c with phase } : RoleCall).bookedTokens = usage →
      ({ c with phase } : RoleCall).bookedDollars = usd.getD 0 →
      ({ c with phase } : RoleCall).bookedCalls = 1 →
      Inv T ((h.trackUsage T c.activation c.role c.model usage usd c.into).setPhase i c phase) := by
    intro phase htokens husd hn
    have htokens' : ({ c with phase } : RoleCall).bookedTokens = c.bookedTokens + usage := by
      rw [htokens, ht, zero_add]
    have husd' : ({ c with phase } : RoleCall).bookedDollars = c.bookedDollars + usd.getD 0 := by
      rw [husd, hd, zero_add]
    have hn' : ({ c with phase } : RoleCall).bookedCalls = c.bookedCalls + 1 := by
      rw [hn, hk]
    exact inv_book hinv hi (hinv.balanced.trackUsage _ _ _ _ _ _) (trackUsage_held _ _ _ _ _ _ _)
      (trackUsage_calls _ _ _ _ _ _ _) phase htokens' husd' hn'
      fun bag => ⟨rfl, mergeUsage_dollars _ _ _ _, rfl⟩
  rw [bookOwn]
  split
  · rename_i hrows
    -- Without a batch there is no report.
    have hreports : (reports.map (·.tokens)).sum = 0 := by
      rw [← sum_batches, hrows]
      rfl
    have hshares : ((shares (usdOf []) reports []).map (·.getD 0)).sum = 0 := by
      rw [sum_shares, hrows]
      rfl
    refine hbooked _ ?_ ?_ rfl
    · show usage + (reports.map (·.tokens)).sum = usage
      rw [hreports, add_zero]
    · show usd.getD 0 + ((shares (usdOf []) reports []).map (·.getD 0)).sum = usd.getD 0
      rw [hshares, add_zero]
  · exact hbooked _ rfl rfl rfl

/-- **The sub-runs of a call are booked.** -/
theorem inv_settle (hinv : Inv T h) {i : ℕ} {c : RoleCall} (hi : h.calls[i]? = some c)
    {usage : TokenCounts} {usd : Option ℚ} {reports : List SubRunUsage}
    {before : List (String × Option ℚ)} {left : List Batch}
    (hphase : c.phase = .batching usage usd reports before left)
    (batchUsd : List (String × Option ℚ)) :
    Inv T (h.settle T i c usage usd reports batchUsd) := by
  obtain ⟨hheld, hcalls⟩ := trackReports_held_calls (T := T) h c.activation (usdOf batchUsd) reports
  have hbalanced := hinv.balanced.trackReports c.activation (usdOf batchUsd) reports
  rw [settle]
  generalize h.trackReports T c.activation (usdOf batchUsd) reports = k at *
  have hbooked : Balanced T { k with
      held := fold k.held c.into (addBatches (usdOf batchUsd) (batches reports).rows) } :=
    hbalanced.congr rfl rfl rfl
  refine inv_book hinv hi hbooked (by rw [hheld]) hcalls _ ?_ ?_ ?_
    (addBatches_spec (usdOf batchUsd) (batches reports).rows)
  · rw [sum_batches, RoleCall.bookedTokens, RoleCall.bookedTokens, hphase]
  · rw [← sum_shares, RoleCall.bookedDollars, RoleCall.bookedDollars, hphase]
  · rw [RoleCall.bookedCalls, RoleCall.bookedCalls, hphase]

theorem booked_startPhase (role model : String) (into : Option ℕ) (activation fwd : Option String) :
    let c : RoleCall := { role, model, into, activation, phase := startPhase fwd model }
    c.bookedTokens = 0 ∧ c.bookedDollars = 0 ∧ c.bookedCalls = 0 := by
  cases fwd with
  | none => exact ⟨rfl, rfl, rfl⟩
  | some fwd =>
    by_cases hmodel : fwd = model <;>
      simp [startPhase, hmodel, RoleCall.bookedTokens, RoleCall.bookedDollars,
        RoleCall.bookedCalls]

/-- **Every event keeps the invariant.** -/
theorem inv_next {overrides registry : Dict String} (hinv : Inv T h) {e : UsageEvent}
    (hstep : next T overrides registry h e = some h') : Inv T h' := by
  cases e with
  | hold role model =>
    obtain rfl := Option.some.inj hstep
    refine ⟨hinv.balanced.congr rfl rfl rfl, hinv.held.hold hinv.bounded role model, ?_⟩
    intro c hc j hj
    show j < (h.held ++ [_]).length
    have := hinv.bounded c hc j hj
    rw [List.length_append]
    omega
  | call role model into activation =>
    rw [next] at hstep
    split at hstep
    · rename_i hbag
      obtain rfl := Option.some.inj hstep
      have hfresh := booked_startPhase role model into activation
        (forwardedModel overrides registry role)
      refine ⟨hinv.balanced.congr rfl rfl rfl, hinv.held.call hfresh.1 hfresh.2.1 hfresh.2.2, ?_⟩
      intro c hc j hj
      rcases List.mem_append.mp hc with hc | hc
      · exact hinv.bounded c hc j hj
      · obtain rfl := List.mem_singleton.mp hc
        exact hbag j hj
    · exact nomatch hstep
  | returned i usage reports =>
    rw [next] at hstep
    split at hstep
    · exact nomatch hstep
    · rename_i c hi
      split at hstep
      · rename_i hphase
        have hnone : c.bookedTokens = 0 ∧ c.bookedDollars = 0 ∧ c.bookedCalls = 0 := by
          simp [RoleCall.bookedTokens, RoleCall.bookedDollars, RoleCall.bookedCalls, hphase]
        split at hstep
        · obtain rfl := Option.some.inj hstep
          exact inv_setPhase hinv hi _ hnone.1.symm hnone.2.1.symm hnone.2.2.symm
        · obtain rfl := Option.some.inj hstep
          exact inv_bookOwn hinv hi hnone usage none reports
      · exact nomatch hstep
  | raised i =>
    rw [next] at hstep
    split at hstep
    · exact nomatch hstep
    · rename_i c hi
      split at hstep
      · rename_i hphase
        obtain rfl := Option.some.inj hstep
        refine inv_setPhase hinv hi _ ?_ ?_ ?_
        · rw [RoleCall.bookedTokens, RoleCall.bookedTokens, hphase]
        · rw [RoleCall.bookedDollars, RoleCall.bookedDollars, hphase]
        · rw [RoleCall.bookedCalls, RoleCall.bookedCalls, hphase]
      · exact nomatch hstep
  | priced i usd =>
    rw [next] at hstep
    split at hstep
    · exact nomatch hstep
    · rename_i c hi
      split at hstep
      · rename_i usage reports hphase
        obtain rfl := Option.some.inj hstep
        have hnone : c.bookedTokens = 0 ∧ c.bookedDollars = 0 ∧ c.bookedCalls = 0 := by
          simp [RoleCall.bookedTokens, RoleCall.bookedDollars, RoleCall.bookedCalls, hphase]
        exact inv_bookOwn hinv hi hnone usage usd reports
      · rename_i usage own reports batchUsd b left hphase
        split at hstep
        · obtain rfl := Option.some.inj hstep
          exact inv_settle hinv hi hphase _
        · obtain rfl := Option.some.inj hstep
          refine inv_setPhase hinv hi _ ?_ ?_ ?_
          · rw [RoleCall.bookedTokens, RoleCall.bookedTokens, hphase]
          · rw [RoleCall.bookedDollars, RoleCall.bookedDollars, hphase]
          · rw [RoleCall.bookedCalls, RoleCall.bookedCalls, hphase]
      · exact nomatch hstep
  | emitted kind stage data =>
    rw [next] at hstep
    split at hstep
    · exact nomatch hstep
    · rename_i hother
      obtain rfl := Option.some.inj hstep
      have hbalanced := hinv.balanced.emit data hother
      exact ⟨hbalanced, hinv.held, hinv.bounded⟩

theorem inv_of_reachable {overrides registry : Dict String}
    (hreach : Reachable {} (next T overrides registry) h) : Inv T h := by
  refine hreach.induct ?_ fun _ _ _ _ hinv hstep => inv_next hinv hstep
  exact ⟨⟨rfl, add_zero _⟩, fun j bag hbag => (nomatch hbag), nofun⟩

/-- **The ledgers of a run agree.** -/
structure Conserved (T : MoneyText) (h : UsageHost) : Prop where
  /-- The bags of the roles are the roll-up of the usage events that `_track_usage` emits. -/
  bags : h.roleUsage.rows = (roleRollup T (h.trace.filter (·.stage = none))).rows
  /-- They are the roll-up of the whole trace, where no stage has emitted usage events of its
  own. -/
  trace : (∀ e ∈ h.trace, e.kind = .modelUsage → e.stage = none) →
    h.roleUsage.rows = (roleRollup T h.trace).rows
  /-- The spend of the activations and the unattributed spend are the dollars of the roles. -/
  spend : (h.activationSpend.rows.map (·.spent)).sum + h.unattributed.1 =
    (h.roleUsage.rows.map (·.dollars)).sum
  /-- A held bag has the tokens and dollars of its calls and their sub-runs, and counts its
  calls. -/
  held : HeldSound h.held h.calls

/-- Amounts by their numbers. -/
def numbered : MoneyText where
  render q := toString (Encodable.encode q)
  parse s := (Encodable.decode (α := ℚ) (intOf s)).getD 0
  parse_render q := by rw [intOf_toString, Encodable.encodek, Option.getD_some]

/-- A call with two sub-runs of one model, in an activation and with a held bag. -/
def sampleEvents : List UsageEvent :=
  [.hold "architect" "m", .call "architect" "m" (some 0) (some "arch#1"),
    .returned 0 { input := 10, output := 2 }
      [{ model := "r", tokens := { input := 3 } }, { model := "r", tokens := { input := 4 } }],
    .priced 0 (some 5), .priced 0 (some 7)]

end UsageHost

end Kroker.Usage
