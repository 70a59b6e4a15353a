import Kroker.Harness.OpenCodeStream

/-!
# The stream of `claude`

`ClaudeCodeHarness.parse`, `normalise_session`, `normalise_denials` and `normalise_deferral` of
`harness/claude_code.py`.  The `result` event has the session id, the cost, the tokens and the denials of
the run; what the hook said of a call is in an event of its own, as JSON in a text.

## 1.  What the hook said

`hookDecision` is read by `normalise_denials` and by `normalise_deferral`.

## 2.  `normalise_denials`

The reasons that were recorded before a `result` event are matched with its denials by their position.
There is no guard against what is not an object.

## 3.  `normalise_deferral`

The last call the run was suspended at, with the reason of the last deferral.

## 4.  `parse`

The last `result` event has everything.

## 5.  `normalise_session`

The session id is the first that is true in any event, and the denials and the deferral are read again.
-/

namespace Kroker.Stream

open PyValue hiding none

variable {N F : Type} [PyNumber N]

namespace ClaudeCode

def hasField (ev : PyValue N) (key value : String) : Bool := (ev.field key).isText value

/-! ## 1.  What the hook said -/

/-- `json.loads(v)`, with `none` for `json.JSONDecodeError`: only a text can be loaded. -/
def loadsOf (env : StreamEnv N F) (v : PyValue N) : Except PyError (Option (PyValue N)) :=
  match v with
  | .text s => match env.loads s with
    | .value w => .ok (some w)
    | .malformed => .ok none
    | .raises e => .error e
  | _ => .error .type

/-- `hso.get("hookSpecificOutput") or {}`, where `hso` was loaded. -/
def specificOutput (hso : Option (PyValue N)) : Except PyError (Option (PyValue N)) :=
  match hso with
  | some hso => (hso.get "hookSpecificOutput").map fun output => some output.orEmpty
  | none => .ok none

def reasonIn (decision : String) (hso : Option (PyValue N)) :
    Except PyError (Option (PyValue N)) :=
  match hso with
  | some hso => do
    let said ← hso.get "permissionDecision"
    let reason ← hso.get "permissionDecisionReason"
    return if said.isText decision then some (reason.orElse (.text [])) else none
  | none => .ok none

def hookDecision (env : StreamEnv N F) (decision : String) (ev : PyValue N) :
    Except PyError (Option (PyValue N)) := do
  let hso ← loadsOf env ((← ev.get "output").orElse (.text (pyStr "{}")))
  let output ← specificOutput hso
  reasonIn decision output

/-- `ev.get("output") or "{}"`. -/
def outputOf (ev : PyValue N) : PyValue N := (ev.field "output").orElse (.text (pyStr "{}"))

def loadedOf (env : StreamEnv N F) (v : PyValue N) : Option (PyValue N) :=
  match v with
  | .text s => match env.loads s with
    | .value w => some w
    | _ => none
  | _ => none

/-- `hookSpecificOutput` of the output. -/
def hookOf (env : StreamEnv N F) (ev : PyValue N) : Option (PyValue N) :=
  (loadedOf env (outputOf ev)).map fun hso => (hso.field "hookSpecificOutput").orEmpty

structure HookReads (env : StreamEnv N F) (ev : PyValue N) : Prop where
  text : ∃ s, outputOf ev = .text s ∧ ∀ e, env.loads s ≠ .raises e
  output : ∀ hso ∈ loadedOf env (outputOf ev), hso.isDict = true
  specific : ∀ hso ∈ hookOf env ev, hso.isDict = true

def hookReason (env : StreamEnv N F) (decision : String) (ev : PyValue N) : Option (PyValue N) :=
  (hookOf env ev).bind fun hso =>
    if hasField hso "permissionDecision" decision then
      some ((hso.field "permissionDecisionReason").orElse (.text []))
    else none

variable (env : StreamEnv N F)

omit [PyNumber N] in
theorem returns_loadsOf (v : PyValue N) :
    Returns (loadsOf env v) (∃ s, v = .text s ∧ ∀ e, env.loads s ≠ .raises e) (loadedOf env v) := by
  cases v with
  | text s =>
    unfold loadsOf loadedOf
    dsimp only
    cases h : env.loads s with
    | value w =>
      refine Returns.congr (.pure (some w)) (iff_of_true trivial ?_) fun _ => rfl
      exact ⟨s, rfl, by simp [h]⟩
    | malformed =>
      refine Returns.congr (.pure none) (iff_of_true trivial ?_) fun _ => rfl
      exact ⟨s, rfl, by simp [h]⟩
    | raises e =>
      refine Returns.raises rfl ?_
      rintro ⟨t, ht, hraises⟩
      obtain rfl := PyValue.text.inj ht
      exact hraises e h
  | _ => exact Returns.raises rfl (by rintro ⟨s, hs, -⟩; cases hs)

theorem returns_specificOutput (hso : Option (PyValue N)) :
    Returns (specificOutput hso) (∀ v ∈ hso, v.isDict = true)
      (hso.map fun v => (v.field "hookSpecificOutput").orEmpty) := by
  cases hso with
  | none => exact (Returns.pure none).congr (iff_of_true trivial nofun) fun _ => rfl
  | some v =>
    refine ((returns_get v "hookSpecificOutput").map fun output => some output.orEmpty).congr ?_
      fun _ => rfl
    simp

theorem returns_reasonIn (decision : String) (hso : Option (PyValue N)) :
    Returns (reasonIn decision hso) (∀ v ∈ hso, v.isDict = true)
      (hso.bind fun v => if hasField v "permissionDecision" decision then
        some ((v.field "permissionDecisionReason").orElse (.text [])) else none) := by
  cases hso with
  | none => exact (Returns.pure none).congr (iff_of_true trivial nofun) fun _ => rfl
  | some v =>
    refine Returns.congr (.bind (returns_get v "permissionDecision") (.bind (returns_get v
      "permissionDecisionReason") (.pure _))) ?_ fun _ => rfl
    simp

theorem returns_hookDecision (decision : String) {ev : PyValue N} (hev : ev.isDict = true) :
    Returns (hookDecision env decision ev) (HookReads env ev) (hookReason env decision ev) := by
  refine Returns.congr (.bind (returns_get ev "output") (.bind (returns_loadsOf env (outputOf ev))
    (.bind (returns_specificOutput _) (returns_reasonIn decision _)))) ?_ fun _ => rfl
  constructor
  · rintro ⟨-, htext, houtput, hspecific⟩
    exact ⟨htext, houtput, hspecific⟩
  · rintro ⟨htext, houtput, hspecific⟩
    exact ⟨hev, htext, houtput, hspecific⟩

def isHook (ev : PyValue N) : Bool :=
  hasField ev "subtype" "hook_response" && hasField ev "hook_event" "PreToolUse"

/-! ## 2.  `normalise_denials` -/

/-- `for x in v`. -/
def iterate (v : PyValue N) : Except PyError (List (PyValue N)) :=
  match v with
  | .list items => .ok items
  | .text s => .ok (s.map fun c => .text [c])
  | .dict members => .ok (members.map fun m => .text m.1)
  | _ => .error .type

def isIterable (v : PyValue N) : Bool :=
  match v with
  | .list _ | .text _ | .dict _ => true
  | _ => false

/-- What the loop runs over. -/
def itemsOf (v : PyValue N) : List (PyValue N) :=
  match v with
  | .list items => items
  | .text s => s.map fun c => .text [c]
  | .dict members => members.map fun m => .text m.1
  | _ => []

omit [PyNumber N] in
theorem returns_iterate (v : PyValue N) :
    Returns (iterate v) (isIterable v = true) (itemsOf v) := by
  cases v with
  | list items => exact (Returns.pure _).congr (iff_of_true trivial rfl) fun _ => rfl
  | text s => exact (Returns.pure _).congr (iff_of_true trivial rfl) fun _ => rfl
  | dict members => exact (Returns.pure _).congr (iff_of_true trivial rfl) fun _ => rfl
  | _ => exact Returns.raises rfl Bool.false_ne_true

structure DenialState (N : Type) where
  reasons : List (PyValue N) := []
  denials : List ToolDenial := []

/-- A denial of a `result` event, with its position. -/
def denial (reasons : List (PyValue N)) (pd : PyValue N × ℕ) : Except PyError ToolDenial := do
  let split ← splitReasonOf (reasons[pd.2]?.getD (.text []))
  let toolInput := (← pd.1.get "tool_input").orEmpty
  let name ← pd.1.get "tool_name"
  let target ← targetOf toolInput
  let tool ← strField (name.orElse (.text (pyStr "unknown")))
  let ruleId ← strField (.text split.1 : PyValue N)
  let reason ← strField (.text split.2 : PyValue N)
  let target ← optionalField strField target
  return { tool, ruleId, reason, target, escalationDeclined := isDeclinedReason split.2 }

/-- The branch of a `result` event. -/
def denialsIn (reasons : List (PyValue N)) (ev : PyValue N) : Except PyError (List ToolDenial) := do
  let items ← iterate ((← ev.get "permission_denials").orElse (.list []))
  items.zipIdx.mapM (denial reasons)

/-- A round of the loop of `normalise_denials`. -/
def denyEvent (env : StreamEnv N F) (s : DenialState N) (ev : PyValue N) :
    Except PyError (DenialState N) := do
  let subtype ← ev.get "subtype"
  let hookEvent ← ev.get "hook_event"
  let etype ← ev.get "type"
  if subtype.isText "hook_response" && hookEvent.isText "PreToolUse" then
    let reason ← hookDecision env "deny" ev
    return { s with reasons := s.reasons ++ reason.toList }
  else if etype.isText "result" then
    let denials ← denialsIn s.reasons ev
    return { s with denials := s.denials ++ denials }
  else return s

def normaliseDenials (env : StreamEnv N F) (stdout : String) : Except PyError (List ToolDenial) :=
  ((splitlines (strip stdout).toList).foldlM (readFullLine env (denyEvent env)) {}).map (·.denials)

/-- The reason that is matched with the denial at this position. -/
def reasonAt (reasons : List (PyValue N)) (i : ℕ) : PyValue N := reasons[i]?.getD (.text [])

/-- `pd.get("tool_input") or {}`. -/
def toolInputOf (pd : PyValue N) : PyValue N := (pd.field "tool_input").orEmpty

/-- `pd.get("tool_name") or "unknown"`. -/
def toolNameOf (pd : PyValue N) : PyValue N :=
  (pd.field "tool_name").orElse (.text (pyStr "unknown"))

/-- The rule id and the reason. -/
def splitOf (reason : PyValue N) : PyStr × PyStr := splitReason (reason.text?.getD [])

structure DenialReads (reasons : List (PyValue N)) (pd : PyValue N × ℕ) : Prop where
  isDict : pd.1.isDict = true
  reason : (reasonAt reasons pd.2).text?.isSome = true
  encodes : encodable (splitOf (reasonAt reasons pd.2)).1 = true ∧
    encodable (splitOf (reasonAt reasons pd.2)).2 = true
  tool : (toolNameOf pd.1).isStr = true
  toolInput : (toolInputOf pd.1).isDict = true
  target : (target (toolInputOf pd.1)).isOptionalStr = true

def denialOf (reasons : List (PyValue N)) (pd : PyValue N × ℕ) : ToolDenial where
  tool := decode ((toolNameOf pd.1).text?.getD [])
  ruleId := decode (splitOf (reasonAt reasons pd.2)).1
  reason := decode (splitOf (reasonAt reasons pd.2)).2
  target := (target (toolInputOf pd.1)).text?.map decode
  escalationDeclined := isDeclinedReason (splitOf (reasonAt reasons pd.2)).2

omit [PyNumber N] in
theorem returns_splitReasonOf (reason : PyValue N) :
    Returns (splitReasonOf reason) (reason.text?.isSome = true) (splitOf reason) := by
  cases reason with
  | text s => exact (Returns.pure _).congr (iff_of_true trivial rfl) fun _ => rfl
  | _ => exact Returns.raises rfl Bool.false_ne_true

theorem returns_denial (reasons : List (PyValue N)) (pd : PyValue N × ℕ) :
    Returns (denial reasons pd) (DenialReads reasons pd) (denialOf reasons pd) := by
  refine Returns.congr (.bind (returns_splitReasonOf (reasonAt reasons pd.2))
    (.bind (returns_get pd.1 "tool_input") (.bind (returns_get pd.1 "tool_name")
      (.bind (returns_targetOf (toolInputOf pd.1)) (.bind (returns_strField (toolNameOf pd.1))
        (.bind (returns_strField _) (.bind (returns_strField _) (.bind (returns_optionalStr _)
          (.pure _))))))))) ?_ fun _ => rfl
  constructor
  · rintro ⟨hreason, hpd, -, hinput, htool, hrule, hrest, htarget, -⟩
    exact ⟨hpd, hreason, ⟨hrule, hrest⟩, htool, hinput, htarget⟩
  · rintro ⟨hpd, hreason, ⟨hrule, hrest⟩, htool, hinput, htarget⟩
    exact ⟨hreason, hpd, hpd, hinput, htool, hrule, hrest, htarget, trivial⟩

/-- `ev.get("permission_denials") or []`. -/
def deniedOf (ev : PyValue N) : PyValue N := (ev.field "permission_denials").orElse (.list [])

theorem returns_denialsIn (reasons : List (PyValue N)) {ev : PyValue N} (hev : ev.isDict = true) :
    Returns (denialsIn reasons ev)
      (isIterable (deniedOf ev) = true ∧ ∀ pd ∈ (itemsOf (deniedOf ev)).zipIdx, DenialReads reasons pd)
      ((itemsOf (deniedOf ev)).zipIdx.map (denialOf reasons)) := by
  refine Returns.congr (.bind (returns_get ev "permission_denials") (.bind (returns_iterate
    (deniedOf ev)) (Returns.mapM (returns_denial reasons) _))) ?_ fun _ => rfl
  exact and_iff_right hev

/-- A round of `normalise_denials` returns. -/
structure Denies (env : StreamEnv N F) (reasons : List (PyValue N)) (ev : PyValue N) : Prop where
  hook : isHook ev = true → HookReads env ev
  iterable : ¬isHook ev = true → hasField ev "type" "result" = true →
    isIterable (deniedOf ev) = true
  denials : ¬isHook ev = true → hasField ev "type" "result" = true →
    ∀ pd ∈ (itemsOf (deniedOf ev)).zipIdx, DenialReads reasons pd

/-- The reasons that an event records. -/
def denyReasons (env : StreamEnv N F) (ev : PyValue N) : List (PyValue N) :=
  if isHook ev then (hookReason env "deny" ev).toList else []

/-- The denials that an event reports. -/
def newDenials (reasons : List (PyValue N)) (ev : PyValue N) : List ToolDenial :=
  if isHook ev then []
  else if hasField ev "type" "result" then (itemsOf (deniedOf ev)).zipIdx.map (denialOf reasons)
  else []

/-- The state of `normalise_denials` after an event. -/
def denied (env : StreamEnv N F) (s : DenialState N) (ev : PyValue N) : DenialState N where
  reasons := s.reasons ++ denyReasons env ev
  denials := s.denials ++ newDenials s.reasons ev

theorem returns_denyEvent (s : DenialState N) (ev : PyValue N) (hev : ev.isDict = true) :
    Returns (denyEvent env s ev) (Denies env s.reasons ev) (denied env s ev) := by
  refine Returns.congr (.bind (returns_get ev "subtype") (.bind (returns_get ev "hook_event")
    (.bind (returns_get ev "type") (.ite (.bind (returns_hookDecision env "deny" hev) (.pure _))
      (.ite (.bind (returns_denialsIn s.reasons hev) (.pure _)) (.pure s)))))) ?_ fun _ => ?_
  · constructor
    · rintro ⟨-, -, -, hhook, hresult⟩
      exact ⟨fun h => (hhook h).1, fun h h' => ((hresult h).1 h').1.1,
        fun h h' => ((hresult h).1 h').1.2⟩
    · rintro ⟨hhook, hiterable, hdenials⟩
      exact ⟨hev, hev, hev, fun h => ⟨hhook h, trivial⟩,
        fun h => ⟨fun h' => ⟨⟨hiterable h h', hdenials h h'⟩, trivial⟩, fun _ => trivial⟩⟩
  · change (if isHook ev = true then _ else if hasField ev "type" "result" = true then _ else s) = _
    unfold denied denyReasons newDenials
    by_cases hhook : isHook ev = true
    · simp only [if_pos hhook, List.append_nil]
    · by_cases hresult : hasField ev "type" "result" = true
      · simp only [if_neg hhook, if_pos hresult, List.append_nil]
      · simp only [if_neg hhook, if_neg hresult, List.append_nil]

def reasonsOf (env : StreamEnv N F) (events : List (PyValue N)) : List (PyValue N) :=
  events.flatMap (denyReasons env)

theorem reasons_foldl_denied (events : List (PyValue N)) (s : DenialState N) :
    (events.foldl (denied env) s).reasons = s.reasons ++ reasonsOf env events := by
  induction events generalizing s with
  | nil => simp [reasonsOf]
  | cons ev events ih =>
    rw [List.foldl_cons, ih, denied, reasonsOf, reasonsOf, List.flatMap_cons, List.append_assoc]

/-- The denials that `normalise_denials` finds in these events. -/
def denialsOf (env : StreamEnv N F) (events : List (PyValue N)) : List ToolDenial :=
  (events.foldl (denied env) {}).denials

/-- `normalise_denials` reads the events one after the other. -/
def AllDeny (env : StreamEnv N F) (events : List (PyValue N)) : Prop :=
  ∀ earlier ev later, events = earlier ++ ev :: later → Denies env (reasonsOf env earlier) ev

/-- **When `normalise_denials` returns, and what.** -/
theorem returns_normaliseDenials (stdout : String) :
    Returns (normaliseDenials env stdout)
      (OnlyObjects env stdout ∧ AllDeny env (events env stdout))
      (denialsOf env (events env stdout)) := by
  have hraises : ∀ (s : DenialState N) (v : PyValue N), ¬v.isDict = true →
      ∃ e, denyEvent env s v = .error e := by
    intro s v hv
    refine ⟨.attribute, ?_⟩
    rw [denyEvent, get_of_not_isDict hv "subtype"]
    rfl
  have hloop := returns_unguarded env hraises (returns_denyEvent env) {} stdout
  rw [normaliseDenials, foldlM_readFullLine, fullLines_strip]
  refine (hloop.map (·.denials)).congr (and_congr_right' ?_) fun _ => rfl
  unfold Throughout AllDeny
  refine forall_congr' fun earlier => forall_congr' fun ev => forall_congr' fun later => ?_
  dsimp only
  rw [reasons_foldl_denied, List.nil_append]

/-! ## 3.  `normalise_deferral` -/

structure DeferralState (N : Type) where
  ruleId : PyStr
  reason : PyStr
  deferred : PyValue N := .none

/-- The rule id and the reason of a deferral, where the hook has one. -/
def noteReason (s : DeferralState N) (reason : Option (PyValue N)) :
    Except PyError (DeferralState N) :=
  match reason with
  | some reason => do
    let split ← splitReasonOf reason
    return { s with ruleId := split.1, reason := split.2 }
  | none => .ok s

/-- A round of the loop of `normalise_deferral`. -/
def deferEvent (env : StreamEnv N F) (s : DeferralState N) (ev : PyValue N) :
    Except PyError (DeferralState N) :=
  if !ev.isDict then .ok s
  else do
    let subtype ← ev.get "subtype"
    let hookEvent ← ev.get "hook_event"
    let etype ← ev.get "type"
    let stopReason ← ev.get "stop_reason"
    if subtype.isText "hook_response" && hookEvent.isText "PreToolUse" then
      noteReason s (← hookDecision env "defer" ev)
    else if etype.isText "result" && stopReason.isText "tool_deferred" then
      return { s with deferred := (← ev.get "deferred_tool_use").orEmpty }
    else return s

/-- `scrub(raw_target) if raw_target else raw_target`. -/
def scrubbed (target : PyValue N) : PyValue N :=
  match target with
  | .text s => if s = [] then .text s else .text (scrub s)
  | v => v

/-- The call that `deferred` describes. -/
def deferredCall (env : StreamEnv N F) (s : DeferralState N) : Except PyError DeferredToolUse := do
  let tool := (← s.deferred.get "name").orElse (.text (pyStr "unknown"))
  let toolInput := (← s.deferred.get "input").orEmpty
  let target ← targetOf toolInput
  let id ← s.deferred.get "id"
  let inputDigest ← digestToolInput env toolInput
  let toolUseId ← strField (id.orElse (.text []))
  let tool ← strField tool
  let ruleId ← strField (.text s.ruleId : PyValue N)
  let reason ← strField (.text s.reason : PyValue N)
  let target ← optionalField strField (scrubbed target)
  return { toolUseId, tool, inputDigest, ruleId, reason, target }

def normaliseDeferral (env : StreamEnv N F) (stdout : String) :
    Except PyError (Option DeferredToolUse) := do
  let s ← (splitlines (strip stdout).toList).foldlM (readFullLine env (deferEvent env))
    { ruleId := pyStr "unknown", reason := [] }
  if s.deferred.truthy then (deferredCall env s).map some else return none

def noted (s : DeferralState N) (reason : Option (PyValue N)) : DeferralState N :=
  match reason with
  | some reason => { s with ruleId := (splitOf reason).1, reason := (splitOf reason).2 }
  | none => s

omit [PyNumber N] in
theorem returns_noteReason (s : DeferralState N) (reason : Option (PyValue N)) :
    Returns (noteReason s reason) (∀ r ∈ reason, r.text?.isSome = true) (noted s reason) := by
  cases reason with
  | none => exact (Returns.pure s).congr (iff_of_true trivial nofun) fun _ => rfl
  | some reason =>
    refine Returns.congr (.bind (returns_splitReasonOf reason) (.pure _)) ?_ fun _ => rfl
    simp

/-- The event reports a deferral. -/
def isDeferral (ev : PyValue N) : Bool :=
  hasField ev "type" "result" && hasField ev "stop_reason" "tool_deferred"

/-- A round of `normalise_deferral` returns. -/
structure Defers (env : StreamEnv N F) (ev : PyValue N) : Prop where
  hook : isHook ev = true → HookReads env ev
  reason : isHook ev = true → ∀ r ∈ hookReason env "defer" ev, r.text?.isSome = true

/-- The state of `normalise_deferral` after an event. -/
def deferredBy (env : StreamEnv N F) (s : DeferralState N) (ev : PyValue N) : DeferralState N :=
  if isHook ev then noted s (hookReason env "defer" ev)
  else if isDeferral ev then { s with deferred := (ev.field "deferred_tool_use").orEmpty }
  else s

theorem returns_deferEvent (s : DeferralState N) (ev : PyValue N) (hev : ev.isDict = true) :
    Returns (deferEvent env s ev) (Defers env ev) (deferredBy env s ev) := by
  rw [deferEvent, if_neg (by simp [hev])]
  refine Returns.congr (.bind (returns_get ev "subtype") (.bind (returns_get ev "hook_event")
    (.bind (returns_get ev "type") (.bind (returns_get ev "stop_reason")
      (.ite (.bind (returns_hookDecision env "defer" hev) (returns_noteReason s _))
        (.ite (.bind (returns_get ev "deferred_tool_use") (.pure _)) (.pure s))))))) ?_ fun _ => rfl
  constructor
  · rintro ⟨-, -, -, -, hhook, -⟩
    exact ⟨fun h => (hhook h).1, fun h => (hhook h).2⟩
  · rintro ⟨hhook, hreason⟩
    exact ⟨hev, hev, hev, hev, fun h => ⟨hhook h, hreason h⟩,
      fun _ => ⟨fun _ => ⟨hev, trivial⟩, fun _ => trivial⟩⟩

def deferralOf (env : StreamEnv N F) (events : List (PyValue N)) : DeferralState N :=
  events.foldl (deferredBy env) { ruleId := pyStr "unknown", reason := [] }

/-- `deferred.get("input") or {}`. -/
def deferredInput (s : DeferralState N) : PyValue N := (s.deferred.field "input").orEmpty

/-- `deferred.get("name") or "unknown"`. -/
def deferredName (s : DeferralState N) : PyValue N :=
  (s.deferred.field "name").orElse (.text (pyStr "unknown"))

/-- `deferred.get("id") or ""`. -/
def deferredId (s : DeferralState N) : PyValue N := (s.deferred.field "id").orElse (.text [])

structure CallReads (env : StreamEnv N F) (s : DeferralState N) : Prop where
  isDict : s.deferred.isDict = true
  input : (deferredInput s).isDict = true
  digest : digests env (deferredInput s) = true
  id : (deferredId s).isStr = true
  name : (deferredName s).isStr = true
  ruleId : encodable s.ruleId = true
  reason : encodable s.reason = true
  target : (scrubbed (target (deferredInput s))).isOptionalStr = true

def callOf (env : StreamEnv N F) (s : DeferralState N) : DeferredToolUse where
  toolUseId := decode ((deferredId s).text?.getD [])
  tool := decode ((deferredName s).text?.getD [])
  inputDigest := digestOf env (deferredInput s)
  ruleId := decode s.ruleId
  reason := decode s.reason
  target := (scrubbed (target (deferredInput s))).text?.map decode

theorem returns_deferredCall (s : DeferralState N) :
    Returns (deferredCall env s) (CallReads env s) (callOf env s) := by
  refine Returns.congr (.bind (returns_get s.deferred "name") (.bind (returns_get s.deferred "input")
    (.bind (returns_targetOf (deferredInput s)) (.bind (returns_get s.deferred "id")
      (.bind (returns_digestToolInput env (deferredInput s)) (.bind (returns_strField (deferredId s))
        (.bind (returns_strField (deferredName s)) (.bind (returns_strField _)
          (.bind (returns_strField _) (.bind (returns_optionalStr _) (.pure _))))))))))) ?_
    fun _ => rfl
  constructor
  · rintro ⟨hdict, -, hinput, -, hdigest, hid, hname, hrule, hreason, htarget, -⟩
    exact ⟨hdict, hinput, hdigest, hid, hname, hrule, hreason, htarget⟩
  · rintro ⟨hdict, hinput, hdigest, hid, hname, hrule, hreason, htarget⟩
    exact ⟨hdict, hdict, hinput, hdict, hdigest, hid, hname, hrule, hreason, htarget, trivial⟩

/-- The deferral that `normalise_deferral` finds in these events. -/
def deferral (env : StreamEnv N F) (events : List (PyValue N)) : Option DeferredToolUse :=
  if (deferralOf env events).deferred.truthy then some (callOf env (deferralOf env events)) else none

/-- **When `normalise_deferral` returns, and what.** -/
theorem returns_normaliseDeferral (stdout : String) :
    Returns (normaliseDeferral env stdout)
      (Loadable env stdout ∧ (∀ ev ∈ events env stdout, Defers env ev) ∧
        ((deferralOf env (events env stdout)).deferred.truthy = true →
          CallReads env (deferralOf env (events env stdout))))
      (deferral env (events env stdout)) := by
  have hloop := returns_guarded env (fun s v hv => if_pos (by simpa using hv))
    (returns_deferEvent env) { ruleId := pyStr "unknown", reason := [] } stdout
  rw [throughout_const] at hloop
  rw [normaliseDeferral, foldlM_readFullLine, fullLines_strip]
  refine Returns.congr (.bind hloop (.ite ((returns_deferredCall env _).map some) (.pure none))) ?_
    fun _ => rfl
  constructor
  · rintro ⟨⟨hlines, hevents⟩, hcall, -⟩
    exact ⟨hlines, hevents, hcall⟩
  · rintro ⟨hlines, hevents, hcall⟩
    exact ⟨⟨hlines, hevents⟩, hcall, fun _ => trivial⟩

/-! ## 4.  `parse` -/

/-- A round of the loop of `parse`. -/
def payloadEvent (payload ev : PyValue N) : Except PyError (PyValue N) :=
  if ev.isDict then do
    let etype ← ev.get "type"
    return if etype.isText "result" then ev else payload
  else .ok payload

/-- `ev.get("usage") or {}`. -/
def usageOf (ev : PyValue N) : PyValue N := (ev.field "usage").orEmpty

/-- What `parse` reads of the payload. -/
def resultOf (env : StreamEnv N F) (payload : PyValue N) (exitCode : ℤ) :
    Except PyError (HarnessRunResult F) := do
  let sessionId ← payload.get "session_id"
  let cost ← payload.get "total_cost_usd"
  let summary ← (← payload.get "result").orGet payload "content"
  let usage := (← payload.get "usage").orEmpty
  let inputTokens ← usage.get "input_tokens"
  let outputTokens ← usage.get "output_tokens"
  let summary ← sliceTo summaryMax (summary.orElse (.text []))
  harnessRunResult env .claudeCode sessionId exitCode summary cost inputTokens outputTokens

def parse (env : StreamEnv N F) (stdout : String) (exitCode : ℤ) :
    Except PyError (HarnessRunResult F) := do
  let payload ← (splitlines (strip stdout).toList).foldlM (readFullLine env payloadEvent) .none
  if payload.isDict then
    resultOf env payload exitCode
  else
    harnessRunResult env .claudeCode .none exitCode (.text ((pyStr stdout).take summaryMax))
      .none .none .none

/-- The last `result` event; `None` where there is none. -/
def payloadOf (events : List (PyValue N)) : PyValue N :=
  (events.filter (hasField · "type" "result")).getLast?.getD .none

/-- The payload after an event. -/
def latest (payload ev : PyValue N) : PyValue N :=
  if hasField ev "type" "result" then ev else payload

omit [PyNumber N] in
theorem foldl_latest (events : List (PyValue N)) (payload : PyValue N) :
    events.foldl latest payload =
      (events.filter (hasField · "type" "result")).getLast?.getD payload := by
  induction events generalizing payload with
  | nil => rfl
  | cons ev events ih =>
    rw [List.foldl_cons, ih, latest, List.filter_cons]
    split
    · rw [List.getLast?_cons, Option.getD_some]
    · rfl

/-- `payload.get("result") or payload.get("content")`. -/
def summaryOf (payload : PyValue N) : PyValue N :=
  (payload.field "result").orElse (payload.field "content")

/-- The value is a text that can be encoded as far as it is kept, or counts as none. -/
def clipsOrFalse (n : ℕ) (v : PyValue N) : Bool := clips n (v.orElse (.text []))

structure PayloadReads (env : StreamEnv N F) (payload : PyValue N) : Prop where
  usage : (usageOf payload).isDict = true
  summary : clipsOrFalse summaryMax (summaryOf payload) = true
  report : Reportable env (payload.field "session_id") (payload.field "total_cost_usd")
    ((usageOf payload).field "input_tokens") ((usageOf payload).field "output_tokens")

/-- What `parse` reports of the payload. -/
def reportOf (env : StreamEnv N F) (payload : PyValue N) : Report F where
  sessionId := (payload.field "session_id").text?.map decode
  inputTokens := readNumber env.intField ((usageOf payload).field "input_tokens")
  outputTokens := readNumber env.intField ((usageOf payload).field "output_tokens")
  costUsd := readNumber env.floatField (payload.field "total_cost_usd")

def summaryText (stdout : String) (payload : PyValue N) : String :=
  if payload.isDict then
    decode (((summaryOf payload).orElse (.text [])).text?.getD [] |>.take summaryMax)
  else decode ((pyStr stdout).take summaryMax)

/-- What `parse` returns. -/
def parsedOf (env : StreamEnv N F) (stdout : String) (exitCode : ℤ) (payload : PyValue N) :
    HarnessRunResult F where
  harness := .claudeCode
  exitCode := exitCode
  summary := summaryText stdout payload
  sessionId := (reportOf env payload).sessionId
  inputTokens := (reportOf env payload).inputTokens
  outputTokens := (reportOf env payload).outputTokens
  costUsd := (reportOf env payload).costUsd

omit [PyNumber N] in
/-- **A result with a slice of a value** for its summary is made of a text alone. -/
theorem returns_slicedResult (sessionId : PyValue N) (exitCode : ℤ)
    (v cost inputTokens outputTokens : PyValue N) :
    Returns (sliceTo summaryMax v >>= fun summary => harnessRunResult env .claudeCode sessionId
        exitCode summary cost inputTokens outputTokens)
      (clips summaryMax v = true ∧ Reportable env sessionId cost inputTokens outputTokens)
      { harness := .claudeCode, exitCode, sessionId := sessionId.text?.map decode
        summary := decode ((v.text?.getD []).take summaryMax)
        costUsd := readNumber env.floatField cost
        inputTokens := readNumber env.intField inputTokens
        outputTokens := readNumber env.intField outputTokens } := by
  have hmade := fun summary =>
    returns_harnessRunResult env .claudeCode sessionId exitCode summary cost inputTokens outputTokens
  cases v with
  | text s =>
    refine Returns.congr (.bind (.pure (PyValue.text (s.take summaryMax))) (hmade _)) ?_ fun _ => rfl
    exact and_iff_right trivial
  | list items =>
    refine Returns.congr (.bind (.pure (PyValue.list (items.take summaryMax))) (hmade _)) ?_
      fun h => absurd h.2.1 Bool.false_ne_true
    exact iff_of_false (fun h => absurd h.2.1 Bool.false_ne_true)
      fun h => absurd h.1 Bool.false_ne_true
  | _ => exact Returns.raises rfl fun h => absurd h.1 Bool.false_ne_true

theorem returns_resultOf (stdout : String) {payload : PyValue N} (hdict : payload.isDict = true)
    (exitCode : ℤ) :
    Returns (resultOf env payload exitCode) (PayloadReads env payload)
      (parsedOf env stdout exitCode payload) := by
  refine Returns.congr (.bind (returns_get payload "session_id") (.bind (returns_get payload
    "total_cost_usd") (.bind (returns_get payload "result") (.bind (returns_orGet hdict "content")
      (.bind (returns_get payload "usage") (.bind (returns_get (usageOf payload) "input_tokens")
        (.bind (returns_get (usageOf payload) "output_tokens")
          (returns_slicedResult env _ exitCode _ _ _ _)))))))) ?_ fun _ => ?_
  · constructor
    · rintro ⟨-, -, -, -, -, husage, -, hsummary, hreport⟩
      exact ⟨husage, hsummary, hreport⟩
    · rintro ⟨husage, hsummary, hreport⟩
      exact ⟨hdict, hdict, hdict, trivial, hdict, husage, husage, hsummary, hreport⟩
  · rw [parsedOf, summaryText, if_pos hdict]
    rfl

def PayloadParses (env : StreamEnv N F) (events : List (PyValue N)) : Prop :=
  (payloadOf events).isDict = true → PayloadReads env (payloadOf events)

omit [PyNumber N] in
theorem field_of_not_isDict {v : PyValue N} (h : ¬v.isDict = true) (key : String) :
    v.field key = .none := by
  cases v with
  | dict members => exact absurd rfl h
  | _ => rfl

theorem returns_payload (stdout : String) (exitCode : ℤ) (payload : PyValue N) :
    Returns (if payload.isDict then resultOf env payload exitCode
      else harnessRunResult env .claudeCode .none exitCode
        (.text ((pyStr stdout).take summaryMax)) .none .none .none)
      (payload.isDict = true → PayloadReads env payload) (parsedOf env stdout exitCode payload) := by
  by_cases hdict : payload.isDict = true
  · rw [if_pos hdict]
    exact (returns_resultOf env stdout hdict exitCode).congr (imp_iff_right hdict).symm
      fun _ => rfl
  · rw [if_neg hdict]
    refine (returns_harnessRunResult env .claudeCode .none exitCode _ .none .none .none).congr ?_
      fun _ => ?_
    · refine iff_of_true ⟨encodable_take (encodable_pyStr stdout) _, rfl, rfl, rfl, rfl⟩ ?_
      exact fun h => absurd h hdict
    · have husage : usageOf payload = .dict [] := by
        rw [usageOf, field_of_not_isDict hdict]
        rfl
      rw [parsedOf, summaryText, if_neg hdict, reportOf, husage, field_of_not_isDict hdict,
        field_of_not_isDict hdict]
      rfl

/-- **When `parse` returns, and what.** -/
theorem returns_parse (stdout : String) (exitCode : ℤ) :
    Returns (parse env stdout exitCode)
      (Loadable env stdout ∧ PayloadParses env (events env stdout))
      (parsedOf env stdout exitCode (payloadOf (events env stdout))) := by
  have hstep : ∀ payload ev : PyValue N, ev.isDict = true →
      Returns (payloadEvent payload ev) True (latest payload ev) := by
    intro payload ev hev
    rw [payloadEvent, if_pos hev]
    refine Returns.congr (.bind (returns_get ev "type") (.pure _)) ?_ fun _ => rfl
    exact iff_of_true ⟨hev, trivial⟩ trivial
  have hloop := returns_guarded env (fun _ _ hv => if_neg hv) hstep PyValue.none stdout
  rw [throughout_const, foldl_latest] at hloop
  rw [parse, foldlM_readFullLine, fullLines_strip]
  refine Returns.congr (.bind hloop (returns_payload env stdout exitCode _)) ?_ fun _ => rfl
  constructor
  · rintro ⟨⟨hlines, -⟩, hpayload⟩
    exact ⟨hlines, hpayload⟩
  · rintro ⟨hlines, hpayload⟩
    exact ⟨⟨hlines, fun _ _ => trivial⟩, hpayload⟩

/-! ## 5.  `normalise_session` -/

structure SessionState (N : Type) where
  events : List SessionEvent := []
  sessionId : PyValue N := .none
  model : PyValue N := .none
  cost : PyValue N := .none
  inTok : PyValue N := .none
  outTok : PyValue N := .none

/-- `_TOOL_MAP.get(name, ("tool_call", ""))`: a list and a dictionary have no hash. -/
def toolMap (name : PyValue N) : Except PyError (String × String) :=
  match name with
  | .text s =>
    .ok (if s = pyStr "Read" then ("file_read", "file_path")
      else if s = pyStr "Write" then ("file_write", "file_path")
      else if s = pyStr "Edit" then ("file_write", "file_path")
      else if s = pyStr "Bash" then ("command", "command")
      else ("tool_call", ""))
  | .list _ | .dict _ => .error .type
  | _ => .ok ("tool_call", "")

/-- The branch of a block of type `text`. -/
def textBlock (block : PyValue N) : Except PyError (List SessionEvent) := do
  let text ← block.get "text"
  if text.truthy then (sessionEvent "model_turn" .none .none text none).map ([·]) else return []

/-- The branch of a block of type `tool_use`. -/
def toolUseBlock (env : StreamEnv N F) (block : PyValue N) : Except PyError (List SessionEvent) := do
  let name := (← block.get "name").orElse (.text (pyStr "tool"))
  let kind ← toolMap name
  let inp := (← block.get "input").orEmpty
  let target ← targetField env kind.2 inp
  (sessionEvent kind.1 name target .none none).map ([·])

/-- `c.get("text", "")`. -/
def textOrEmpty (c : PyValue N) : PyValue N :=
  match c with
  | .dict members => (Members.get? members (pyStr "text")).getD (.text [])
  | _ => .none

/-- `" ".join(c.get("text", "") for c in content if isinstance(c, dict))`, of a list. -/
def joinedContent (content : PyValue N) : Except PyError (PyValue N) :=
  match content with
  | .list items => (((items.filter isDict).map textOrEmpty).mapM OpenCode.asText).map fun texts =>
      .text ([0x20].intercalate texts)
  | v => .ok v

/-- The branch of a block of type `tool_result`. -/
def toolResultBlock (block : PyValue N) : Except PyError (List SessionEvent) := do
  let content ← joinedContent (← block.get "content")
  let isError ← block.get "is_error"
  (sliceTo 2000 (content.orElse (.text [])) >>= fun text =>
    sessionEvent "tool_result" .none .none (text.orElse .none)
      (if isError.truthy then some 1 else none)).map ([·])

def blockEvents (env : StreamEnv N F) (block : PyValue N) : Except PyError (List SessionEvent) :=
  if !block.isDict then .ok []
  else do
    let btype ← block.get "type"
    if btype.isText "text" then textBlock block
    else if btype.isText "tool_use" then toolUseBlock env block
    else if btype.isText "tool_result" then toolResultBlock block
    else return []

/-- The branch of `assistant` and `user`. -/
def messageEvents (env : StreamEnv N F) (ev : PyValue N) : Except PyError (List SessionEvent) := do
  let msg := (← ev.get "message").orEmpty
  let items ← iterate ((← msg.get "content").orElse (.list []))
  (items.mapM (blockEvents env)).map List.flatten

/-- The branch of `result`. -/
def resultEvent (s : SessionState N) (ev : PyValue N) : Except PyError (SessionState N) := do
  let usage := (← ev.get "usage").orEmpty
  let cost ← ev.get "total_cost_usd"
  let inTok ← usage.get "input_tokens"
  let outTok ← usage.get "output_tokens"
  let result ← ev.get "result"
  let event ← sliceTo 2000 (result.orElse (.text [])) >>= fun text =>
    sessionEvent "result" .none .none text none
  return { s with cost, inTok, outTok, events := s.events ++ [event] }

/-- A round of the loop of `normalise_session`. -/
def readEvent (env : StreamEnv N F) (s : SessionState N) (ev : PyValue N) :
    Except PyError (SessionState N) :=
  if !ev.isDict then .ok s
  else do
    let sessionId ← s.sessionId.orGet ev "session_id"
    let etype ← ev.get "type"
    if etype.isText "system" then
      return { s with sessionId, model := ← s.model.orGet ev "model" }
    else if etype.isText "assistant" || etype.isText "user" then
      return { s with sessionId, events := s.events ++ (← messageEvents env ev) }
    else if etype.isText "result" then resultEvent { s with sessionId } ev
    else return { s with sessionId }

def deniedEvent (d : ToolDenial) : SessionEvent :=
  { kind := "tool_denied", tool := some d.tool, target := d.target }

def deferredEvent (d : DeferredToolUse) : SessionEvent :=
  { kind := "tool_deferred", tool := some d.tool, target := d.target }

def normaliseSession (env : StreamEnv N F) (stdout : String) :
    Except PyError (HarnessSession F) := do
  let s ← (splitlines (strip stdout).toList).foldlM
    (fun s line => readLine env (readEvent env) s (strip (String.ofList line))) {}
  let denials ← normaliseDenials env stdout
  let deferred ← normaliseDeferral env stdout
  harnessSession env .claudeCode s.sessionId s.model
    (s.events ++ denials.map deniedEvent ++ (deferred.map deferredEvent).toList) s.inTok s.outTok
    s.cost

/-- `block.get("name") or "tool"`. -/
def blockName (block : PyValue N) : PyValue N :=
  (block.field "name").orElse (.text (pyStr "tool"))

/-- `block.get("input") or {}`. -/
def blockInput (block : PyValue N) : PyValue N := (block.field "input").orEmpty

def kindOf (name : PyValue N) : String × String :=
  match toolMap name with
  | .ok kind => kind
  | .error _ => ("tool_call", "")

def contentOf (content : PyValue N) : PyValue N :=
  match content with
  | .list items => .text ([0x20].intercalate
      (((items.filter isDict).map textOrEmpty).map fun v => v.text?.getD []))
  | v => v

def Joins (content : PyValue N) : Prop :=
  ∀ c ∈ itemsOf content, content.isList = true → c.isDict = true → (textOrEmpty c).text?.isSome = true

def resultText (content : PyValue N) : PyValue N :=
  (clip 2000 ((contentOf content).orElse (.text []))).orElse .none

structure BlockReads (env : StreamEnv N F) (block : PyValue N) : Prop where
  text : hasField block "type" "text" = true → (block.field "text").truthy = true →
    (block.field "text").isStr = true
  name : hasField block "type" "tool_use" = true → (blockName block).isStr = true
  target : hasField block "type" "tool_use" = true →
    Targets env (kindOf (blockName block)).2 (blockInput block)
  joins : hasField block "type" "tool_result" = true → Joins (block.field "content")
  content : hasField block "type" "tool_result" = true →
    clipsOrFalse 2000 (contentOf (block.field "content")) = true

def useOf (env : StreamEnv N F) (block : PyValue N) : SessionEvent :=
  eventOf (kindOf (blockName block)).1 (blockName block)
    (targetValue env (kindOf (blockName block)).2 (blockInput block)) .none none

def resultBlockOf (block : PyValue N) : SessionEvent :=
  eventOf "tool_result" .none .none (resultText (block.field "content"))
    (if (block.field "is_error").truthy then some 1 else none)

def newOf (env : StreamEnv N F) (block : PyValue N) : List SessionEvent :=
  if hasField block "type" "text" then
    if (block.field "text").truthy then
      [eventOf "model_turn" .none .none (block.field "text") none]
    else []
  else if hasField block "type" "tool_use" then [useOf env block]
  else if hasField block "type" "tool_result" then [resultBlockOf block]
  else []

theorem isOptionalStr_of_truthy {v : PyValue N} (h : v.truthy = true) :
    v.isOptionalStr = v.isStr := by
  cases v with
  | none => exact nomatch h
  | _ => rfl

theorem isOptionalStr_blockName (block : PyValue N) :
    (blockName block).isOptionalStr = (blockName block).isStr := by
  rw [blockName, orElse]
  split
  · rename_i h
    exact isOptionalStr_of_truthy h
  · rfl

theorem returns_textBlock {block : PyValue N} (hblock : block.isDict = true) :
    Returns (textBlock block)
      ((block.field "text").truthy = true → (block.field "text").isStr = true)
      (if (block.field "text").truthy then
        [eventOf "model_turn" .none .none (block.field "text") none] else []) := by
  refine Returns.congr (.bind (returns_get block "text") (.ite (.map (returns_sessionEvent
    "model_turn" PyValue.none PyValue.none (block.field "text") none) ([·])) (.pure []))) ?_
    fun _ => rfl
  constructor
  · rintro ⟨-, htext, -⟩ h
    rw [← isOptionalStr_of_truthy h]
    exact (htext h).2.2
  · intro htext
    refine ⟨hblock, fun h => ⟨rfl, rfl, ?_⟩, fun _ => trivial⟩
    rw [isOptionalStr_of_truthy h]
    exact htext h

omit [PyNumber N] in
theorem returns_toolMap (name : PyValue N) :
    Returns (toolMap name) ((toolMap name).isOk = true) (kindOf name) := by
  rw [kindOf]
  cases toolMap name with
  | ok kind => exact Returns.congr (.pure kind) (iff_of_true trivial rfl) fun _ => rfl
  | error e => exact Returns.raises rfl Bool.false_ne_true

omit [PyNumber N] in
theorem isOk_toolMap_of_isStr {name : PyValue N} (h : name.isStr = true) :
    (toolMap name).isOk = true := by
  cases name with
  | text s => rfl
  | _ => exact nomatch h

theorem returns_toolUseBlock {block : PyValue N} (hblock : block.isDict = true) :
    Returns (toolUseBlock env block)
      ((blockName block).isStr = true ∧
        Targets env (kindOf (blockName block)).2 (blockInput block))
      [useOf env block] := by
  refine Returns.congr (.bind (returns_get block "name") (.bind (returns_toolMap (blockName block))
    (.bind (returns_get block "input") (.bind (returns_targetField env
      (kindOf (blockName block)).2 (blockInput block)) (.map (returns_sessionEvent _ _ _ _ _)
        ([·])))))) ?_ fun _ => rfl
  have hstr := isOptionalStr_blockName block
  constructor
  · rintro ⟨-, -, -, htarget, hname, htext, -⟩
    exact ⟨hstr.symm.trans hname, htarget.1, htarget.2, htext⟩
  · rintro ⟨hname, hdumped, hdict, htext⟩
    exact ⟨hblock, isOk_toolMap_of_isStr hname, hblock, ⟨hdumped, hdict⟩, hstr.trans hname, htext,
      rfl⟩

omit [PyNumber N] in
theorem returns_joinedContent (content : PyValue N) :
    Returns (joinedContent content) (Joins content) (contentOf content) := by
  cases content with
  | list items =>
    refine Returns.congr (.map (Returns.mapM OpenCode.returns_asText _) _) ?_ fun _ => rfl
    constructor
    · intro h c hc _ hdict
      exact h (textOrEmpty c) (List.mem_map.mpr ⟨c, List.mem_filter.mpr ⟨hc, hdict⟩, rfl⟩)
    · rintro h v hv
      obtain ⟨c, hc, rfl⟩ := List.mem_map.mp hv
      obtain ⟨hmem, hdict⟩ := List.mem_filter.mp hc
      exact h c hmem rfl hdict
  | _ =>
    exact Returns.congr (.pure _) (iff_of_true trivial fun c _ h _ => nomatch h)
      fun _ => rfl

/-- **An event with a slice of a value, or none where it is empty.** -/
theorem returns_slicedOrNone (kind : String) (n : ℕ) {v : PyValue N} (hv : v.isList = false)
    (exitCode : Option ℤ) :
    Returns (sliceTo n v >>= fun text =>
        sessionEvent kind .none .none (text.orElse .none) exitCode) (clips n v = true)
      (eventOf kind .none .none ((clip n v).orElse .none) exitCode) := by
  cases v with
  | text s =>
    refine Returns.congr (.bind (.pure (PyValue.text (s.take n))) (returns_sessionEvent kind
      PyValue.none PyValue.none _ exitCode)) ?_ fun _ => rfl
    have hkept : ((PyValue.text (s.take n) : PyValue N).orElse .none).isOptionalStr =
        encodable (s.take n) := by
      rw [orElse]
      cases s.take n <;> rfl
    rw [hkept]
    exact ⟨fun h => h.2.2.2, fun h => ⟨trivial, rfl, rfl, h⟩⟩
  | list items => cases hv
  | _ => exact Returns.raises rfl Bool.false_ne_true

theorem isList_contentOf (content : PyValue N) :
    ((contentOf content).orElse (.text [])).isList = false := by
  rw [orElse]
  cases content with
  | list items =>
    split <;> rfl
  | _ => split <;> rfl

theorem returns_toolResultBlock {block : PyValue N} (hblock : block.isDict = true) :
    Returns (toolResultBlock block)
      (Joins (block.field "content") ∧
        clipsOrFalse 2000 (contentOf (block.field "content")) = true)
      [resultBlockOf block] := by
  have hmade := (returns_slicedOrNone "tool_result" 2000 (isList_contentOf (block.field "content"))
    (if (block.field "is_error").truthy then some 1 else none)).map ([·])
  refine Returns.congr (.bind (returns_get block "content") (.bind (returns_joinedContent _)
    (.bind (returns_get block "is_error") hmade))) ?_ fun _ => rfl
  constructor
  · rintro ⟨-, hjoins, -, hclips⟩
    exact ⟨hjoins, hclips⟩
  · rintro ⟨hjoins, hclips⟩
    exact ⟨hblock, hjoins, hblock, hclips⟩

theorem returns_blockEvents (block : PyValue N) :
    Returns (blockEvents env block) (block.isDict = true → BlockReads env block)
      (if block.isDict then newOf env block else []) := by
  by_cases hblock : block.isDict = true
  · rw [blockEvents, if_neg (by simp [hblock]), if_pos hblock]
    refine Returns.congr (.bind (returns_get block "type") (.ite (returns_textBlock hblock)
      (.ite (returns_toolUseBlock env hblock) (.ite (returns_toolResultBlock hblock) (.pure []))))) ?_
      fun _ => rfl
    constructor
    · rintro ⟨-, htext, hrest⟩ -
      have huse : hasField block "type" "tool_use" = true → _ := fun h =>
        (hrest (not_isText h (by decide))).1 h
      have hresult : hasField block "type" "tool_result" = true → _ := fun h =>
        ((hrest (not_isText h (by decide))).2 (not_isText h (by decide))).1 h
      exact ⟨htext, fun h => (huse h).1, fun h => (huse h).2, fun h => (hresult h).1,
        fun h => (hresult h).2⟩
    · intro h
      have hreads := h hblock
      exact ⟨hblock, hreads.text, fun _ => ⟨fun h => ⟨hreads.name h, hreads.target h⟩, fun _ =>
        ⟨fun h => ⟨hreads.joins h, hreads.content h⟩, fun _ => trivial⟩⟩⟩
  · rw [blockEvents, if_pos (by simpa using hblock), if_neg hblock]
    exact Returns.congr (.pure []) (iff_of_true trivial fun h => absurd h hblock) fun _ => rfl

/-- `msg.get("content") or []`, of the message of an event. -/
def blocksOf (ev : PyValue N) : PyValue N :=
  ((ev.field "message").orEmpty.field "content").orElse (.list [])

structure MessageReads (env : StreamEnv N F) (ev : PyValue N) : Prop where
  message : (ev.field "message").orEmpty.isDict = true
  iterable : isIterable (blocksOf ev) = true
  blocks : ∀ block ∈ itemsOf (blocksOf ev), block.isDict = true → BlockReads env block

def messageOf (env : StreamEnv N F) (ev : PyValue N) : List SessionEvent :=
  ((itemsOf (blocksOf ev)).map fun block => if block.isDict then newOf env block else []).flatten

theorem returns_messageEvents {ev : PyValue N} (hev : ev.isDict = true) :
    Returns (messageEvents env ev) (MessageReads env ev) (messageOf env ev) := by
  refine Returns.congr (.bind (returns_get ev "message") (.bind (returns_get _ "content")
    (.bind (returns_iterate (blocksOf ev)) (.map (Returns.mapM (returns_blockEvents env) _)
      List.flatten)))) ?_ fun _ => rfl
  constructor
  · rintro ⟨-, hmessage, hiterable, hblocks⟩
    exact ⟨hmessage, hiterable, hblocks⟩
  · rintro ⟨hmessage, hiterable, hblocks⟩
    exact ⟨hev, hmessage, hiterable, hblocks⟩

/-- A `result` event can be read. -/
structure ResultReads (ev : PyValue N) : Prop where
  usage : (usageOf ev).isDict = true
  result : clipsOrFalse 2000 (ev.field "result") = true

/-- The event of a `result` event. -/
def resultEventOf (ev : PyValue N) : SessionEvent :=
  eventOf "result" .none .none (clip 2000 ((ev.field "result").orElse (.text []))) none

/-- The state after a `result` event. -/
def afterResult (s : SessionState N) (ev : PyValue N) : SessionState N :=
  { s with
    cost := ev.field "total_cost_usd"
    inTok := (usageOf ev).field "input_tokens"
    outTok := (usageOf ev).field "output_tokens"
    events := s.events ++ [resultEventOf ev] }

theorem returns_resultEvent (s : SessionState N) {ev : PyValue N} (hev : ev.isDict = true) :
    Returns (resultEvent s ev) (ResultReads ev) (afterResult s ev) := by
  refine Returns.congr (.bind (returns_get ev "usage") (.bind (returns_get ev "total_cost_usd")
    (.bind (returns_get (usageOf ev) "input_tokens") (.bind (returns_get (usageOf ev) "output_tokens")
      (.bind (returns_get ev "result") (.bind (returns_sliced "result" 2000 _ PyValue.none
        PyValue.none none rfl rfl) (.pure _))))))) ?_ fun _ => rfl
  constructor
  · rintro ⟨-, -, husage, -, -, hresult, -⟩
    exact ⟨husage, hresult⟩
  · rintro ⟨husage, hresult⟩
    exact ⟨hev, hev, husage, husage, hev, hresult, trivial⟩

def isMessage (ev : PyValue N) : Bool :=
  hasField ev "type" "assistant" || hasField ev "type" "user"

/-- A round of `normalise_session` returns. -/
structure Reads (env : StreamEnv N F) (ev : PyValue N) : Prop where
  message : isMessage ev = true → MessageReads env ev
  result : hasField ev "type" "result" = true → ResultReads ev

def eventsIn (env : StreamEnv N F) (ev : PyValue N) : List SessionEvent :=
  if isMessage ev then messageOf env ev
  else if hasField ev "type" "result" then [resultEventOf ev]
  else []

/-- The state of `normalise_session` after an event. -/
def read (env : StreamEnv N F) (s : SessionState N) (ev : PyValue N) : SessionState N where
  events := s.events ++ eventsIn env ev
  sessionId := s.sessionId.orElse (ev.field "session_id")
  model := if hasField ev "type" "system" then s.model.orElse (ev.field "model") else s.model
  cost := if hasField ev "type" "result" then ev.field "total_cost_usd" else s.cost
  inTok := if hasField ev "type" "result" then (usageOf ev).field "input_tokens" else s.inTok
  outTok := if hasField ev "type" "result" then (usageOf ev).field "output_tokens" else s.outTok

theorem returns_readEvent (s : SessionState N) (ev : PyValue N) (hev : ev.isDict = true) :
    Returns (readEvent env s ev) (Reads env ev) (read env s ev) := by
  rw [readEvent, if_neg (by simp [hev])]
  refine Returns.congr (.bind (returns_orGet hev "session_id") (.bind (returns_get ev "type")
    (.ite (.bind (returns_orGet hev "model") (.pure _)) (.ite (.bind (returns_messageEvents env hev)
      (.pure _)) (.ite (returns_resultEvent _ hev) (.pure _)))))) ?_ fun _ => ?_
  · constructor
    · rintro ⟨-, -, -, hrest⟩
      refine ⟨fun h => ?_, fun h => ?_⟩
      · have hsystem : ¬hasField ev "type" "system" = true :=
          (Bool.or_eq_true_iff.mp h).elim (not_isText · (by decide)) (not_isText · (by decide))
        exact ((hrest hsystem).1 h).1
      · have hmessage : ¬isMessage ev = true := fun hboth =>
          (Bool.or_eq_true_iff.mp hboth).elim (not_isText h (by decide)) (not_isText h (by decide))
        exact ((hrest (not_isText h (by decide))).2 hmessage).1 h
    · rintro ⟨hmessage, hresult⟩
      exact ⟨trivial, hev, fun _ => ⟨trivial, trivial⟩, fun _ => ⟨fun h => ⟨hmessage h, trivial⟩,
        fun _ => ⟨hresult, fun _ => trivial⟩⟩⟩
  · change (if hasField ev "type" "system" = true then _ else if isMessage ev = true then _
      else if hasField ev "type" "result" = true then _ else _) = _
    unfold read eventsIn
    by_cases hsystem : hasField ev "type" "system" = true
    · have hresult : ¬hasField ev "type" "result" = true := not_isText hsystem (by decide)
      have hmessage : ¬isMessage ev = true := fun hboth =>
        (Bool.or_eq_true_iff.mp hboth).elim (not_isText hsystem (by decide))
          (not_isText hsystem (by decide))
      simp only [if_pos hsystem, if_neg hmessage, if_neg hresult, List.append_nil]
    · by_cases hmessage : isMessage ev = true
      · have hresult : ¬hasField ev "type" "result" = true :=
          (Bool.or_eq_true_iff.mp hmessage).elim (not_isText · (by decide))
            (not_isText · (by decide))
        simp only [if_neg hsystem, if_pos hmessage, if_neg hresult]
      · by_cases hresult : hasField ev "type" "result" = true
        · simp only [if_neg hsystem, if_neg hmessage, if_pos hresult, afterResult]
        · simp only [if_neg hsystem, if_neg hmessage, if_neg hresult, List.append_nil]

def sessionIdOf (events : List (PyValue N)) : PyValue N :=
  firstTruthy (events.map (·.field "session_id"))

/-- The first model in the `system` events that is true, and else the last. -/
def modelOf (events : List (PyValue N)) : PyValue N :=
  firstTruthy ((events.filter (hasField · "type" "system")).map (·.field "model"))

theorem foldl_read (events : List (PyValue N)) (s : SessionState N) (payload : PyValue N)
    (hcost : s.cost = payload.field "total_cost_usd")
    (hin : s.inTok = (usageOf payload).field "input_tokens")
    (hout : s.outTok = (usageOf payload).field "output_tokens") :
    events.foldl (read env) s =
      { events := s.events ++ events.flatMap (eventsIn env)
        sessionId := (events.map (·.field "session_id")).foldl orElse s.sessionId
        model := ((events.filter (hasField · "type" "system")).map (·.field "model")).foldl orElse
          s.model
        cost := (events.foldl latest payload).field "total_cost_usd"
        inTok := (usageOf (events.foldl latest payload)).field "input_tokens"
        outTok := (usageOf (events.foldl latest payload)).field "output_tokens" } := by
  induction events generalizing s payload with
  | nil =>
    rw [List.foldl_nil, List.foldl_nil, ← hcost, ← hin, ← hout]
    simp
  | cons ev events ih =>
    have hnext : ∀ key, (latest payload ev).field key =
        if hasField ev "type" "result" then ev.field key else payload.field key := by
      intro key
      rw [latest]
      split <;> rfl
    have husage : ∀ key, (usageOf (latest payload ev)).field key =
        if hasField ev "type" "result" then (usageOf ev).field key
        else (usageOf payload).field key := by
      intro key
      rw [latest]
      split <;> rfl
    rw [List.foldl_cons, List.foldl_cons, ih (read env s ev) (latest payload ev)
      (by rw [hnext, read, hcost]) (by rw [husage, read, hin]) (by rw [husage, read, hout])]
    by_cases hsystem : hasField ev "type" "system" = true
    · simp [read, hsystem]
    · simp [read, hsystem]

/-- `normalise_session` reads the events, and everything after them. -/
structure SessionReads (env : StreamEnv N F) (events : List (PyValue N)) : Prop where
  reads : ∀ ev ∈ events, Reads env ev
  defers : ∀ ev ∈ events, Defers env ev
  call : (deferralOf env events).deferred.truthy = true → CallReads env (deferralOf env events)
  model : (modelOf events).isOptionalStr = true
  report : Reportable env (sessionIdOf events) ((payloadOf events).field "total_cost_usd")
    ((usageOf (payloadOf events)).field "input_tokens")
    ((usageOf (payloadOf events)).field "output_tokens")

def sessionOf (env : StreamEnv N F) (events : List (PyValue N)) : HarnessSession F where
  harness := .claudeCode
  sessionId := (sessionIdOf events).text?.map decode
  model := (modelOf events).text?.map decode
  events := events.flatMap (eventsIn env) ++ (denialsOf env events).map deniedEvent ++
    ((deferral env events).map deferredEvent).toList
  inputTokens := (reportOf env (payloadOf events)).inputTokens
  outputTokens := (reportOf env (payloadOf events)).outputTokens
  costUsd := (reportOf env (payloadOf events)).costUsd

/-- **When `normalise_session` returns, and what.** -/
theorem returns_normaliseSession (stdout : String) :
    Returns (normaliseSession env stdout)
      (OnlyObjects env stdout ∧ AllDeny env (events env stdout) ∧
        SessionReads env (events env stdout))
      (sessionOf env (events env stdout)) := by
  have hloop := returns_guarded env (fun _ _ hv => if_pos (by simpa using hv)) (returns_readEvent env)
    {} stdout
  rw [throughout_const, foldl_read env _ {} .none rfl rfl rfl, foldl_orElse, foldl_orElse,
    foldl_latest, List.nil_append] at hloop
  rw [normaliseSession, foldlM_readLine, fullLines_strip]
  refine Returns.congr (.bind hloop (.bind (returns_normaliseDenials env stdout)
    (.bind (returns_normaliseDeferral env stdout) (returns_harnessSession env .claudeCode _ _ _ _ _
      _)))) ?_ fun _ => rfl
  constructor
  · rintro ⟨⟨-, hreads⟩, ⟨hlines, hdenies⟩, ⟨-, hdefers, hcall⟩, hmodel, hreport⟩
    exact ⟨hlines, hdenies, hreads, hdefers, hcall, hmodel, hreport⟩
  · rintro ⟨hlines, hdenies, hreads, hdefers, hcall, hmodel, hreport⟩
    exact ⟨⟨hlines.loadable, hreads⟩, ⟨hlines, hdenies⟩, ⟨hlines.loadable, hdefers, hcall⟩, hmodel,
      hreport⟩

end ClaudeCode

end Kroker.Stream
