import Kroker.Harness.Patterns
import Kroker.Library.Except

/-!
# Containment of tool calls

The policy of `harness/containment.py` and the hook of `harness/hook.py` that asks it about every
tool call.  A policy is a list of rules; `evaluate` returns the first active rule that matches the
call, and the hook denies the call, hands it to a human, or lets it through.

The hook reads the file system (a path may be a symbolic link), `urlparse` and a digest through
`HookEnv`; a URL that `urlparse` refuses makes it raise, and `hookOutput` denies then.

## What a deny rule guarantees

An author of rules may expect a deny to win over an escalation.  It does not: the list is read in
order, so a call that an escalation claims first is for a human to decide, also where a later rule
denies it.
-/

namespace Kroker

/-- What a matched rule does. -/
inductive RuleAction where
  | deny
  | escalate
  deriving DecidableEq

inductive RulePhase where
  | always
  | repair
  deriving DecidableEq

inductive Predicate where
  | pathOutsideWorktree
  | pathMatches
  | commandMatches
  | hostNotAllowlisted
  deriving DecidableEq

structure ContainmentRule where
  id : String
  action : RuleAction := .deny
  phase : RulePhase := .always
  tools : List String
  predicate : Predicate
  reason : String
  patterns : List String := []
  allowHosts : List String := []

structure ContainmentPolicy where
  rules : List ContainmentRule

inductive InputValue where
  | text (s : String)
  | other (json : String)

abbrev ToolInput := Dict InputValue

structure Verdict where
  allow : Bool
  ruleId : Option String := none
  reason : Option String := none
  action : RuleAction := .deny

/-- What the hook reads of its surroundings. -/
structure HookEnv where
  /-- The components of `Path(path).resolve()`, if it can be resolved. -/
  resolve : String → Option (List String)
  /-- `urlparse(url).hostname`; an error is what it raises. -/
  hostname : String → Except String (Option String)
  /-- `digest_tool_input`. -/
  digest : ToolInput → String

/-! ## 1. Matching a rule -/

def ToolInput.text? (input : ToolInput) (key : String) : Option String :=
  match (input[key]? : Option InputValue) with
  | some (.text s) => some s
  | _ => none

/-- `target_of`: what a denial is about. -/
def targetOf (input : ToolInput) : Option String :=
  ["file_path", "path", "notebook_path", "command", "url"].findSome? fun key =>
    (input.text? key).filter (· ≠ "")

namespace HookEnv

variable (env : HookEnv)

/-- `_abs_under`: whether a path resolves inside the worktree; one that does not resolve is
outside. -/
def absUnder (path worktree : String) : Bool :=
  match env.resolve worktree with
  | none => false
  | some root =>
    let full := if path.toList.head? = some '/' then path
      else "/" ++ joinWith "/" (root ++ [path])
    match env.resolve full with
    | none => false
    | some parts => root.isPrefixOf parts

def hostsIn (input : ToolInput) : Except String (List String) := do
  let url := (input.text? "url").toList
  let command := (input.text? "command").toList.flatMap fun c =>
    findUrls c.toList.length c.toList
  let hosts ← (url ++ command).mapM env.hostname
  return (hosts.map (·.getD "")).filter (· ≠ "")

def hostAllowed (host : String) (allowHosts : List String) : Bool :=
  allowHosts.any fun a => host.toLower = a.toLower ||
    ('.' :: a.toLower.toList).isSuffixOf host.toLower.toList

def ruleDenies (rule : ContainmentRule) (tool : String) (input : ToolInput) (worktree : String) :
    Except String Bool :=
  if tool ∉ rule.tools then .ok false
  else match rule.predicate with
    | .pathOutsideWorktree =>
      match targetOf input with
      | none => .ok false
      | some target => .ok (!env.absUnder target worktree)
    | .pathMatches =>
      match targetOf input with
      | none => .ok false
      | some target => .ok (rule.patterns.any (fnmatch (asPosix target)))
    | .commandMatches =>
      match input.text? "command" with
      | none => .ok false
      | some command => .ok (rule.patterns.any (fnmatch (normCmd command)))
    | .hostNotAllowlisted => do
      let hosts ← env.hostsIn input
      return hosts.any fun h => !hostAllowed h rule.allowHosts

end HookEnv

/-- Whether a rule is looked at. -/
def ContainmentRule.active (rule : ContainmentRule) (repair : Bool) : Bool :=
  rule.phase = .always || repair

def ContainmentRule.verdict (rule : ContainmentRule) : Verdict where
  allow := false
  ruleId := some rule.id
  reason := some rule.reason
  action := rule.action

/-- The loop of `evaluate`. -/
def evaluateRules (denies : ContainmentRule → Except String Bool) (repair : Bool) :
    List ContainmentRule → Except String Verdict
  | [] => .ok { allow := true }
  | rule :: rules =>
    if rule.active repair then do
      if ← denies rule then return rule.verdict
      evaluateRules denies repair rules
    else evaluateRules denies repair rules

def HookEnv.evaluate (env : HookEnv) (policy : ContainmentPolicy) (tool : String)
    (input : ToolInput) (worktree : String) (repair : Bool) : Except String Verdict :=
  evaluateRules (fun rule => env.ruleDenies rule tool input worktree) repair policy.rules

/-! ## 2. The hook -/

/-- One human decision about one suspended call. -/
structure ToolGrant where
  toolUseId : String
  tool : String
  inputDigest : String
  ruleId : String
  approved : Bool
  reason : String := ""

inductive Permission where
  | allow
  | deny
  | defer

structure HookDecision where
  permission : Permission
  reason : Option String := none

/-- What the CLI hands to the hook.  `toolName` is `none` when the name is no text, and `toolInput`
when the input is no object; a call without an id has the empty one.  `transcript` has, for each
line of the transcript, the ids of its `tool_use` blocks, if it has content blocks. -/
structure HookPayload where
  toolName : Option String
  toolInput : Option ToolInput
  toolUseId : String
  transcript : Option (List (Option (List String)))

def HookEnv.matchGrant (env : HookEnv) (grants : List ToolGrant) (tool toolUseId : String)
    (input : ToolInput) : Option ToolGrant :=
  if toolUseId = "" then none
  else grants.find? fun g =>
    g.toolUseId = toolUseId && g.tool = tool && g.inputDigest = env.digest input

/-- `sibling_count`: how many calls share the message of this one. -/
def siblingCount (transcript : Option (List (Option (List String)))) (toolUseId : String) :
    Option ℕ :=
  if toolUseId = "" then none
  else transcript.bind fun lines => lines.reverse.findSome? fun line =>
    line.bind fun blocks => if toolUseId ∈ blocks then some blocks.length else none

def formatReason (ruleId reason : String) : String := "[" ++ ruleId ++ "] " ++ reason

def escalationUnavailable : String := "escalation unavailable"

/-- `f"approved: {grant.reason}" if grant.reason else "approved"`, and its like. -/
def withReason (word reason : String) : String :=
  if reason = "" then word else word ++ ": " ++ reason

def HookEnv.escalate (env : HookEnv) (payload : HookPayload) (tool : String) (input : ToolInput)
    (ruleId reason : String) (grants : List ToolGrant) : HookDecision :=
  match env.matchGrant grants tool payload.toolUseId input with
  | some grant =>
    if grant.approved then
      { permission := .allow
        reason := formatReason ruleId (withReason "approved" grant.reason) }
    else
      { permission := .deny
        reason := formatReason ruleId (withReason "rejected" grant.reason) }
  | none =>
    match siblingCount payload.transcript payload.toolUseId with
    | none =>
      { permission := .deny
        reason := formatReason ruleId (escalationUnavailable ++ " (transcript): " ++ reason) }
    | some siblings =>
      if 1 < siblings then
        { permission := .deny
          reason := formatReason ruleId (escalationUnavailable ++ " (batched): " ++ reason) }
      else
        { permission := .defer
          reason := formatReason ruleId reason }

/-- `decide`. -/
def HookEnv.decideCall (env : HookEnv) (payload : HookPayload) (policy : ContainmentPolicy)
    (worktree : String) (grants : List ToolGrant) (repair : Bool) : Except String HookDecision :=
  match payload.toolName, payload.toolInput with
  | some tool, some input => do
    let verdict ← env.evaluate policy tool input worktree repair
    if verdict.allow then return { permission := .allow }
    let ruleId := orElseText verdict.ruleId "unknown"
    let reason := orElseText verdict.reason "denied by containment policy"
    match verdict.action with
    | .escalate => return env.escalate payload tool input ruleId reason grants
    | .deny => return { permission := .deny, reason := formatReason ruleId reason }
  | _, _ => .ok { permission := .allow }

/-- What the hook writes: it fails closed. -/
def hookOutput : Except String HookDecision → HookDecision
  | .ok d => d
  | .error e =>
    { permission := .deny
      reason := "[containment-error] containment hook failed: " ++ e }

/-! ## 3. The first rule that matches -/

section Rules

variable {denies : ContainmentRule → Except String Bool} {repair : Bool}
  {rules before after : List ContainmentRule} {rule : ContainmentRule} {v : Verdict}

theorem evaluateRules_append (hbefore : ∀ q ∈ before, q.active repair → denies q = .ok false) :
    evaluateRules denies repair (before ++ after) = evaluateRules denies repair after := by
  induction before with
  | nil => rfl
  | cons q before ih =>
    have hrest := ih fun r hr => hbefore r (List.mem_cons_of_mem _ hr)
    rw [List.cons_append, evaluateRules]
    split
    · rename_i hactive
      rw [hbefore q List.mem_cons_self hactive]
      exact hrest
    · exact hrest

theorem evaluateRules_cons (hactive : rule.active repair) (hdenies : denies rule = .ok true) :
    evaluateRules denies repair (rule :: after) = .ok rule.verdict := by
  rw [evaluateRules, if_pos hactive, hdenies]
  rfl

def FirstMatch (denies : ContainmentRule → Except String Bool) (repair : Bool)
    (rules : List ContainmentRule) (v : Verdict) : Prop :=
  (v = { allow := true } ∧ ∀ q ∈ rules, q.active repair → denies q = .ok false) ∨
    ∃ before rule after, rules = before ++ rule :: after ∧ rule.active repair ∧
      denies rule = .ok true ∧ v = rule.verdict ∧
      ∀ q ∈ before, q.active repair → denies q = .ok false

theorem FirstMatch.cons (h : FirstMatch denies repair rules v)
    (hrule : rule.active repair → denies rule = .ok false) :
    FirstMatch denies repair (rule :: rules) v := by
  have hcons : ∀ {l : List ContainmentRule},
      (∀ q ∈ l, q.active repair → denies q = .ok false) →
      ∀ q ∈ rule :: l, q.active repair → denies q = .ok false := fun hl q hq => by
    rcases List.mem_cons.mp hq with rfl | hq
    · exact hrule
    · exact hl q hq
  rcases h with ⟨hv, hnone⟩ | ⟨before, r, after, hrules, hactive, hdenies, hv, hbefore⟩
  · exact Or.inl ⟨hv, hcons hnone⟩
  · exact Or.inr ⟨rule :: before, r, after, by rw [hrules, List.cons_append], hactive, hdenies, hv,
      hcons hbefore⟩

/-- **An evaluation that answers returns the verdict of the first match.** -/
theorem firstMatch_of_evaluateRules (h : evaluateRules denies repair rules = .ok v) :
    FirstMatch denies repair rules v := by
  induction rules with
  | nil =>
    obtain rfl := Except.ok.inj h
    exact Or.inl ⟨rfl, nofun⟩
  | cons rule rules ih =>
    rw [evaluateRules] at h
    split at h
    · rename_i hactive
      obtain ⟨matched, hmatched, h⟩ := bind_eq_ok.mp h
      cases matched with
      | true =>
        obtain rfl := Except.ok.inj h
        exact Or.inr ⟨[], rule, rules, rfl, hactive, hmatched, rfl,
          nofun⟩
      | false => exact (ih h).cons fun _ => hmatched
    · rename_i hactive
      exact (ih h).cons fun h => absurd h hactive

theorem not_denies_of_allow (h : evaluateRules denies repair rules = .ok v) (hallow : v.allow) :
    ∀ q ∈ rules, q.active repair → denies q = .ok false := by
  rcases firstMatch_of_evaluateRules h with ⟨-, hnone⟩ | ⟨before, rule, after, -, -, -, rfl, -⟩
  · exact hnone
  · exact nomatch hallow

theorem evaluateRules_of_none (h : ∀ q ∈ rules, q.active repair → denies q = .ok false) :
    evaluateRules denies repair rules = .ok { allow := true } := by
  have happend : evaluateRules denies repair (rules ++ []) = evaluateRules denies repair [] :=
    evaluateRules_append h
  rwa [List.append_nil] at happend

end Rules

/-! ## 4. What the hook lets through -/

/-- An approved grant for exactly this call. -/
def HookEnv.Granted (env : HookEnv) (grants : List ToolGrant) (tool toolUseId : String)
    (input : ToolInput) : Prop :=
  toolUseId ≠ "" ∧ ∃ g ∈ grants, g.approved ∧ g.toolUseId = toolUseId ∧ g.tool = tool ∧
    g.inputDigest = env.digest input

variable {env : HookEnv} {policy : ContainmentPolicy} {worktree tool : String} {input : ToolInput}
  {payload : HookPayload} {grants : List ToolGrant} {repair : Bool}

theorem granted_of_escalate {ruleId reason : String}
    (h : (env.escalate payload tool input ruleId reason grants).permission = .allow) :
    env.Granted grants tool payload.toolUseId input := by
  unfold HookEnv.escalate at h
  split at h
  · rename_i grant hmatch
    rw [HookEnv.matchGrant] at hmatch
    split at hmatch
    · exact nomatch hmatch
    · rename_i hid
      have hfound := List.find?_some hmatch
      simp only [Bool.and_eq_true, decide_eq_true_eq] at hfound
      obtain ⟨⟨huse, htool⟩, hdigest⟩ := hfound
      split at h
      · rename_i happroved
        exact ⟨hid, grant, List.mem_of_find?_eq_some hmatch, happroved, huse, htool, hdigest⟩
      · exact nomatch h
  · split at h
    · exact nomatch h
    · split at h
      · exact nomatch h
      · exact nomatch h

theorem allow_of_hookOutput (htool : payload.toolName = some tool)
    (hinput : payload.toolInput = some input)
    (h : (hookOutput (env.decideCall payload policy worktree grants repair)).permission = .allow) :
    (∃ v, env.evaluate policy tool input worktree repair = .ok v ∧ v.allow) ∨
      env.Granted grants tool payload.toolUseId input := by
  unfold HookEnv.decideCall at h
  rw [htool, hinput] at h
  dsimp only at h
  cases hverdict : env.evaluate policy tool input worktree repair with
  | error e =>
    rw [hverdict] at h
    exact nomatch h
  | ok v =>
    rw [hverdict] at h
    by_cases hallow : v.allow
    · exact Or.inl ⟨v, rfl, hallow⟩
    · refine Or.inr ?_
      simp only [bind, Except.bind, hallow, Bool.false_eq_true, if_false] at h
      split at h
      · exact granted_of_escalate h
      · exact nomatch h

theorem evaluate_of_repair {v : Verdict}
    (h : env.evaluate policy tool input worktree true = .ok v) (hallow : v.allow) :
    env.evaluate policy tool input worktree false = .ok { allow := true } := by
  refine evaluateRules_of_none fun q hq hactive => not_denies_of_allow h hallow q hq ?_
  rw [ContainmentRule.active, Bool.or_true]

/-- **What a containment policy guarantees.** -/
structure Contained (env : HookEnv) (policy : ContainmentPolicy) (worktree : String) : Prop where
  /-- The verdict is that of the first active rule that matches. -/
  first : ∀ tool input repair before rule after, policy.rules = before ++ rule :: after →
    rule.active repair → env.ruleDenies rule tool input worktree = .ok true →
    (∀ q ∈ before, q.active repair → env.ruleDenies q tool input worktree = .ok false) →
    env.evaluate policy tool input worktree repair = .ok rule.verdict
  /-- A deny rule that matches is shadowed by an earlier escalation that matches only. -/
  shadowed : ∀ tool input repair before rule after v, policy.rules = before ++ rule :: after →
    rule.action = .deny → rule.active repair →
    env.ruleDenies rule tool input worktree = .ok true →
    env.evaluate policy tool input worktree repair = .ok v →
    v.allow = false ∧ (v.action = .deny ∨ ∃ q ∈ before, q.action = .escalate ∧
      q.active repair ∧ env.ruleDenies q tool input worktree = .ok true ∧ v = q.verdict)
  /-- A call that a rule matches is let through on an approved grant for exactly it only. -/
  granted : ∀ payload tool input repair grants, payload.toolName = some tool →
    payload.toolInput = some input →
    (∃ rule ∈ policy.rules, rule.active repair ∧
      env.ruleDenies rule tool input worktree = .ok true) →
    (hookOutput (env.decideCall payload policy worktree grants repair)).permission = .allow →
    env.Granted grants tool payload.toolUseId input
  /-- The repair overlay turns no refusal into an allowance. -/
  overlay : ∀ tool input v v', env.evaluate policy tool input worktree false = .ok v →
    v.allow = false → env.evaluate policy tool input worktree true = .ok v' → v'.allow = false
  /-- And none of the hook's, but by such a grant. -/
  overlayHook : ∀ payload tool input grants, payload.toolName = some tool →
    payload.toolInput = some input →
    (hookOutput (env.decideCall payload policy worktree grants false)).permission ≠ .allow →
    (hookOutput (env.decideCall payload policy worktree grants true)).permission = .allow →
    env.Granted grants tool payload.toolUseId input

theorem verdict_of_mem {before after : List ContainmentRule} {rule : ContainmentRule} {v : Verdict}
    (hrules : policy.rules = before ++ rule :: after) (hactive : rule.active repair)
    (hdenies : env.ruleDenies rule tool input worktree = .ok true)
    (h : env.evaluate policy tool input worktree repair = .ok v) :
    ∃ q, (q = rule ∨ q ∈ before) ∧ q.active repair ∧
      env.ruleDenies q tool input worktree = .ok true ∧ v = q.verdict := by
  rcases firstMatch_of_evaluateRules h with ⟨-, hnone⟩ | ⟨front, q, back, heq, hq, hmatch, hv, hfront⟩
  · have hrule := hnone rule (by rw [hrules]; simp) hactive
    exact nomatch hdenies.symm.trans hrule
  · refine ⟨q, ?_, hq, hmatch, hv⟩
    -- The first match is not behind the matching rule, as nothing before it matches.
    rcases List.append_eq_append_iff.mp (hrules.symm.trans heq) with
      ⟨mid, hmid, hrest⟩ | ⟨mid, hmid, hrest⟩
    · cases mid with
      | nil => exact Or.inl (List.cons.inj hrest).1.symm
      | cons r mid =>
        obtain ⟨rfl, -⟩ := List.cons.inj hrest
        have hrule := hfront rule (by rw [hmid]; simp) hactive
        exact nomatch hdenies.symm.trans hrule
    · cases mid with
      | nil => exact Or.inl (List.cons.inj hrest).1
      | cons r mid =>
        obtain ⟨rfl, -⟩ := List.cons.inj hrest
        exact Or.inr (by rw [hmid]; simp)

/-- **Every policy contains**: refusals are shadowed by escalations only, and let through by grants
only. -/
theorem contained (env : HookEnv) (policy : ContainmentPolicy) (worktree : String) :
    Contained env policy worktree where
  first := by
    intro tool input repair before rule after hrules hactive hdenies hbefore
    rw [HookEnv.evaluate, hrules, evaluateRules_append hbefore]
    exact evaluateRules_cons hactive hdenies
  shadowed := by
    intro tool input repair before rule after v hrules hdeny hactive hdenies h
    obtain ⟨q, hmem, hq, hmatch, rfl⟩ := verdict_of_mem hrules hactive hdenies h
    refine ⟨rfl, ?_⟩
    cases haction : q.action with
    | deny => exact Or.inl haction
    | escalate =>
      refine Or.inr ⟨q, hmem.resolve_left ?_, haction, hq, hmatch, rfl⟩
      rintro rfl
      exact nomatch hdeny.symm.trans haction
  granted := by
    rintro payload tool input repair grants htool hinput ⟨rule, hrule, hactive, hdenies⟩ h
    refine (allow_of_hookOutput htool hinput h).resolve_left ?_
    rintro ⟨v, hv, hallow⟩
    exact nomatch hdenies.symm.trans (not_denies_of_allow hv hallow rule hrule hactive)
  overlay := by
    intro tool input v v' hv hrefused hv'
    rw [← Bool.not_eq_true]
    intro hallow
    obtain rfl := Except.ok.inj (hv.symm.trans (evaluate_of_repair hv' hallow))
    exact nomatch hrefused
  overlayHook := by
    intro payload tool input grants htool hinput hrefused h
    refine (allow_of_hookOutput htool hinput h).resolve_left ?_
    rintro ⟨v, hv, hallow⟩
    refine hrefused ?_
    unfold HookEnv.decideCall
    rw [htool, hinput]
    dsimp only
    rw [evaluate_of_repair hv hallow]
    rfl

/-! ## 5. The shipped rules -/

def shippedPolicy : ContainmentPolicy where
  rules :=
    [{ id := "no-out-of-worktree-write"
       action := .escalate
       tools := ["Write", "Edit", "NotebookEdit"]
       predicate := .pathOutsideWorktree
       reason := "Writes are scoped to the task worktree." },
     { id := "no-agent-config-write"
       tools := ["Write", "Edit", "NotebookEdit"]
       predicate := .pathMatches
       patterns := ["**/.claude/**", "**/.opencode/**", "**/.cursor/**", "**/opencode.json"]
       reason := "The agent may not rewrite its own permission config." }]

/-- Surroundings without symbolic links, in which no URL names a host. -/
def plainEnv : HookEnv where
  resolve := fun path =>
    some ((((asPosix path).toList.splitOn '/').filter (· ≠ [])).map String.ofList)
  hostname := fun _ => .ok none
  digest := fun input => joinWith "," input.keys

/-- A write to an agent configuration outside the worktree. -/
def configWrite : ToolInput := Dict.ofItems [("file_path", .text "/home/dev/.claude/settings.json")]

/-- A deny rule matches, and an earlier escalation gives the verdict. -/
theorem deny_shadowed_sample : ¬ ∀ (env : HookEnv) (policy : ContainmentPolicy) tool input worktree
    repair, (∃ rule ∈ policy.rules, rule.action = .deny ∧ rule.active repair ∧
      env.ruleDenies rule tool input worktree = .ok true) →
    ∃ v, env.evaluate policy tool input worktree repair = .ok v ∧ v.allow = false ∧
      v.action = .deny := by
  intro hall
  obtain ⟨v, hv, -, hdeny⟩ := hall plainEnv shippedPolicy "Write" configWrite "/tmp/wt/T1" false
    (by decide +kernel)
  have heval : (plainEnv.evaluate shippedPolicy "Write" configWrite "/tmp/wt/T1" false).map
      (·.action) = .ok .escalate := by decide +kernel
  rw [hv] at heval
  exact nomatch hdeny.symm.trans (Except.ok.inj heval)

end Kroker
