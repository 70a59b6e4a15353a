import Kroker.Core.PosixPath
import Kroker.Harness.Containment

/-!
# The spellings of a file

A write names its file by a text: relative to the worktree or absolute, with dots and repeated
slashes, through a symbolic link.  `evaluate` of `harness/containment.py` asks two things of that
text.  `path_outside_worktree` resolves it; `path_matches` compares it with globs, as it stands but
for single dots and repeated slashes.  So the globs of a rule see how a file is spelled, and they
see the directories above the worktree too.
-/

namespace Kroker

/-! ## 1.  The file that a call is about -/

def HookEnv.place (env : HookEnv) (path worktree : String) : Option (List String) :=
  (env.resolve worktree).bind fun root =>
    env.resolve (if path.toList.head? = some '/' then path
      else "/" ++ joinWith "/" (root ++ [path]))

structure ToolCall where
  env : HookEnv
  worktree : String
  input : ToolInput

namespace ToolCall

def evaluate (c : ToolCall) (policy : ContainmentPolicy) (tool : String) (repair : Bool) :
    Except String Verdict :=
  c.env.evaluate policy tool c.input c.worktree repair

def denies (c : ToolCall) (tool : String) (rule : ContainmentRule) : Except String Bool :=
  c.env.ruleDenies rule tool c.input c.worktree

def file (c : ToolCall) : Option (List String) :=
  (targetOf c.input).bind fun target => c.env.place target c.worktree

def inside (c : ToolCall) : Option (List String) :=
  (c.env.resolve c.worktree).bind fun root =>
    c.file.bind fun parts => if root.isPrefixOf parts then some (parts.drop root.length) else none

/-- One of the globs is for the text of the target. -/
def globbed (c : ToolCall) (patterns : List String) : Bool :=
  match targetOf c.input with
  | none => false
  | some target => patterns.any (fnmatch (asPosix target))

/-- **Two calls on one file**: in one worktree it is the same file of the machine, and in two
worktrees it is at the same path from each. -/
def SameFile (c c' : ToolCall) : Prop :=
  (c.env.resolve = c'.env.resolve ∧ c.worktree = c'.worktree ∧
    ∃ parts, c.file = some parts ∧ c'.file = some parts) ∨
  ∃ path, c.inside = some path ∧ c'.inside = some path

/-- Nothing but the target, and where it is, tells the calls apart. -/
structure SameCall (c c' : ToolCall) : Prop where
  hostname : c.env.hostname = c'.env.hostname
  command : c.input.text? "command" = c'.input.text? "command"
  url : c.input.text? "url" = c'.input.text? "url"

/-- The globs of the rule are for one of the two texts only. -/
def Separates (tool : String) (c c' : ToolCall) (rule : ContainmentRule) : Prop :=
  tool ∈ rule.tools ∧ rule.predicate = .pathMatches ∧
    c.globbed rule.patterns ≠ c'.globbed rule.patterns

/-- **No rule that is reached separates the calls**: before it stands one that is active and does
not let both pass. -/
def Unseparated (policy : ContainmentPolicy) (tool : String) (repair : Bool) (c c' : ToolCall) :
    Prop :=
  ∀ before rule after, policy.rules = before ++ rule :: after → rule.active repair →
    Separates tool c c' rule → ∃ q ∈ before, q.active repair ∧
      ¬(c.denies tool q = .ok false ∧ c'.denies tool q = .ok false)

end ToolCall

/-- What `load_policy` asks of the ids of the rules. -/
def ContainmentPolicy.Loaded (policy : ContainmentPolicy) : Prop := (policy.rules.map (·.id)).Nodup

/-! ## 2.  Two runs through the rules -/

section Runs

variable {denies denies' : ContainmentRule → Except String Bool} {repair : Bool}
  {rules : List ContainmentRule} {rule : ContainmentRule}

theorem evaluateRules_ne (hids : rule.id ∉ rules.map (·.id)) :
    evaluateRules denies repair rules ≠ .ok rule.verdict := by
  intro h
  rcases firstMatch_of_evaluateRules h with ⟨hv, -⟩ | ⟨before, q, after, hrules, -, -, hv, -⟩
  · exact absurd (congrArg Verdict.allow hv) (by simp [ContainmentRule.verdict])
  · have hid : rule.id = q.id := Option.some.inj (congrArg Verdict.ruleId hv)
    refine hids (hid ▸ List.mem_map_of_mem ?_)
    rw [hrules]
    exact List.mem_append_right _ List.mem_cons_self

/-- **Two runs come to one verdict** exactly if each rule that is reached says the same in both. -/
theorem evaluateRules_eq_iff (hids : (rules.map (·.id)).Nodup)
    (hsplit : ∀ rule ∈ rules, denies rule = denies' rule ∨
      ∃ b, denies rule = .ok b ∧ denies' rule = .ok !b) :
    evaluateRules denies repair rules = evaluateRules denies' repair rules ↔
      ∀ before rule after, rules = before ++ rule :: after → rule.active repair →
        denies rule ≠ denies' rule → ∃ q ∈ before, q.active repair ∧
          ¬(denies q = .ok false ∧ denies' q = .ok false) := by
  induction rules with
  | nil => exact iff_of_true rfl fun before rule after h => by simp at h
  | cons first rules ih =>
    obtain ⟨hfirst, hids⟩ := List.nodup_cons.mp hids
    have ih := ih hids fun rule hrule => hsplit rule (List.mem_cons_of_mem _ hrule)
    -- Where the first rule is passed in both runs, it is what the others say that counts.
    have hpass : (first.active repair → denies first = .ok false ∧ denies' first = .ok false) →
        ((∀ before rule after, rules = before ++ rule :: after → rule.active repair →
            denies rule ≠ denies' rule → ∃ q ∈ before, q.active repair ∧
              ¬(denies q = .ok false ∧ denies' q = .ok false)) ↔
          ∀ before rule after, first :: rules = before ++ rule :: after → rule.active repair →
            denies rule ≠ denies' rule → ∃ q ∈ before, q.active repair ∧
              ¬(denies q = .ok false ∧ denies' q = .ok false)) := by
      intro hpassed
      constructor
      · intro hrest before rule after h hactive hne
        cases before with
        | nil =>
          cases h
          obtain ⟨hfalse, hfalse'⟩ := hpassed hactive
          exact absurd (hfalse.trans hfalse'.symm) hne
        | cons q before =>
          obtain ⟨-, h⟩ := List.cons.inj h
          obtain ⟨r, hr, hrest⟩ := hrest before rule after h hactive hne
          exact ⟨r, List.mem_cons_of_mem _ hr, hrest⟩
      · intro hall before rule after h hactive hne
        obtain ⟨q, hq, hqactive, hstop⟩ :=
          hall (first :: before) rule after (by rw [h, List.cons_append]) hactive hne
        rcases List.mem_cons.mp hq with rfl | hq
        · exact absurd (hpassed hqactive) hstop
        · exact ⟨q, hq, hqactive, hstop⟩
    by_cases hactive : first.active repair
    · rw [evaluateRules, evaluateRules, if_pos hactive, if_pos hactive]
      rcases hsplit first List.mem_cons_self with hsame | ⟨b, hb, hb'⟩
      · rw [← hsame]
        cases hdenies : denies first with
        | error e =>
          refine iff_of_true rfl fun before rule after h _ hne => ?_
          cases before with
          | nil =>
            cases h
            exact absurd hsame hne
          | cons q before =>
            obtain ⟨rfl, -⟩ := List.cons.inj h
            exact ⟨first, List.mem_cons_self, hactive, fun hfalse => by simp [hdenies] at hfalse⟩
        | ok b =>
          cases b with
          | true =>
            refine iff_of_true rfl fun before rule after h _ hne => ?_
            cases before with
            | nil =>
              cases h
              exact absurd hsame hne
            | cons q before =>
              obtain ⟨rfl, -⟩ := List.cons.inj h
              exact ⟨first, List.mem_cons_self, hactive, fun hfalse => by simp [hdenies] at hfalse⟩
          | false => exact ih.trans (hpass fun _ => ⟨hdenies, hsame.symm.trans hdenies⟩)
      · rw [hb, hb']
        refine iff_of_false (fun h => ?_) fun hall => ?_
        · cases b with
          | true => exact evaluateRules_ne hfirst h.symm
          | false => exact evaluateRules_ne hfirst h
        · obtain ⟨q, hq, -⟩ := hall [] first rules rfl hactive (by rw [hb, hb']; cases b <;> simp)
          cases hq
    · rw [evaluateRules, evaluateRules, if_neg hactive, if_neg hactive]
      exact ih.trans (hpass fun h => absurd h hactive)

end Runs

/-! ## 3.  What a rule sees of a file -/

namespace ToolCall

variable {c c' : ToolCall} {tool : String}

theorem absUnder_eq {target : String} (htarget : targetOf c.input = some target) :
    c.env.absUnder target c.worktree = c.inside.isSome := by
  unfold HookEnv.absUnder inside file HookEnv.place
  rw [htarget]
  cases hroot : c.env.resolve c.worktree with
  | none => rfl
  | some root =>
    simp only [Option.bind_some]
    cases c.env.resolve (if target.toList.head? = some '/' then target
        else "/" ++ joinWith "/" (root ++ [target])) with
    | none => rfl
    | some parts =>
      simp only [Option.bind_some]
      split
      · rename_i h
        rw [h, Option.isSome_some]
      · rename_i h
        rw [Bool.eq_false_iff.mpr h, Option.isSome_none]

theorem exists_target_of_file {parts : List String} (h : c.file = some parts) :
    ∃ target, targetOf c.input = some target := by
  obtain ⟨target, htarget, -⟩ := Option.bind_eq_some_iff.mp h
  exact ⟨target, htarget⟩

theorem exists_file_of_inside {path : List String} (h : c.inside = some path) :
    ∃ parts, c.file = some parts := by
  obtain ⟨_, -, h⟩ := Option.bind_eq_some_iff.mp h
  obtain ⟨parts, hparts, -⟩ := Option.bind_eq_some_iff.mp h
  exact ⟨parts, hparts⟩

theorem SameFile.targets (h : SameFile c c') :
    (∃ target, targetOf c.input = some target) ∧ ∃ target, targetOf c'.input = some target := by
  rcases h with ⟨-, -, parts, hparts, hparts'⟩ | ⟨path, hpath, hpath'⟩
  · exact ⟨exists_target_of_file hparts, exists_target_of_file hparts'⟩
  · obtain ⟨parts, hparts⟩ := exists_file_of_inside hpath
    obtain ⟨parts', hparts'⟩ := exists_file_of_inside hpath'
    exact ⟨exists_target_of_file hparts, exists_target_of_file hparts'⟩

theorem SameFile.isSome_inside (h : SameFile c c') : c.inside.isSome = c'.inside.isSome := by
  rcases h with ⟨hresolve, hworktree, parts, hparts, hparts'⟩ | ⟨path, hpath, hpath'⟩
  · rw [inside, inside, hresolve, hworktree, hparts, hparts']
  · rw [hpath, hpath']

/-- **But for globs on the target, a rule sees the file**, and not how it is spelled. -/
theorem denies_cases (tool : String) (hcall : SameCall c c') (hfile : SameFile c c')
    (rule : ContainmentRule) :
    (¬Separates tool c c' rule ∧ c.denies tool rule = c'.denies tool rule) ∨
      Separates tool c c' rule ∧ c.denies tool rule = .ok (c.globbed rule.patterns) ∧
        c'.denies tool rule = .ok (c'.globbed rule.patterns) := by
  obtain ⟨⟨target, htarget⟩, target', htarget'⟩ := hfile.targets
  by_cases htool : tool ∈ rule.tools
  · cases hpredicate : rule.predicate with
    | pathOutsideWorktree =>
      refine .inl ⟨fun h => by simp [Separates, hpredicate] at h, ?_⟩
      simp only [denies, HookEnv.ruleDenies, htool, not_true_eq_false, if_false, hpredicate, htarget,
        htarget', absUnder_eq htarget, absUnder_eq htarget', hfile.isSome_inside]
    | pathMatches =>
      have hglobs : ∀ (d : ToolCall) {t : String}, targetOf d.input = some t →
          d.denies tool rule = .ok (d.globbed rule.patterns) := by
        intro d t ht
        simp only [denies, HookEnv.ruleDenies, htool, not_true_eq_false, if_false, hpredicate, ht,
          globbed]
      by_cases hsame : c.globbed rule.patterns = c'.globbed rule.patterns
      · refine .inl ⟨fun h => h.2.2 hsame, ?_⟩
        rw [hglobs c htarget, hglobs c' htarget', hsame]
      · exact .inr ⟨⟨htool, hpredicate, hsame⟩, hglobs c htarget, hglobs c' htarget'⟩
    | commandMatches =>
      refine .inl ⟨fun h => by simp [Separates, hpredicate] at h, ?_⟩
      simp only [denies, HookEnv.ruleDenies, htool, not_true_eq_false, if_false, hpredicate,
        hcall.command]
    | hostNotAllowlisted =>
      refine .inl ⟨fun h => by simp [Separates, hpredicate] at h, ?_⟩
      simp only [denies, HookEnv.ruleDenies, htool, not_true_eq_false, if_false, hpredicate,
        HookEnv.hostsIn, hcall.command, hcall.url, hcall.hostname]
  · refine .inl ⟨fun h => htool h.1, ?_⟩
    simp only [denies, HookEnv.ruleDenies, htool, not_false_eq_true, if_true]

theorem separates_iff (hcall : SameCall c c') (hfile : SameFile c c') (rule : ContainmentRule) :
    Separates tool c c' rule ↔ c.denies tool rule ≠ c'.denies tool rule := by
  rcases denies_cases tool hcall hfile rule with ⟨hnot, hsame⟩ | ⟨hsep, hc, hc'⟩
  · exact iff_of_false hnot fun hne => hne hsame
  · refine iff_of_true hsep fun hsame => hsep.2.2 ?_
    rw [hc, hc'] at hsame
    exact Except.ok.inj hsame

theorem evaluate_eq_iff {policy : ContainmentPolicy} {repair : Bool} (hloaded : policy.Loaded)
    (hcall : SameCall c c') (hfile : SameFile c c') :
    c.evaluate policy tool repair = c'.evaluate policy tool repair ↔
      Unseparated policy tool repair c c' := by
  have hsplit : ∀ rule ∈ policy.rules, c.denies tool rule = c'.denies tool rule ∨
      ∃ b, c.denies tool rule = .ok b ∧ c'.denies tool rule = .ok !b := by
    intro rule _
    rcases denies_cases tool hcall hfile rule with ⟨-, hsame⟩ | ⟨hsep, hc, hc'⟩
    · exact .inl hsame
    · refine .inr ⟨_, hc, hc'.trans (congrArg Except.ok ?_)⟩
      exact Bool.eq_not.mpr (Ne.symm hsep.2.2)
  refine (evaluateRules_eq_iff hloaded hsplit).trans ?_
  simp only [Unseparated, separates_iff hcall hfile]

end ToolCall

/-! ## 4.  The shipped policy -/

def writeTools : List String := ["Write", "Edit", "NotebookEdit"]

def configPatterns : List String :=
  ["**/.claude/**", "**/.opencode/**", "**/.cursor/**", "**/opencode.json"]

def testPatterns : List String :=
  ["tests/**", "**/tests/**", "test/**", "**/test/**", "spec/**", "**/spec/**", "__tests__/**",
    "**/__tests__/**", "src/test/**", "**/src/test/**", "test_*.py", "**/test_*.py", "*_test.py",
    "**/*_test.py", "*_test.go", "**/*_test.go", "*.test.*", "**/*.test.*", "*.spec.*",
    "**/*.spec.*", "*Test.php", "**/*Test.php", "conftest.py", "**/conftest.py", "__snapshots__/**",
    "**/__snapshots__/**", "*.snap", "**/*.snap"]

/-- `policy/containment.yaml`. -/
def containmentYaml : ContainmentPolicy where
  rules :=
    [{ id := "no-out-of-worktree-write"
       action := .escalate
       tools := writeTools
       predicate := .pathOutsideWorktree
       reason := "Writes are scoped to the task worktree." },
     { id := "no-recursive-force-delete"
       tools := ["Bash"]
       predicate := .commandMatches
       patterns := ["rm -rf *", "rm -fr *", "rm -r -f *"]
       reason := "Destructive recursive delete." },
     { id := "no-agent-config-write"
       tools := writeTools
       predicate := .pathMatches
       patterns := configPatterns
       reason := "The agent may not rewrite its own permission config." },
     { id := "egress-allowlist"
       tools := ["WebFetch", "WebSearch", "Bash"]
       predicate := .hostNotAllowlisted
       allowHosts := ["api.anthropic.com", "github.com", "pypi.org", "files.pythonhosted.org",
         "registry.npmjs.org"]
       reason :=
         "Egress is restricted to the model API, git remote, and package registries." },
     { id := "no-test-edit-during-repair"
       phase := .repair
       tools := writeTools
       predicate := .pathMatches
       patterns := testPatterns
       reason :=
         "Tests are frozen during repair attempts: you may not edit, create or delete test files " ++
         "while fixing the code they judge. If you believe a test itself is wrong, do NOT try to " ++
         "change it -- say so explicitly in your final summary, with the file and the assertion, " ++
         "and an operator will decide at the review gate." }]

/-- A path inside of the worktree, as a glob sees it from the top. -/
def fromTop (path : List String) : String := "/" ++ joinWith "/" path

def AgentConfig (path : List String) : Prop := configPatterns.any (fnmatch (fromTop path)) = true

def FencedTest (path : List String) : Prop := testPatterns.any (fnmatch (fromTop path)) = true

namespace ToolCall

variable {c : ToolCall} {tool : String} {path : List String} {repair : Bool}

def Denied (o : Except String Verdict) : Prop := ∃ v, o = .ok v ∧ v.allow = false

/-- **A file is judged as what it is**: a configuration is denied, and a test during a repair, and
an ordinary file is not. -/
def Judged (repair : Bool) (path : List String) (o : Except String Verdict) : Prop :=
  (AgentConfig path → Denied o) ∧ (repair = true → FencedTest path → Denied o) ∧
    (¬AgentConfig path → ¬FencedTest path → ¬Denied o)

/-- The globs that are active are for the text of the target, where the file is a configuration or,
in a repair, a test; and they are for no ordinary file's. -/
def Shown (c : ToolCall) (repair : Bool) (path : List String) : Prop :=
  let shown := c.globbed configPatterns || (repair && c.globbed testPatterns)
  (AgentConfig path ∨ repair = true ∧ FencedTest path → shown = true) ∧
    (shown = true → AgentConfig path ∨ FencedTest path)

theorem denied_shipped_iff (htool : tool ∈ writeTools) (hinside : c.inside = some path) :
    Denied (c.evaluate containmentYaml tool repair) ↔
      (c.globbed configPatterns || (repair && c.globbed testPatterns)) = true := by
  obtain ⟨parts, hparts⟩ := exists_file_of_inside hinside
  obtain ⟨target, htarget⟩ := exists_target_of_file hparts
  have hunder : c.env.absUnder target c.worktree = true := by
    rw [absUnder_eq htarget, hinside, Option.isSome_some]
  have hbash : tool ∉ ["Bash"] := by
    rintro h
    cases List.mem_singleton.mp h
    revert htool
    decide
  have hweb : tool ∉ ["WebFetch", "WebSearch", "Bash"] := by
    intro h
    revert htool
    rcases List.mem_cons.mp h with rfl | h
    · decide
    · rcases List.mem_cons.mp h with rfl | h
      · decide
      · cases List.mem_singleton.mp h
        decide
  simp only [evaluate, HookEnv.evaluate, containmentYaml, evaluateRules, ContainmentRule.active,
    HookEnv.ruleDenies, htool, hbash, hweb, htarget, hunder, globbed]
  cases hconfig : configPatterns.any (fnmatch (asPosix target)) with
  | true => simp [Denied, ContainmentRule.verdict, bind, Except.bind, pure, Except.pure]
  | false =>
    cases repair with
    | false => simp [Denied, bind, Except.bind]
    | true =>
      cases htest : testPatterns.any (fnmatch (asPosix target)) with
      | true => simp [Denied, ContainmentRule.verdict, bind, Except.bind, pure, Except.pure]
      | false => simp [Denied, bind, Except.bind]

theorem judged_shipped_iff (htool : tool ∈ writeTools) (hinside : c.inside = some path) :
    Judged repair path (c.evaluate containmentYaml tool repair) ↔ c.Shown repair path := by
  rw [Judged, Shown, denied_shipped_iff htool hinside]
  constructor
  · rintro ⟨hconfig, htest, hplain⟩
    refine ⟨?_, fun hshown => ?_⟩
    · rintro (h | ⟨hrepair, h⟩)
      · exact hconfig h
      · exact htest hrepair h
    · by_contra hnone
      obtain ⟨hnot, hnot'⟩ := not_or.mp hnone
      exact hplain hnot hnot' hshown
  · rintro ⟨hprotected, hshown⟩
    exact ⟨fun h => hprotected (.inl h), fun hrepair h => hprotected (.inr ⟨hrepair, h⟩),
      fun hnot hnot' h => (hshown h).elim hnot hnot'⟩

/-- **The file is judged, where its spellings are not told apart by globs**: two calls on one file
get one verdict exactly if no rule that is reached separates them, and the shipped policy judges a
file inside of the worktree as what it is exactly if its text shows it. -/
theorem judged_iff_unseparated (tool : String) (repair : Bool) (c : ToolCall) :
    (∀ (policy : ContainmentPolicy) (c' : ToolCall),
      policy.Loaded → SameCall c c' → SameFile c c' →
        (c.evaluate policy tool repair = c'.evaluate policy tool repair ↔
          Unseparated policy tool repair c c')) ∧
    ∀ path : List String, tool ∈ writeTools → c.inside = some path →
      (Judged repair path (c.evaluate containmentYaml tool repair) ↔ c.Shown repair path) :=
  ⟨fun _ _ hloaded hcall hfile => evaluate_eq_iff hloaded hcall hfile,
    fun _ htool hinside => judged_shipped_iff htool hinside⟩

/-! ## 5.  A machine with a link -/

instance (tool : String) (c c' : ToolCall) (rule : ContainmentRule) :
    Decidable (Separates tool c c' rule) := by
  unfold Separates
  infer_instance

theorem unseparated_of_forall {policy : ContainmentPolicy} {c c' : ToolCall}
    (h : ∀ rule ∈ policy.rules, ¬Separates tool c c' rule) :
    Unseparated policy tool repair c c' := by
  intro before rule after hrules _ hsep
  exact absurd hsep (h rule (by rw [hrules]; exact List.mem_append_right _ List.mem_cons_self))

/-- A machine on which `/wt/link` leads to `/wt/.claude`. -/
def linkEnv : HookEnv where
  resolve := fun path =>
    match (((normpath path).toList.splitOn '/').filter (· ≠ [])).map String.ofList with
    | "wt" :: "link" :: rest => some ("wt" :: ".claude" :: rest)
    | parts => some parts
  hostname := fun _ => .ok none
  digest := fun input => joinWith "," input.keys

def write (worktree target : String) : ToolCall :=
  ⟨linkEnv, worktree, Dict.ofItems [("file_path", .text target)]⟩

theorem sameCall_write (worktree worktree' target target' : String) :
    SameCall (write worktree target) (write worktree' target') := by
  have htext : ∀ (worktree target key : String), key ≠ "file_path" →
      (write worktree target).input.text? key = none := by
    intro worktree target key hkey
    have hget : (write worktree target).input[key]? = none :=
      Dict.get?_insert_of_ne _ _ hkey.symm
    rw [ToolInput.text?, hget]
  refine ⟨rfl, ?_, ?_⟩
  · rw [htext _ _ _ (by decide), htext _ _ _ (by decide)]
  · rw [htext _ _ _ (by decide), htext _ _ _ (by decide)]

def relativeConfig : ToolCall := write "/wt" ".claude/settings.json"

def absoluteConfig : ToolCall := write "/wt" "/wt/.claude/settings.json"

def linkedConfig : ToolCall := write "/wt" "/wt/link/settings.json"

def relativeTest : ToolCall := write "/wt" "tests/a.py"

def dottedTest : ToolCall := write "/wt" "/wt/src/..//tests/./a.py"

/-- A source file, in a worktree below this directory. -/
def sourceBelow (above : String) : ToolCall :=
  write ("/" ++ above ++ "/wt") ("/" ++ above ++ "/wt/src/app.py")

theorem sameFile_tests : SameFile relativeTest dottedTest :=
  .inl ⟨rfl, rfl, ["wt", "tests", "a.py"], by decide +kernel, by decide +kernel⟩

theorem unseparated_tests : Unseparated containmentYaml "Write" true relativeTest dottedTest :=
  unseparated_of_forall (by decide +kernel)

theorem shown_test : relativeTest.Shown true ["tests", "a.py"] :=
  ⟨fun _ => by decide +kernel, fun _ => .inr (by unfold FencedTest; decide +kernel)⟩

theorem loaded_containmentYaml : containmentYaml.Loaded := by
  unfold ContainmentPolicy.Loaded
  decide +kernel

/-- The patterns for tests are paired: relative or absolute, a test is denied during a repair. -/
theorem judged_iff_unseparated_sample :
    relativeTest.evaluate containmentYaml "Write" true =
        dottedTest.evaluate containmentYaml "Write" true ∧
      Judged true ["tests", "a.py"] (relativeTest.evaluate containmentYaml "Write" true) :=
  ⟨((judged_iff_unseparated "Write" true relativeTest).1 containmentYaml dottedTest
      loaded_containmentYaml (sameCall_write _ _ _ _) sameFile_tests).mpr unseparated_tests,
    ((judged_iff_unseparated "Write" true relativeTest).2 ["tests", "a.py"] (by decide)
      (by decide +kernel)).mpr shown_test⟩

/-- **Spellings tell**: a configuration at the top is not seen through a relative path, nor through
a link, and where the worktree is below `tests`, an ordinary file is denied. -/
theorem spellings_differ :
    (SameCall relativeConfig absoluteConfig ∧ SameFile relativeConfig absoluteConfig ∧
      SameCall linkedConfig absoluteConfig ∧ SameFile linkedConfig absoluteConfig ∧
      (relativeConfig.evaluate containmentYaml "Write" false).map (·.allow) = .ok true ∧
      (linkedConfig.evaluate containmentYaml "Write" false).map (·.allow) = .ok true ∧
      (absoluteConfig.evaluate containmentYaml "Write" false).map (·.allow) = .ok false) ∧
    SameCall (sourceBelow "dev") (sourceBelow "tests") ∧
      SameFile (sourceBelow "dev") (sourceBelow "tests") ∧
      ((sourceBelow "dev").evaluate containmentYaml "Write" true).map (·.allow) = .ok true ∧
      ((sourceBelow "tests").evaluate containmentYaml "Write" true).map (·.allow) = .ok false := by
  have hconfig : absoluteConfig.file = some ["wt", ".claude", "settings.json"] := by decide +kernel
  refine ⟨⟨sameCall_write _ _ _ _, .inl ⟨rfl, rfl, _, ?_, hconfig⟩, sameCall_write _ _ _ _,
    .inl ⟨rfl, rfl, _, ?_, hconfig⟩, ?_, ?_, ?_⟩, sameCall_write _ _ _ _,
    .inr ⟨["src", "app.py"], ?_, ?_⟩, ?_, ?_⟩
  all_goals decide +kernel

end ToolCall

end Kroker
