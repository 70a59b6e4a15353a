import Kroker.Assessment.Refgraph
import Mathlib

/-!
# Coverage and dead files

`assessment/discover/attribution.py`: every source file of a tree is put into one bucket, by the
first rule that fires, and the coverage is the share of the files in the buckets that say what a
file is.  A file is dead if nothing says so and no edge of the reference graph touches it.

A target that several files match has no edge, nor has one that matches a single file under two of
its candidate names, nor a target of dots.  So a file can be dead although another file names it.
-/

namespace Kroker.Attribution

/-! ## 1.  Buckets -/

/-- `FileBucket`, in the order of `BUCKET_PRECEDENCE`. -/
inductive FileBucket where
  | member
  | infrastructure
  | attached
  | dead
  | unclassified
  deriving DecidableEq

def accountedFor : List FileBucket := [.member, .infrastructure, .attached]

def citesCapabilities : List FileBucket := [.member, .attached]

structure FileAttribution where
  path : String
  bucket : FileBucket
  rule : String
  detail : String
  capabilities : List String := []
  match_bucket : capabilities ≠ [] ↔ bucket ∈ citesCapabilities := by decide
  sorted : capabilities.Pairwise (· < ·) := by exact List.Pairwise.nil

structure AttributionReport where
  files : List FileAttribution
  counts : FileBucket → ℕ
  coverage : Share
  floor : ℚ
  meetsFloor : Bool
  deadGuardTripped : Bool
  graph : ReferenceGraph
  skipped : List String
  counts_agree : ∀ b, counts b = (files.filter (·.bucket = b)).length
  floor_derived : meetsFloor = true ↔ ∃ v, coverage = .measured v ∧ floor ≤ v

/-! ## 2.  Paths -/

def testPathGlobs : List String :=
  ["test_*.py", "*_test.py", "conftest.py", "tests/**", "*/tests/**", "*.test.js", "*.test.jsx",
    "*.test.ts", "*.test.tsx", "*.spec.js", "*.spec.jsx", "*.spec.ts", "*.spec.tsx", "*.cy.js",
    "*.cy.ts", "__tests__/**", "*/__tests__/**", "*_test.go", "tests.rs", "*Test.java",
    "*Tests.java", "*Test.kt", "*Test.cs", "*Tests.cs", "src/test/**", "*/src/test/**", "*_spec.rb",
    "*Test.php", "spec/**", "*/spec/**", "e2e/**", "*/e2e/**", "cypress/**", "*/cypress/**",
    "playwright/**", "*/playwright/**"]

def isTestPath (path : String) : Bool :=
  testPathGlobs.any fun glob => fnmatch path glob || fnmatch (basename path) glob

def buildToolingNames : List String :=
  ["setup.py", "manage.py", "noxfile.py", "tasks.py", "webpack.config.js", "vite.config.ts",
    "rollup.config.js", "jest.config.js", "karma.conf.js", "next.config.js", "babel.config.js",
    "tailwind.config.js", "gulpfile.js", "build.rs"]

def inDenominator (path : String) : Bool := extensionOf path ∈ sourceExtensions

section Config

open Regex

variable (isWord : Char → Bool)

/-- The start of the path, or a slash. -/
def component : Regex := .either (.start false) (.one (· = '/'))

/-- Characters of `[\w.-]`. -/
def nameChars : Regex := .many (wordOr isWord ['.', '-'])

/-- `ya?ml`. -/
def yaml : Regex := all [text ['y'], .maybe (text ['a']), text ['m', 'l']]

def configPatterns : List Regex := [
  all [component, text "Dockerfile".toList, nameChars isWord, .stop false],
  all [component, text "docker-compose".toList, nameChars isWord, text ['.'], yaml, .stop false],
  all [component, text ".env".toList, nameChars isWord, .stop false],
  all [component, text "appsettings".toList, .maybe (.seq (text ['.']) (plus isWord)),
    text ".json".toList, .stop false],
  all [component, text "application".toList, .maybe (.seq (text ['-']) (plus isWord)), text ['.'],
    .either yaml (text "properties".toList), .stop false],
  all [component, anyOf ["k8s".toList, "kubernetes".toList, "deploy".toList, "deployment".toList,
    "helm".toList, "charts".toList], text ['/'], .many (· ≠ '\n'), text ['.'],
    .either yaml (text "tpl".toList), .stop false],
  .seq (anyOf [".tf".toList, ".tfvars".toList, ".bicep".toList]) (.stop false),
  all [component, anyOf ["nginx".toList, "haproxy".toList], nameChars isWord, text ".conf".toList,
    .stop false]]

def isConfigPath (path : String) : Bool :=
  (configPatterns isWord).any fun pattern => pattern.search path.toList

end Config

/-! ## 3.  Classification -/

/-- The capabilities that claim a path; there is one at least. -/
abbrev Claims := { bcs : List String // bcs ≠ [] }

/-- `member_of.setdefault(path, []).append(bc_id)`. -/
def addMember (memberOf : Dict Claims) (row : String × String) : Dict Claims :=
  memberOf.insert row.1 ⟨((memberOf[row.1]?).map Subtype.val).getD [] ++ [row.2], by simp⟩

/-- The pairs of a path and a capability that claims it. -/
def memberRows (members : Dict (List String)) : List (String × String) :=
  members.toList.flatMap fun m => m.2.map fun path => (path, m.1)

def memberOf (members : Dict (List String)) : Dict Claims :=
  (memberRows members).foldl addMember ∅

/-- The other ends of the edges of a file. -/
def neighbours (edges : List (String × String)) (path : String) : List String :=
  edges.filterMap fun e =>
    if e.1 = path then some e.2 else if e.2 = path then some e.1 else none

structure Context where
  memberOf : Dict Claims
  neighbours : String → List String
  skipped : List String
  parsed : List String
  entryPoints : List String
  guardTripped : Bool

/-- The capabilities that claim a neighbour. -/
def Context.attached (ctx : Context) (path : String) : List String :=
  sortedSet ((ctx.neighbours path).flatMap fun n => ((ctx.memberOf[n]?).map Subtype.val).getD [])

theorem sortedSet_ne_nil {l : List String} (h : l ≠ []) : sortedSet l ≠ [] := by
  obtain ⟨a, ha⟩ := List.exists_mem_of_ne_nil l h
  exact List.ne_nil_of_mem (mem_sortedSet.mpr ha)

variable (isWord : Char → Bool)

/-- `_classify`: the first rule that fires. -/
def classify (ctx : Context) (path : String) : FileAttribution :=
  match ctx.memberOf[path]? with
  | some bcs =>
    { path := path
      bucket := .member
      rule := "capability_member"
      detail := "claimed by a capability's member set"
      capabilities := sortedSet bcs.1
      match_bucket := iff_of_true (sortedSet_ne_nil bcs.2) (by decide)
      sorted := (lists_sortedSet _).1 }
  | none =>
    if path ∈ ctx.skipped then
      { path := path
        bucket := .unclassified
        rule := "blob_unreadable"
        detail := "the blob could not be read at the pinned commit" }
    else if isConfigPath isWord path then
      { path := path
        bucket := .infrastructure
        rule := "config_path"
        detail := "matches a configuration/infrastructure path rule" }
    else if basename path ∈ buildToolingNames then
      { path := path
        bucket := .infrastructure
        rule := "build_tooling"
        detail := "a build or tooling configuration file" }
    else if h : ctx.attached path ≠ [] then
      { path := path
        bucket := .attached
        rule := "graph_connected_to_member"
        detail := "shares an import edge with a capability member"
        capabilities := ctx.attached path
        match_bucket := iff_of_true h (by decide)
        sorted := (lists_sortedSet _).1 }
    else if path ∉ ctx.parsed then
      { path := path
        bucket := .unclassified
        rule := "language_not_parsed"
        detail := "no import extractor covers this file's language" }
    else if path ∈ ctx.entryPoints then
      { path := path
        bucket := .unclassified
        rule := "framework_discovered_entry_point"
        detail := "hosts an entry point, so it is reached by dispatch" }
    else if isTestPath path then
      { path := path
        bucket := .unclassified
        rule := "framework_discovered_test"
        detail := "collected by a test runner by convention, not by import" }
    else if ctx.neighbours path ≠ [] then
      { path := path
        bucket := .unclassified
        rule := "referenced_by_unattributed_file"
        detail := "referenced, but by nothing that reaches a capability" }
    else if ctx.guardTripped then
      { path := path
        bucket := .unclassified
        rule := "dead_guard_tripped"
        detail := "too many relative imports failed to resolve for an " ++
          "absence of references to be evidence" }
    else
      { path := path
        bucket := .dead
        rule := "no_static_inbound_reference"
        detail := "nothing in this tree statically references this file" }

/-! ## 4.  The report -/

structure AttributionInput where
  inventory : Dict String
  skipped : List String
  members : Dict (List String)
  entryPoints : List String
  floor : ℚ := 9 / 10
  maxUnresolved : ℚ := 1 / 10

def Share.exceeds : Share → ℚ → Bool
  | .measured value, threshold => threshold < value
  | .notCollected _, _ => false

namespace AttributionInput

variable (inp : AttributionInput)

/-- The source files that were read. -/
def readable : Dict String := inp.inventory.filter fun p _ => inDenominator p

/-- The source files that could not be read. -/
def skippedIn : List String := sortedSet (inp.skipped.filter (inDenominator ·))

def denominator : List String := sortedSet (inp.readable.keys ++ inp.skippedIn)

def graph : ReferenceGraph := build isWord inp.readable

def guardTripped : Bool := (inp.graph isWord).unresolvedRelativeRate.exceeds inp.maxUnresolved

def context : Context where
  memberOf := Attribution.memberOf inp.members
  neighbours := Attribution.neighbours (inp.graph isWord).edges
  skipped := inp.skippedIn
  parsed := (inp.graph isWord).parsed
  entryPoints := inp.entryPoints
  guardTripped := inp.guardTripped isWord

def files : List FileAttribution := inp.denominator.map (classify isWord (inp.context isWord))

def count (b : FileBucket) : ℕ := ((inp.files isWord).filter (·.bucket = b)).length

/-- The share of the files that are accounted for. -/
def ratio : ℚ := ((accountedFor.map (inp.count isWord)).sum : ℚ) / inp.denominator.length

def emptyReport (reason : String) : AttributionReport where
  files := []
  counts := fun _ => 0
  coverage := .notCollected reason
  floor := inp.floor
  meetsFloor := false
  deadGuardTripped := false
  graph := inp.graph isWord
  skipped := inp.skippedIn
  counts_agree := fun _ => rfl
  floor_derived := iff_of_false Bool.false_ne_true fun ⟨_, h, _⟩ => nomatch h

/-- `attribute`. -/
def report : AttributionReport :=
  if inp.denominator = [] then inp.emptyReport isWord "no source files in the tree"
  else if inp.members = ∅ then inp.emptyReport isWord "no capabilities to attribute against"
  else
    { files := inp.files isWord
      counts := inp.count isWord
      coverage := .measured (inp.ratio isWord)
      floor := inp.floor
      meetsFloor := inp.floor ≤ inp.ratio isWord
      deadGuardTripped := inp.guardTripped isWord
      graph := inp.graph isWord
      skipped := inp.skippedIn
      counts_agree := fun _ => rfl
      floor_derived := by simp }

end AttributionInput

/-! ## 5.  What a report should say -/

section Sound

variable (inp : AttributionInput)

/-- A path is a source file of the tree, read or not. -/
def InTree (p : String) : Prop :=
  inDenominator p = true ∧ (p ∈ inp.inventory ∨ p ∈ inp.skipped)

/-- What it takes to call a file dead. -/
structure Unreferenced (p : String) : Prop where
  readable : p ∈ inp.inventory ∧ p ∉ inp.skipped
  source : inDenominator p = true
  parsed : extensionOf p ∈ extractorExtensions isWord
  not_test : isTestPath p = false
  not_entry : p ∉ inp.entryPoints
  not_config : isConfigPath isWord p = false
  not_named : ∀ q ∈ inp.inventory, q ≠ p →
    ∀ i ∈ extract isWord q (inp.inventory.getD q ""), p ∉ candidates inp.readable i

/-- Every file of the tree has one bucket, the coverage is the share of the accounted files, and a
dead file is not referenced. -/
structure Sound (report : AttributionReport) : Prop where
  once : Lists (report.files.map (·.path)) (InTree inp)
  coverage : report.coverage = .measured
    (((report.files.filter (·.bucket ∈ accountedFor)).length : ℚ) / report.files.length)
  dead : ∀ f ∈ report.files, f.bucket = .dead → Unreferenced isWord inp f.path

/-- A file that an edge alone could keep from being dead, and that has none. -/
structure Exposed (p : String) : Prop where
  readable : p ∈ inp.inventory ∧ p ∉ inp.skipped
  source : inDenominator p = true
  parsed : extensionOf p ∈ extractorExtensions isWord
  unclaimed : ∀ m ∈ inp.members.toList, p ∉ m.2
  not_config : isConfigPath isWord p = false
  not_tooling : basename p ∉ buildToolingNames
  not_entry : p ∉ inp.entryPoints
  not_test : isTestPath p = false
  no_edge : ∀ i ∈ imports isWord inp.readable, ∀ q, resolve inp.readable i = .edge q →
    i.sourcePath ≠ p ∧ q ≠ p

/-- Too many relative imports fail, or no target that is left open names another file that only an
edge could keep from being dead. -/
def Settled : Prop :=
  inp.guardTripped isWord = true ∨ ∀ i ∈ imports isWord inp.readable,
    LeftOpen inp.readable i → ∀ p ∈ found inp.readable i, ¬ Exposed isWord inp p

end Sound

/-! ## 6.  The tables -/

variable {p : String}

theorem mem_memberOf {members : Dict (List String)} :
    p ∈ memberOf members ↔ ∃ m ∈ members.toList, p ∈ m.2 := by
  have hfold : ∀ (rows : List (String × String)) (d : Dict Claims),
      p ∈ rows.foldl addMember d ↔ p ∈ d ∨ ∃ r ∈ rows, r.1 = p := by
    intro rows
    induction rows with
    | nil => simp
    | cons r rows ih =>
      intro d
      rw [List.foldl_cons, ih, addMember, Dict.mem_insert]
      simp only [List.mem_cons, exists_eq_or_imp]
      tauto
  rw [memberOf, hfold, or_iff_right (by simp)]
  constructor
  · rintro ⟨r, hr, rfl⟩
    obtain ⟨m, hm, hrow⟩ := List.mem_flatMap.mp hr
    obtain ⟨path, hpath, rfl⟩ := List.mem_map.mp hrow
    exact ⟨m, hm, hpath⟩
  · rintro ⟨m, hm, hp⟩
    exact ⟨(p, m.1), List.mem_flatMap.mpr ⟨m, hm, List.mem_map.mpr ⟨p, hp, rfl⟩⟩, rfl⟩

theorem neighbours_eq_nil_iff {edges : List (String × String)} :
    neighbours edges p = [] ↔ ∀ e ∈ edges, e.1 ≠ p ∧ e.2 ≠ p := by
  rw [neighbours, List.filterMap_eq_nil_iff]
  refine forall₂_congr fun e _ => ?_
  split
  · rename_i h
    exact iff_of_false (by simp) fun hne => hne.1 h
  · rename_i h
    split
    · rename_i h'
      exact iff_of_false (by simp) fun hne => hne.2 h'
    · rename_i h'
      exact iff_of_true rfl ⟨h, h'⟩

theorem inDenominator_of_parsed (h : extensionOf p ∈ extractorExtensions isWord) :
    inDenominator p = true := by
  have hforms : extractorExtensions isWord =
      [".py", ".py", ".py"] ++ js ++ js ++ js ++ js ++ [".go"] ++ jvm ++
        [".rb", ".rb", ".php", ".php", ".cs", ".rs", ".rs", ".ex", ".exs", ".swift"] := rfl
  have hsource : ∀ ext ∈ extractorExtensions isWord, ext ∈ sourceExtensions := by
    rw [hforms]
    decide
  exact decide_eq_true (hsource _ h)

section Input

variable {isWord} {inp : AttributionInput}

theorem get?_readable (p : String) :
    inp.readable[p]? = if inDenominator p = true then inp.inventory[p]? else none := by
  rw [AttributionInput.readable, Dict.get?_filter]
  split
  · rename_i h
    cases inp.inventory[p]? with
    | none => rfl
    | some content => exact Option.filter_some_pos h
  · rename_i h
    cases inp.inventory[p]? with
    | none => rfl
    | some content => exact Option.filter_some_neg (Bool.not_eq_true _ ▸ h)

theorem mem_readable {p : String} :
    p ∈ inp.readable ↔ p ∈ inp.inventory ∧ inDenominator p = true := by
  rw [Dict.mem_iff_get?, get?_readable, Dict.mem_iff_get?]
  split <;> simp_all

theorem mem_skippedIn {p : String} :
    p ∈ inp.skippedIn ↔ p ∈ inp.skipped ∧ inDenominator p = true := by
  rw [AttributionInput.skippedIn, mem_sortedSet, List.mem_filter]

theorem lists_denominator : Lists inp.denominator (InTree inp) := by
  refine ⟨(lists_sortedSet _).1, fun p => ?_⟩
  have hkeys : p ∈ inp.readable.keys ↔ p ∈ inp.inventory ∧ inDenominator p = true :=
    ((lists_keys _).2 p).trans mem_readable
  rw [AttributionInput.denominator, mem_sortedSet, List.mem_append, hkeys, mem_skippedIn,
    ← or_and_right, and_comm, InTree]

theorem mem_context_parsed {p : String} : p ∈ (inp.context isWord).parsed ↔
    p ∈ inp.inventory ∧ extensionOf p ∈ extractorExtensions isWord := by
  refine mem_parsedPaths.trans ?_
  rw [mem_readable]
  exact ⟨fun h => ⟨h.1.1, h.2⟩, fun h => ⟨⟨h.1, inDenominator_of_parsed isWord h.2⟩, h.2⟩⟩

theorem mem_imports_of_extract {q : String} {i : Import} (hq : q ∈ inp.inventory)
    (hi : i ∈ extract isWord q (inp.inventory.getD q "")) :
    i ∈ imports isWord inp.readable ∧ i.sourcePath = q := by
  obtain ⟨hsource, hcovered⟩ := mem_extract hi
  have hin : inDenominator q = true := inDenominator_of_parsed isWord hcovered
  subst hsource
  refine ⟨mem_imports.mpr ⟨mem_readable.mpr ⟨hq, hin⟩, ?_⟩, rfl⟩
  rwa [Dict.getD_eq, get?_readable, if_pos hin, ← Dict.getD_eq]

end Input

/-! ## 7.  Which files are dead -/

theorem path_ite {c : Prop} [Decidable c] {a b : FileAttribution} (ha : a.path = p)
    (hb : b.path = p) : (if c then a else b).path = p := by
  split
  · exact ha
  · exact hb

theorem classify_path (ctx : Context) (p : String) : (classify isWord ctx p).path = p := by
  unfold classify
  split
  · rfl
  · refine path_ite rfl (path_ite rfl (path_ite rfl ?_))
    by_cases hsome : ctx.attached p ≠ []
    · rw [dif_pos hsome]
    · rw [dif_neg hsome]
      exact path_ite rfl (path_ite rfl (path_ite rfl (path_ite rfl (path_ite rfl rfl))))

/-- **A file is dead exactly where no other rule fires.** -/
theorem classify_dead_iff {ctx : Context} :
    (classify isWord ctx p).bucket = .dead ↔
      p ∉ ctx.memberOf ∧ p ∉ ctx.skipped ∧ isConfigPath isWord p = false ∧
        basename p ∉ buildToolingNames ∧ p ∈ ctx.parsed ∧ p ∉ ctx.entryPoints ∧
        isTestPath p = false ∧ ctx.neighbours p = [] ∧ ctx.guardTripped = false := by
  have hattached : ctx.neighbours p = [] → ctx.attached p = [] := by
    intro h
    rw [Context.attached, h]
    rfl
  unfold classify
  split
  · rename_i bcs hbcs
    refine iff_of_false (by simp) fun h => h.1 ?_
    exact (Dict.mem_iff_get? _ _).mpr ⟨bcs, hbcs⟩
  · rename_i hnone
    have hunclaimed : p ∉ ctx.memberOf := (Dict.notMem_iff_get? _ _).mpr hnone
    by_cases hskipped : p ∈ ctx.skipped
    · rw [if_pos hskipped]
      exact iff_of_false nofun fun h => h.2.1 hskipped
    rw [if_neg hskipped]
    by_cases hconfig : isConfigPath isWord p = true
    · rw [if_pos hconfig]
      exact iff_of_false nofun fun h => Bool.false_ne_true (h.2.2.1.symm.trans hconfig)
    rw [if_neg hconfig]
    by_cases htooling : basename p ∈ buildToolingNames
    · rw [if_pos htooling]
      exact iff_of_false nofun fun h => h.2.2.2.1 htooling
    rw [if_neg htooling]
    by_cases hsome : ctx.attached p ≠ []
    · rw [dif_pos hsome]
      exact iff_of_false nofun fun h => hsome (hattached h.2.2.2.2.2.2.2.1)
    rw [dif_neg hsome]
    by_cases hparsed : p ∉ ctx.parsed
    · rw [if_pos hparsed]
      exact iff_of_false nofun fun h => hparsed h.2.2.2.2.1
    rw [if_neg hparsed]
    by_cases hentry : p ∈ ctx.entryPoints
    · rw [if_pos hentry]
      exact iff_of_false nofun fun h => h.2.2.2.2.2.1 hentry
    rw [if_neg hentry]
    by_cases htest : isTestPath p = true
    · rw [if_pos htest]
      exact iff_of_false nofun fun h => Bool.false_ne_true (h.2.2.2.2.2.2.1.symm.trans htest)
    rw [if_neg htest]
    by_cases hneighbours : ctx.neighbours p ≠ []
    · rw [if_pos hneighbours]
      exact iff_of_false nofun fun h => hneighbours h.2.2.2.2.2.2.2.1
    rw [if_neg hneighbours]
    by_cases hguard : ctx.guardTripped = true
    · rw [if_pos hguard]
      exact iff_of_false nofun fun h => Bool.false_ne_true (h.2.2.2.2.2.2.2.2.symm.trans hguard)
    rw [if_neg hguard]
    exact iff_of_true rfl ⟨hunclaimed, hskipped, Bool.eq_false_iff.mpr hconfig, htooling,
      not_not.mp hparsed, hentry, Bool.eq_false_iff.mpr htest, not_not.mp hneighbours,
      Bool.eq_false_iff.mpr hguard⟩

/-- **A file of the tree is dead exactly where it is exposed and the guard has not tripped.** -/
theorem dead_iff_exposed {inp : AttributionInput} :
    (classify isWord (inp.context isWord) p).bucket = .dead ↔
      Exposed isWord inp p ∧ inp.guardTripped isWord = false := by
  have hedge : (inp.context isWord).neighbours p = [] ↔ ∀ i ∈ imports isWord inp.readable, ∀ q,
      resolve inp.readable i = .edge q → i.sourcePath ≠ p ∧ q ≠ p := by
    refine neighbours_eq_nil_iff.trans ⟨fun h i hi q hq => ?_, fun h e he => ?_⟩
    · exact h (i.sourcePath, q) (mem_edges.mpr ⟨i, hi, hq, rfl⟩)
    · obtain ⟨i, hi, hresolve, hsource⟩ := mem_edges.mp he
      rw [← hsource]
      exact h i hi e.2 hresolve
  have hclaim : p ∉ (inp.context isWord).memberOf ↔ ∀ m ∈ inp.members.toList, p ∉ m.2 := by
    refine (not_congr mem_memberOf).trans ?_
    simp only [not_exists, not_and]
  rw [classify_dead_iff, hclaim, hedge, mem_context_parsed]
  constructor
  · rintro ⟨hclaimed, hskipped, hconfig, htooling, ⟨hin, hparsed⟩, hentry, htest, hnone, hguard⟩
    have hsource := inDenominator_of_parsed isWord hparsed
    refine ⟨⟨⟨hin, fun h => hskipped (mem_skippedIn.mpr ⟨h, hsource⟩)⟩, hsource, hparsed, hclaimed,
      hconfig, htooling, hentry, htest, hnone⟩, hguard⟩
  · rintro ⟨h, hguard⟩
    exact ⟨h.unclaimed, fun hin => h.readable.2 (mem_skippedIn.mp hin).1, h.not_config,
      h.not_tooling, ⟨h.readable.1, h.parsed⟩, h.not_entry, h.not_test, h.no_edge, hguard⟩

/-! ## 8.  Soundness -/

section Sound

variable {isWord} {inp : AttributionInput}

theorem report_of_measured (h : ∃ v, (inp.report isWord).coverage = .measured v) :
    (inp.report isWord).files = inp.files isWord ∧
      (inp.report isWord).coverage = .measured (inp.ratio isWord) := by
  obtain ⟨v, hv⟩ := h
  rw [AttributionInput.report] at hv ⊢
  split at hv
  · exact nomatch hv
  · rename_i hfiles
    split at hv
    · exact nomatch hv
    · rename_i hmembers
      rw [if_neg hfiles, if_neg hmembers]
      exact ⟨rfl, rfl⟩

theorem measured_report (hfiles : inp.denominator ≠ []) (hmembers : inp.members ≠ ∅) :
    ∃ v, (inp.report isWord).coverage = .measured v := by
  rw [AttributionInput.report, if_neg hfiles, if_neg hmembers]
  exact ⟨_, rfl⟩

theorem map_path_files : (inp.files isWord).map (·.path) = inp.denominator := by
  rw [AttributionInput.files, List.map_map]
  exact (List.map_congr_left fun p _ => classify_path isWord _ p).trans (List.map_id _)

theorem sum_count : (accountedFor.map (inp.count isWord)).sum =
    ((inp.files isWord).filter (·.bucket ∈ accountedFor)).length := by
  unfold AttributionInput.count
  generalize inp.files isWord = files
  induction files with
  | nil => rfl
  | cons f files ih =>
    cases hbucket : f.bucket <;> simp [accountedFor, hbucket] at ih ⊢ <;> omega

/-- **A measured report is not sound if a target names an exposed file of another name.** -/
theorem not_sound (h : ∃ v, (inp.report isWord).coverage = .measured v)
    (hguard : inp.guardTripped isWord = false) {p : String} (hexposed : Exposed isWord inp p)
    (hnamed : ∃ i ∈ imports isWord inp.readable, p ∈ found inp.readable i) :
    ¬ Sound isWord inp (inp.report isWord) := by
  intro hsound
  obtain ⟨i, hi, hp⟩ := hnamed
  have hin : p ∈ inp.denominator :=
    (lists_denominator.2 p).mpr ⟨hexposed.source, .inl hexposed.readable.1⟩
  have hrow : classify isWord (inp.context isWord) p ∈ (inp.report isWord).files := by
    rw [(report_of_measured h).1]
    exact List.mem_map_of_mem hin
  have hunreferenced := hsound.dead _ hrow ((dead_iff_exposed isWord).mpr ⟨hexposed, hguard⟩)
  rw [classify_path] at hunreferenced
  obtain ⟨hcandidate, hother⟩ := List.mem_filter.mp hp
  obtain ⟨hread, hextract⟩ := mem_imports.mp hi
  have hsource := mem_readable.mp hread
  rw [Dict.getD_eq, get?_readable, if_pos hsource.2, ← Dict.getD_eq] at hextract
  exact hunreferenced.not_named i.sourcePath hsource.1 (Ne.symm (of_decide_eq_true hother)) i
    hextract hcandidate

/-- **A measured report is sound exactly where too many relative imports fail, or no target that is
left open names another file that an edge alone could keep from being dead.** -/
theorem dead_sound_iff (h : ∃ v, (inp.report isWord).coverage = .measured v) :
    Sound isWord inp (inp.report isWord) ↔ Settled isWord inp := by
  obtain ⟨hfiles, hcoverage⟩ := report_of_measured h
  constructor
  · intro hsound
    by_contra hopen
    rw [Settled, not_or] at hopen
    obtain ⟨hguard, hnamed⟩ := hopen
    apply hnamed
    intro i hi _ p hp hexposed
    exact not_sound h (Bool.eq_false_iff.mpr hguard) hexposed ⟨i, hi, hp⟩ hsound
  · intro hsettled
    refine ⟨?_, ?_, ?_⟩
    · rw [hfiles, map_path_files]
      exact lists_denominator
    · rw [hcoverage, hfiles, AttributionInput.ratio, sum_count]
      have hlength : (inp.files isWord).length = inp.denominator.length := List.length_map _
      rw [hlength]
    · intro f hf hdead
      rw [hfiles] at hf
      obtain ⟨p, -, rfl⟩ := List.mem_map.mp hf
      rw [classify_path]
      obtain ⟨hexposed, hguard⟩ := (dead_iff_exposed isWord).mp hdead
      refine ⟨hexposed.readable, hexposed.source, hexposed.parsed, hexposed.not_test,
        hexposed.not_entry, hexposed.not_config, fun q hq hne i hi hcandidate => ?_⟩
      obtain ⟨himport, rfl⟩ := mem_imports_of_extract hq hi
      have hfound : p ∈ found inp.readable i :=
        List.mem_filter.mpr ⟨hcandidate, decide_eq_true (Ne.symm hne)⟩
      rcases edge_or_leftOpen hfound with hedge | hleft
      · exact (hexposed.no_edge i himport p hedge).2 rfl
      · rcases hsettled with htripped | hnamed
        · exact Bool.false_ne_true (hguard ▸ htripped)
        · exact hnamed i himport hleft p hfound hexposed

end Sound

/-! ## 9.  A file that another names -/

/-- The ASCII characters of `\w`. -/
def asciiWord (c : Char) : Bool := c.isAlphanum || c = '_'

def settledTree : AttributionInput where
  inventory := Dict.ofItems [("app.py", "from lib.helper import x\n"),
    ("lib/helper.py", "x = 1\n"), ("unused.py", "y = 1\n")]
  skipped := ["broken.py", "notes.txt"]
  members := Dict.ofItems [("BC-001", ["app.py"])]
  entryPoints := []

theorem dead_sound_iff_sample : Sound asciiWord settledTree (settledTree.report asciiWord) ∧
    settledTree.denominator = ["app.py", "broken.py", "lib/helper.py", "unused.py"] ∧
    (classify asciiWord (settledTree.context asciiWord) "unused.py").bucket = .dead := by
  have hclosed : ∀ i ∈ imports asciiWord settledTree.readable,
      ¬ LeftOpen settledTree.readable i := by decide +kernel
  have hmeasured : ∃ v, (settledTree.report asciiWord).coverage = .measured v :=
    measured_report (by decide +kernel) (by decide +kernel)
  refine ⟨(dead_sound_iff hmeasured).mpr (.inr fun i hi hleft => ?_), by decide +kernel, by
    decide +kernel⟩
  exact absurd hleft (hclosed i hi)

/-- A package and its main module have one name, so the module is matched under two candidates. -/
def mainTree : AttributionInput where
  inventory := Dict.ofItems [("api.py", ""), ("app.py", "from main import run\n"),
    ("main/main.py", "def run(): ...\n")]
  skipped := []
  members := Dict.ofItems [("BC-001", ["api.py"])]
  entryPoints := []

/-- Two packages have a module of one name. -/
def helperTree : AttributionInput where
  inventory := Dict.ofItems [("a/pkg/helper.py", ""), ("api.py", ""), ("b/pkg/helper.py", ""),
    ("src/app.py", "from pkg.helper import thing\n")]
  skipped := []
  members := Dict.ofItems [("BC-001", ["api.py"])]
  entryPoints := []

theorem exposed_of_no_edges {inp : AttributionInput}
    (hnone : ∀ i ∈ imports isWord inp.readable, edgeOf inp.readable i = none)
    (hreadable : p ∈ inp.inventory ∧ p ∉ inp.skipped)
    (hparsed : extensionOf p ∈ extractorExtensions isWord)
    (hunclaimed : ∀ m ∈ inp.members.toList, p ∉ m.2) (hconfig : isConfigPath isWord p = false)
    (htooling : basename p ∉ buildToolingNames) (hentry : p ∉ inp.entryPoints)
    (htest : isTestPath p = false) : Exposed isWord inp p where
  readable := hreadable
  source := inDenominator_of_parsed isWord hparsed
  parsed := hparsed
  unclaimed := hunclaimed
  not_config := hconfig
  not_tooling := htooling
  not_entry := hentry
  not_test := htest
  no_edge := fun i hi q hq => by
    have hedge : edgeOf inp.readable i = some (i.sourcePath, q) :=
      edgeOf_eq_some_iff.mpr ⟨hq, rfl⟩
    exact absurd ((hnone i hi).symm.trans hedge) (by simp)

/-- **A file that an import names is dead: the one file that it can name, or each of two.** -/
theorem referenced_file_dead :
    ((∃ v, (mainTree.report asciiWord).coverage = .measured v) ∧
      (∃ i ∈ imports asciiWord mainTree.readable,
        found mainTree.readable i = ["main/main.py", "main/main.py"]) ∧
      (classify asciiWord (mainTree.context asciiWord) "main/main.py").bucket = .dead ∧
      ¬ Sound asciiWord mainTree (mainTree.report asciiWord)) ∧
    (∃ v, (helperTree.report asciiWord).coverage = .measured v) ∧
      (∃ i ∈ imports asciiWord helperTree.readable,
        found helperTree.readable i = ["a/pkg/helper.py", "b/pkg/helper.py"]) ∧
      (classify asciiWord (helperTree.context asciiWord) "a/pkg/helper.py").bucket = .dead ∧
      ¬ Sound asciiWord helperTree (helperTree.report asciiWord) := by
  have hmain : Exposed asciiWord mainTree "main/main.py" :=
    exposed_of_no_edges asciiWord (by decide +kernel) (by decide +kernel) (by decide +kernel)
      (by decide +kernel) (by decide +kernel) (by decide +kernel) (by decide +kernel)
      (by decide +kernel)
  have hhelper : Exposed asciiWord helperTree "a/pkg/helper.py" :=
    exposed_of_no_edges asciiWord (by decide +kernel) (by decide +kernel) (by decide +kernel)
      (by decide +kernel) (by decide +kernel) (by decide +kernel) (by decide +kernel)
      (by decide +kernel)
  have hmainFound : ∃ i ∈ imports asciiWord mainTree.readable,
      found mainTree.readable i = ["main/main.py", "main/main.py"] := by decide +kernel
  have hhelperFound : ∃ i ∈ imports asciiWord helperTree.readable,
      found helperTree.readable i = ["a/pkg/helper.py", "b/pkg/helper.py"] := by decide +kernel
  have hmainGuard : mainTree.guardTripped asciiWord = false := by decide +kernel
  have hhelperGuard : helperTree.guardTripped asciiWord = false := by decide +kernel
  have hmainMeasured : ∃ v, (mainTree.report asciiWord).coverage = .measured v :=
    measured_report (by decide +kernel) (by decide +kernel)
  have hhelperMeasured : ∃ v, (helperTree.report asciiWord).coverage = .measured v :=
    measured_report (by decide +kernel) (by decide +kernel)
  refine ⟨⟨hmainMeasured, hmainFound, (dead_iff_exposed _).mpr ⟨hmain, hmainGuard⟩, ?_⟩,
    hhelperMeasured, hhelperFound, (dead_iff_exposed _).mpr ⟨hhelper, hhelperGuard⟩, ?_⟩
  · obtain ⟨i, hi, hfound⟩ := hmainFound
    exact not_sound hmainMeasured hmainGuard hmain ⟨i, hi, hfound ▸ List.mem_cons_self⟩
  · obtain ⟨i, hi, hfound⟩ := hhelperFound
    exact not_sound hhelperMeasured hhelperGuard hhelper ⟨i, hi, hfound ▸ List.mem_cons_self⟩

end Kroker.Attribution
