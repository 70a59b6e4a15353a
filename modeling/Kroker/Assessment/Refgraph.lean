import Kroker.Core.PosixPath
import Kroker.Harness.Patterns
import Kroker.Library.Keyed
import Kroker.Library.Regex
import Mathlib.Data.Prod.Lex
import Mathlib.Algebra.Order.Ring.Rat

/-!
# The reference graph

`assessment/discover/refgraph.py`: the import targets of a tree of source files are extracted by a
table of regular expressions, and each target is resolved to the files that it can name.  A target
that names one other file gives an edge; one that names several is left open.

`isWord` says which characters are letters, digits or underscores for `\w`.

* `extract` --- the targets of a file;
* `candidates` --- the files of a tree that a target can name;
* `resolve` --- what becomes of a target;
* `build` --- the graph.
-/

namespace Kroker.Attribution

/-! ## 1.  Import forms -/

def sourceExtensions : List String :=
  [".py", ".js", ".jsx", ".ts", ".tsx", ".go", ".rs", ".java", ".rb", ".php", ".cs", ".kt",
    ".swift", ".scala", ".ex", ".exs", ".vue", ".svelte"]

/-- A form of import.  The pattern's group is the target; `relative` is `none` where the target
decides. -/
structure ImportForm where
  name : String
  extensions : List String
  pattern : Regex
  relative : Option Bool := none

section Forms

open Regex

variable (isWord : Char → Bool)

def isQuote (c : Char) : Bool := c.toNat = 34 || c.toNat = 39

/-- A character of `\w` or one of these. -/
def wordOr (others : List Char) (c : Char) : Bool := isWord c || c ∈ others

def lineHead : Regex := .seq (.start true) (.many isSpace)

def lineWord (word : String) : Regex := all [lineHead, text word.toList, plus isSpace]

def maybeWord (word : String) : Regex := .maybe (.seq (text word.toList) (plus isSpace))

def quotedTarget : Regex :=
  all [.one isQuote, .group (plus fun c => !isQuote c), .one isQuote]

def js : List String := [".js", ".jsx", ".ts", ".tsx", ".vue", ".svelte"]

def jvm : List String := [".java", ".kt", ".scala"]

def importForms : List ImportForm := [
  { name := "python_from"
    extensions := [".py"]
    pattern := all [lineWord "from", .group (plus (wordOr isWord ['.'])), plus isSpace,
      text "import".toList, .boundary isWord] },
  { name := "python_from_bare"
    extensions := [".py"]
    pattern := all [lineWord "from", plus (· = '.'), plus isSpace, text "import".toList,
      plus isSpace, .group (plus isWord)]
    relative := some true },
  { name := "python_import"
    extensions := [".py"]
    pattern := .seq (lineWord "import") (.group (plus (wordOr isWord ['.']))) },
  { name := "js_from"
    extensions := js
    pattern := all [.boundary isWord, text "from".toList, plus isSpace, quotedTarget] },
  { name := "js_bare"
    extensions := js
    pattern := .seq (lineWord "import") quotedTarget },
  { name := "js_require"
    extensions := js
    pattern := all [.boundary isWord, text "require(".toList, .many isSpace, quotedTarget] },
  { name := "js_dynamic"
    extensions := js
    pattern := all [.boundary isWord, text "import(".toList, .many isSpace, quotedTarget] },
  { name := "go_import"
    extensions := [".go"]
    pattern := all [lineHead, maybeWord "import", .maybe (.one (· = '_')), .many isSpace,
      .one (·.toNat = 34), .group (plus (wordOr isWord ['.', '/', '-'])), .one (·.toNat = 34),
      .many isSpace, .stop true] },
  { name := "jvm_import"
    extensions := jvm
    pattern := all [lineWord "import", maybeWord "static", .group (plus (wordOr isWord ['.']))]
    relative := some false },
  { name := "ruby_require_relative"
    extensions := [".rb"]
    pattern := .seq (lineWord "require_relative") quotedTarget
    relative := some true },
  { name := "ruby_require"
    extensions := [".rb"]
    pattern := .seq (lineWord "require") quotedTarget },
  { name := "php_use"
    extensions := [".php"]
    pattern := .seq (lineWord "use") (.group (plus (wordOr isWord [Char.ofNat 92])))
    relative := some false },
  { name := "php_include"
    extensions := [".php"]
    pattern := all [.boundary isWord, anyOf ["require".toList, "include".toList],
      .maybe (text "_once".toList), .many isSpace, .maybe (.one (· = '(')), .many isSpace,
      quotedTarget] },
  { name := "csharp_using"
    extensions := [".cs"]
    pattern := all [lineWord "using", .group (plus (wordOr isWord ['.'])), .many isSpace,
      .one (· = ';')]
    relative := some false },
  { name := "rust_use"
    extensions := [".rs"]
    pattern := all [lineHead, maybeWord "pub", text "use".toList, plus isSpace,
      .group (plus (wordOr isWord [':']))]
    relative := some false },
  { name := "rust_mod"
    extensions := [".rs"]
    pattern := all [lineHead, maybeWord "pub", text "mod".toList, plus isSpace,
      .group (plus isWord), .many isSpace, .one (· = ';')]
    relative := some true },
  { name := "elixir_alias"
    extensions := [".ex", ".exs"]
    pattern := all [lineHead, anyOf ["alias".toList, "import".toList], plus isSpace,
      .group (plus (wordOr isWord ['.']))]
    relative := some false },
  { name := "swift_import"
    extensions := [".swift"]
    pattern := .seq (lineWord "import") (.group (plus isWord))
    relative := some false }]

def extractorExtensions : List String := (importForms isWord).flatMap (·.extensions)

/-- `str.lower` as far as it gives ASCII letters: besides the capitals, the Kelvin sign has one. -/
def lowerChar (c : Char) : Char := if c.toNat = 8490 then 'k' else c.toLower

def extensionOf (path : String) : String :=
  String.ofList ((splitext path).toList.map lowerChar)

/-- `str.strip`, of all white space. -/
def stripped (cs : List Char) : List Char := (cs.dropWhile isSpace).rdropWhile isSpace

/-- An import target that a file names, and the form that found it. -/
structure Import where
  sourcePath : String
  form : ImportForm
  target : String

def ImportForm.targets (form : ImportForm) (content : String) : List String :=
  (((form.pattern.findAll content.toList).map stripped).filter (· ≠ [])).map String.ofList

/-- `extract`: the pairs of a form and a target, sorted and without repetitions. -/
def extract (path content : String) : List Import :=
  sortedBy (fun i => toLex (i.form.name, i.target))
    (((importForms isWord).filter (extensionOf path ∈ ·.extensions)).flatMap fun form =>
      (form.targets content).dedup.map fun target => ⟨path, form, target⟩)

end Forms

/-! ## 2.  The files a target can name -/

def isRelative (i : Import) : Bool :=
  i.form.relative.getD (i.target.toList.head? = some '.')

def indexNames : List String := ["index", "__init__", "mod", "main"]

def rootWords : List String := ["crate", "self", "super"]

/-- `_candidate_paths`, as characters. -/
def candidatePaths (fragment : List Char) : List (List Char) :=
  if fragment = [] then []
  else sourceExtensions.map (fragment ++ ·.toList) ++
    indexNames.flatMap fun name =>
      sourceExtensions.map fun ext => fragment ++ '/' :: name.toList ++ ext.toList

def relativeFragment (importer target : String) : String :=
  let dir := dirname importer
  let cs := target.toList
  if "./".toList <+: cs ∨ "../".toList <+: cs then normpath (joinPath dir target)
  else
    let dots := (cs.takeWhile (· = '.')).length
    if dots = 0 then normpath (joinPath dir target)
    else
      -- one dot is the package of the importer, and each further dot walks up one
      let package := dirname^[dots - 1] dir
      let rest := (cs.drop dots).map fun c => if c = '.' then '/' else c
      if rest = [] then package else normpath (joinPath package (String.ofList rest))

/-- The segments between separators, when `cur` has been read of one. -/
def segments : List Char → List Char → List (List Char)
  | cur, [] => [cur]
  | cur, ':' :: ':' :: cs => cur :: segments [] cs
  | cur, c :: cs =>
    if c = '.' ∨ c = Char.ofNat 92 ∨ c = '/' then cur :: segments [] cs
    else segments (cur ++ [c]) cs

def dottedFragment (target : String) : String :=
  joinWith "/" ((((segments [] target.toList).filter (· ≠ [])).map String.ofList).dropWhile
    (· ∈ rootWords))

/-- `_matches`: a path is listed once for each candidate that names it. -/
def pathMatches (fragment : String) (inventory : Dict String) (exact : Bool) : List String :=
  if exact then
    sortedBy id (((candidatePaths fragment.toList).map String.ofList).filter (· ∈ inventory))
  else inventory.keys.flatMap fun path =>
    ((candidatePaths fragment.toList).filter fun candidate =>
      candidate = path.toList ∨ ('/' :: candidate) <:+ path.toList).map fun _ => path

/-- The files of a tree that a target can name. -/
def candidates (inventory : Dict String) (i : Import) : List String :=
  pathMatches (if isRelative i then relativeFragment i.sourcePath i.target
    else dottedFragment i.target) inventory (isRelative i)

/-! ## 3.  Resolution -/

inductive UnresolvedReason where
  | ambiguousSuffix
  | noMatchingPath
  deriving DecidableEq

def UnresolvedReason.text : UnresolvedReason → String
  | .ambiguousSuffix => "ambiguous_suffix"
  | .noMatchingPath => "no_matching_path"

/-- What becomes of a target. -/
inductive Resolution where
  /-- It is made of dots, and names the package itself. -/
  | package
  | edge (imported : String)
  | unresolved (reason : UnresolvedReason)
  /-- It names nothing in the tree. -/
  | external
  deriving DecidableEq

/-- The other files that a target can name. -/
def found (inventory : Dict String) (i : Import) : List String :=
  (candidates inventory i).filter (· ≠ i.sourcePath)

/-- The resolution of a target, in the body of the loop of `build`. -/
def resolve (inventory : Dict String) (i : Import) : Resolution :=
  if i.target.toList.all (· = '.') then .package
  else match found inventory i with
    | [imported] => .edge imported
    | _ :: _ :: _ => .unresolved .ambiguousSuffix
    | [] => if isRelative i then .unresolved .noMatchingPath else .external

/-! ## 4.  The graph -/

inductive Share where
  | measured (value : ℚ)
  | notCollected (reason : String)

structure UnresolvedEdge where
  sourcePath : String
  target : String
  form : String
  reason : UnresolvedReason
  relative : Bool

structure ReferenceGraph where
  edges : List (String × String)
  unresolved : List UnresolvedEdge
  parsed : List String
  unparsed : List String
  unresolvedRelativeRate : Share

section Build

variable (isWord : Char → Bool) (inventory : Dict String)

/-- The files whose extension a form covers. -/
def parsedPaths : List String :=
  inventory.keys.filter fun p => extensionOf p ∈ extractorExtensions isWord

/-- The targets of the files of a tree. -/
def imports : List Import :=
  (parsedPaths isWord inventory).flatMap fun p => extract isWord p (inventory.getD p "")

def edgeOf (i : Import) : Option (String × String) :=
  match resolve inventory i with
  | .edge imported => some (i.sourcePath, imported)
  | _ => none

/-- What is recorded of a target that is left open. -/
def unresolvedOf (i : Import) : Option UnresolvedEdge :=
  match resolve inventory i with
  | .unresolved reason => some ⟨i.sourcePath, i.target, i.form.name, reason, isRelative i⟩
  | _ => none

/-- The relative targets that the rate counts. -/
def relativeImports : List Import :=
  (imports isWord inventory).filter fun i => isRelative i && resolve inventory i ≠ .package

/-- The relative targets that have no edge. -/
def failedImports : List Import :=
  (relativeImports isWord inventory).filter fun i => (unresolvedOf inventory i).isSome

def build : ReferenceGraph where
  edges := sortedBy toLex ((imports isWord inventory).filterMap (edgeOf inventory)).dedup
  unresolved := sortedBy (fun u => toLex (u.sourcePath, toLex (u.form, toLex (u.target,
    u.reason.text)))) ((imports isWord inventory).filterMap (unresolvedOf inventory))
  parsed := parsedPaths isWord inventory
  unparsed := inventory.keys.filter fun p => extensionOf p ∉ extractorExtensions isWord
  unresolvedRelativeRate :=
    if (relativeImports isWord inventory).length = 0 then
      .notCollected "no relative imports in the tree to check resolution against"
    else .measured ((failedImports isWord inventory).length /
      (relativeImports isWord inventory).length)

variable {isWord inventory}

theorem mem_extract {path content : String} {i : Import} (h : i ∈ extract isWord path content) :
    i.sourcePath = path ∧ extensionOf path ∈ extractorExtensions isWord := by
  rw [extract, mem_sortedBy] at h
  obtain ⟨form, hform, htarget⟩ := List.mem_flatMap.mp h
  obtain ⟨hin, hcovers⟩ := List.mem_filter.mp hform
  obtain ⟨target, -, rfl⟩ := List.mem_map.mp htarget
  exact ⟨rfl, List.mem_flatMap.mpr ⟨form, hin, of_decide_eq_true hcovers⟩⟩

theorem mem_parsedPaths {p : String} : p ∈ parsedPaths isWord inventory ↔
    p ∈ inventory ∧ extensionOf p ∈ extractorExtensions isWord := by
  rw [parsedPaths, List.mem_filter, (lists_keys inventory).2, decide_eq_true_eq]

theorem mem_imports {i : Import} : i ∈ imports isWord inventory ↔
    i.sourcePath ∈ inventory ∧
      i ∈ extract isWord i.sourcePath (inventory.getD i.sourcePath "") := by
  rw [imports, List.mem_flatMap]
  constructor
  · rintro ⟨p, hp, hi⟩
    obtain rfl := (mem_extract hi).1
    exact ⟨(mem_parsedPaths.mp hp).1, hi⟩
  · rintro ⟨hp, hi⟩
    exact ⟨i.sourcePath, mem_parsedPaths.mpr ⟨hp, (mem_extract hi).2⟩, hi⟩

theorem edgeOf_eq_some_iff {i : Import} {e : String × String} :
    edgeOf inventory i = some e ↔ resolve inventory i = .edge e.2 ∧ i.sourcePath = e.1 := by
  unfold edgeOf
  split
  · rename_i imported hresolve
    rw [hresolve, Option.some.injEq, Resolution.edge.injEq]
    constructor
    · rintro rfl
      exact ⟨rfl, rfl⟩
    · rintro ⟨rfl, hsource⟩
      exact Prod.ext hsource rfl
  · rename_i hnone
    exact iff_of_false (by simp) fun h => hnone _ h.1

/-- **The edges are those of the targets that are resolved.** -/
theorem mem_edges {e : String × String} : e ∈ (build isWord inventory).edges ↔
    ∃ i ∈ imports isWord inventory, resolve inventory i = .edge e.2 ∧ i.sourcePath = e.1 := by
  rw [build, mem_sortedBy, List.mem_dedup, List.mem_filterMap]
  exact exists_congr fun i => and_congr_right fun _ => edgeOf_eq_some_iff

/-- A target of dots, or one that matches more than once. -/
def LeftOpen (inventory : Dict String) (i : Import) : Prop :=
  resolve inventory i = .package ∨ resolve inventory i = .unresolved .ambiguousSuffix

instance (inventory : Dict String) (i : Import) : Decidable (LeftOpen inventory i) :=
  inferInstanceAs (Decidable (_ ∨ _))

/-- **A target that can name another file has an edge to it, or is left open.** -/
theorem edge_or_leftOpen {i : Import} {p : String} (h : p ∈ found inventory i) :
    resolve inventory i = .edge p ∨ LeftOpen inventory i := by
  unfold LeftOpen resolve
  split
  · exact .inr (.inl rfl)
  · split
    · rename_i imported hone
      rw [hone, List.mem_singleton] at h
      exact .inl (by rw [h])
    · exact .inr (.inr rfl)
    · rename_i hnone
      rw [hnone] at h
      exact nomatch h

end Build

end Kroker.Attribution
