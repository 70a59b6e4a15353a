import Mathlib.Data.List.Infix

/-!
# Regular expressions, as a backtracking engine reads them

A regular expression is read at a *place* of a text: the character before it and the text after it.
`Regex.reads r place` lists the places where a match of `r` can end, in the order in which a
backtracking engine tries them: of two alternatives the left one first, and of a repetition the
longest first.  The first of them is the match.

`Regex.search` asks for a match anywhere, and `Regex.findAll` lists the groups of the matches that
do not overlap, from left to right.  Repetition is of single characters, and at most one group is
captured.
-/

namespace Kroker

/-- A place in a text, with what the group has captured before it. -/
structure Place where
  before : Option Char
  after : List Char
  group : List Char := []

inductive Regex where
  /-- Nothing, which every place reads. -/
  | empty
  /-- One character of a class. -/
  | one (accepts : Char → Bool)
  /-- As many characters of a class as there are, or fewer. -/
  | many (accepts : Char → Bool)
  | seq (first second : Regex)
  | either (first second : Regex)
  | maybe (body : Regex)
  | group (body : Regex)
  /-- The start of the text, or of a line of it. -/
  | start (ofLine : Bool)
  /-- The end of the text or of its last line, or of any line of it. -/
  | stop (ofLine : Bool)
  /-- A place between a character of the class and another or none. -/
  | boundary (accepts : Char → Bool)

namespace Regex

/-- The places that a repetition of a class can end at, the longest first. -/
def readMany (accepts : Char → Bool) (group : List Char) : Option Char → List Char → List Place
  | before, [] => [⟨before, [], group⟩]
  | before, c :: cs =>
    if accepts c then readMany accepts group (some c) cs ++ [⟨before, c :: cs, group⟩]
    else [⟨before, c :: cs, group⟩]

/-- The places where a match can end, in the order of preference. -/
def reads : Regex → Place → List Place
  | empty, p => [p]
  | one accepts, p => match p.after with
    | [] => []
    | c :: cs => if accepts c then [⟨some c, cs, p.group⟩] else []
  | many accepts, p => readMany accepts p.group p.before p.after
  | seq first second, p => (reads first p).flatMap (reads second)
  | either first second, p => reads first p ++ reads second p
  | maybe body, p => reads body p ++ [p]
  | group body, p => (reads body p).map fun q =>
      { q with group := p.after.take (p.after.length - q.after.length) }
  | start ofLine, p =>
    if p.before = none ∨ (ofLine ∧ p.before = some '\n') then [p] else []
  | stop ofLine, p =>
    if p.after = [] ∨ p.after = ['\n'] ∨ (ofLine ∧ p.after.head? = some '\n') then [p] else []
  | boundary accepts, p =>
    if p.before.any accepts ≠ p.after.head?.any accepts then [p] else []

/-- The text of these characters. -/
def text (cs : List Char) : Regex := cs.foldr (fun c r => seq (one (· = c)) r) empty

/-- These expressions, one after another. -/
def all (rs : List Regex) : Regex := rs.foldr seq empty

def anyOf (texts : List (List Char)) : Regex :=
  texts.foldr (fun cs r => either (text cs) r) (one fun _ => false)

/-- At least one character of a class. -/
def plus (accepts : Char → Bool) : Regex := seq (one accepts) (many accepts)

/-- There is a match at this place or later. -/
def searchFrom (r : Regex) : Option Char → List Char → Bool
  | before, [] => reads r ⟨before, [], []⟩ ≠ []
  | before, c :: cs => reads r ⟨before, c :: cs, []⟩ ≠ [] || searchFrom r (some c) cs

def search (r : Regex) (cs : List Char) : Bool := searchFrom r none cs

/-- The groups of the matches, when the first `skip` characters belong to the last match. -/
def findFrom (r : Regex) : ℕ → Option Char → List Char → List (List Char)
  | skip, before, [] => if skip = 0 then ((reads r ⟨before, [], []⟩).take 1).map (·.group) else []
  | skip + 1, _, c :: cs => findFrom r skip (some c) cs
  | 0, before, c :: cs => match reads r ⟨before, c :: cs, []⟩ with
    | [] => findFrom r 0 (some c) cs
    | q :: _ => q.group :: findFrom r (cs.length - q.after.length) (some c) cs

/-- `re.finditer`: the groups of the matches that do not overlap. -/
def findAll (r : Regex) (cs : List Char) : List (List Char) := findFrom r 0 none cs

end Regex

end Kroker
