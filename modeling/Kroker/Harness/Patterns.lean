import Kroker.Core.Text
import Mathlib.Data.List.Infix

/-!
# The patterns of a containment rule

What `harness/containment.py` uses of the standard library to compare a tool call with a rule: globs
(`fnmatch.fnmatch`), POSIX path texts (`Path.as_posix`), command lines with their white space
collapsed (`_norm_cmd`), and the URLs in a command line (`_URL_RE`).

Everything here is a function on lists of characters.  `fnmatch` reads its pattern once into items
and matches these; a star is the one item that has a choice.
-/

namespace Kroker

/-! ## Globs -/

inductive GlobItem where
  | star
  | question
  | literal (c : Char)
  /-- The characters of these ranges, or all others. -/
  | set (negated : Bool) (ranges : List (Char × Char))

/-- Whether a character is one that the item stands for. -/
def GlobItem.accepts : GlobItem → Char → Bool
  | .star, _ => true
  | .question, _ => true
  | .literal d, c => c = d
  | .set negated ranges, c => negated != ranges.any fun r => r.1 ≤ c && c ≤ r.2

/-- The ranges of a set; a hyphen that has no character on both sides stands for itself. -/
def setRanges : List Char → List (Char × Char)
  | [] => []
  | a :: '-' :: b :: cs => (a, b) :: setRanges cs
  | a :: cs => (a, a) :: setRanges cs

/-- The text of a set that has just been opened, and what follows it; `none` when it is not
closed. -/
def setBody (cs : List Char) : Option (List Char × List Char) :=
  let (front, rest) : List Char × List Char := match cs with
    | '!' :: ']' :: rest => (['!', ']'], rest)
    | '!' :: rest => (['!'], rest)
    | ']' :: rest => ([']'], rest)
    | rest => ([], rest)
  if ']' ∈ rest then
    some (front ++ rest.takeWhile (· ≠ ']'), (rest.dropWhile (· ≠ ']')).tail)
  else none

def setItem : List Char → GlobItem
  | '!' :: cs => .set true (setRanges cs)
  | cs => .set false (setRanges cs)

/-- The items of a pattern of at most this length. -/
def globItems : ℕ → List Char → List GlobItem
  | 0, _ => []
  | _ + 1, [] => []
  | n + 1, '*' :: cs => .star :: globItems n cs
  | n + 1, '?' :: cs => .question :: globItems n cs
  | n + 1, '[' :: cs =>
    match setBody cs with
    | none => .literal '[' :: globItems n cs
    | some (stuff, rest) => setItem stuff :: globItems n rest
  | n + 1, c :: cs => .literal c :: globItems n cs

/-- Whether the items stand for the whole text. -/
def globMatches : List GlobItem → List Char → Bool
  | [], cs => cs.isEmpty
  | .star :: items, cs => cs.tails.any fun rest => globMatches items rest
  | item :: items, c :: cs => item.accepts c && globMatches items cs
  | _ :: _, [] => false

def fnmatch (name pattern : String) : Bool :=
  globMatches (globItems pattern.toList.length pattern.toList) name.toList

/-! ## Paths and command lines -/

/-- `Path(path).as_posix()`: repeated slashes and single dots are dropped, and two leading slashes
are kept. -/
def asPosix (path : String) : String :=
  let cs := path.toList
  let root := match cs.takeWhile (· = '/') with
    | [] => ""
    | [_, _] => "//"
    | _ => "/"
  let parts := (cs.splitOn '/').filter fun p => p ≠ [] && p ≠ ['.']
  if root = "" && parts = [] then "."
  else root ++ joinWith "/" (parts.map String.ofList)

def normCmd (command : String) : String :=
  joinWith " " (((command.toList.splitOnP isSpace).filter (· ≠ [])).map String.ofList)

def endsUrl (c : Char) : Bool := isSpace c || c.toNat ∈ [39, 34, 124, 59, 62, 41]

/-- A letter in either case; `s` has a third form. -/
def isLetter (lower c : Char) : Bool := c.toLower = lower || (lower = 's' && c.toNat = 383)

/-- The match of `_URL_RE` at the head of a text, and what follows it. -/
def urlAt (cs : List Char) : Option (List Char × List Char) :=
  match cs with
  | h :: t :: t' :: p :: rest =>
    if isLetter 'h' h && isLetter 't' t && isLetter 't' t' && isLetter 'p' p then
      let (s, rest) : List Char × List Char := match rest with
        | c :: rest => if isLetter 's' c then ([c], rest) else ([], c :: rest)
        | [] => ([], [])
      match rest with
      | ':' :: '/' :: '/' :: rest =>
        match rest.takeWhile (!endsUrl ·) with
        | [] => none
        | body => some (h :: t :: t' :: p :: s ++ [':', '/', '/'] ++ body, rest.dropWhile (!endsUrl ·))
      | _ => none
    else none
  | _ => none

/-- `_URL_RE.findall`, in a text of at most this length. -/
def findUrls : ℕ → List Char → List String
  | 0, _ => []
  | _ + 1, [] => []
  | n + 1, c :: cs =>
    match urlAt (c :: cs) with
    | some (url, rest) => String.ofList url :: findUrls n rest
    | none => findUrls n cs

end Kroker
