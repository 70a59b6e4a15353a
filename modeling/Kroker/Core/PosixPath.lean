import Kroker.Core.Text

/-!
# Paths: the operations of `posixpath` the program takes paths apart with

A path is read as a list of characters, and what follows its last slash is its base name.
-/

namespace Kroker

def basename (path : String) : String :=
  String.ofList (path.toList.reverse.takeWhile (· ≠ '/')).reverse

/-- `posixpath.dirname`: what stands before the last slash, without the slashes at its end unless it
is made of them. -/
def dirname (path : String) : String :=
  let head := (path.toList.reverse.dropWhile (· ≠ '/')).reverse
  String.ofList (if head.all (· = '/') then head else head.rdropWhile (· = '/'))

/-- `posixpath.splitext(path)[1]`: the base name from its last dot, which is not among the dots that
the base name starts with. -/
def splitext (path : String) : String :=
  let base := (basename path).toList
  let ext := (base.reverse.takeWhile (· ≠ '.')).reverse
  let stem := (base.reverse.dropWhile (· ≠ '.')).reverse
  if stem.all (· = '.') then "" else String.ofList ('.' :: ext)

/-- `posixpath.join`. -/
def joinPath (a b : String) : String :=
  if b.toList.head? = some '/' then b
  else if a = "" ∨ a.toList.getLast? = some '/' then a ++ b
  else a ++ "/" ++ b

/-- A component of a path after others, which stand in reverse. -/
def pushComponent (rooted : Bool) (comps : List (List Char)) (comp : List Char) :
    List (List Char) :=
  if comp = [] ∨ comp = ['.'] then comps
  else if comp ≠ ['.', '.'] then comp :: comps
  else match comps with
    | [] => if rooted then [] else [comp]
    | last :: rest => if last = ['.', '.'] then comp :: last :: rest else rest

def normpath (path : String) : String :=
  let cs := path.toList
  let slashes := match cs.takeWhile (· = '/') with
    | [] => ""
    | [_, _] => "//"
    | _ => "/"
  let comps := (cs.splitOn '/').foldl (pushComponent (slashes ≠ "")) []
  let text := slashes ++ joinWith "/" (comps.reverse.map String.ofList)
  if text = "" then "." else text

example : splitext "src/.config/a.b.py" = ".py" ∧ splitext "src.d/..rc" = "" := by decide +kernel

example : normpath "src/a/../../../b/./c" = "../b/c" ∧ dirname "/" = "/" := by decide +kernel

end Kroker
