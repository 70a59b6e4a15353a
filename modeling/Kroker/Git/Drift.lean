import Kroker.Git.Host
import Kroker.Harness.Patterns

/-!
# The test-drift backstop

`check_test_drift` of `vcs/git.py`: whether anything under the protected globs differs from an
anchor.  It asks git which protected paths are hidden by an index bit, clears the bits, and asks for
the paths that differ.  Both answers are read line by line.
-/

namespace Kroker.Vcs

variable {W : Type} (host : Host W)

structure DriftInput where
  worktree : String
  anchor : String
  fenceGlobs : List String
  reportGlobs : List String
  maxChars : ℤ := 60000

/-- Both kinds of globs. -/
def DriftInput.globs (inp : DriftInput) : List String := inp.fenceGlobs ++ inp.reportGlobs

structure DriftReport where
  available : Bool := true
  unavailableReason : String := ""
  fencePaths : List String := []
  reportPaths : List String := []
  indexBitPaths : List String := []
  patch : String := ""

def matchesAny (path : String) (globs : List String) : Bool :=
  globs.any fun g => fnmatch (asPosix path) g

/-- `text[:n]`. -/
def takeText (n : ℤ) (text : String) : String :=
  match n with
  | .ofNat n => String.ofList (text.toList.take n)
  | .negSucc n => String.ofList (text.toList.take (text.toList.length - (n + 1)))

/-- A tag of `git ls-files -v` says that an index bit is set; tags are ASCII letters. -/
def hides (tag : Char) : Bool := tag = 'S' || tag.isLower

/-- The hidden path in a line of `git ls-files -v`. -/
def hiddenPath : List Char → Option String
  | tag :: ' ' :: c :: rest =>
    if hides tag then some (strip (String.ofList (c :: rest))) else none
  | _ => none

/-- The path in a line of `git diff --name-status`: what stands after its first tab. -/
def changedPath (line : List Char) : Option String :=
  if '\t' ∈ line then some (strip (String.ofList (line.dropWhile (· ≠ '\t')).tail)) else none

def lsFilesArgs (globs : List String) : List String := ["ls-files", "-v", "--"] ++ globs

def statusArgs (anchor : String) (globs : List String) : List String :=
  ["diff", "--name-status", anchor, "--"] ++ globs

def patchArgs (anchor : String) (globs : List String) : List String :=
  ["diff", anchor, "--"] ++ globs

/-- The paths of `_index_bit_paths`, in what `git ls-files` has answered. -/
def hiddenIn (out : Completed) : List String :=
  if out.returncode ≠ 0 then []
  else ((splitlines out.stdout.toList).filterMap hiddenPath).insertionSort (· ≤ ·)

def indexBitPaths (worktree : String) (globs : List String) : Shell W (List String) := do
  let out ← host.git (lsFilesArgs globs) worktree
  pure (hiddenIn out)

def clearBits (worktree : String) : List String → Shell W Unit
  | [] => pure ()
  | path :: rest => do
    let _ ← host.git ["update-index", "--no-skip-worktree", path] worktree
    let _ ← host.git ["update-index", "--no-assume-unchanged", path] worktree
    clearBits worktree rest

/-- `(a or b).strip()`. -/
def detailOf (a b : String) : String := strip (if a = "" then b else a)

/-- The paths that have changed, in what `git diff --name-status` has answered. -/
def changedIn (status : Completed) : List String :=
  (splitlines status.stdout.toList).filterMap changedPath

/-- The report, if every question has been answered. -/
def DriftInput.report (inp : DriftInput) (hidden changed : List String) (patch : String) :
    DriftReport :=
  let fence := sortedSet (changed.filter (matchesAny · inp.fenceGlobs))
  { fencePaths := fence
    reportPaths := sortedSet (changed.filter (· ∉ fence))
    indexBitPaths := hidden
    patch := patch }

/-- The text of the differences, if there are any and git shows them. -/
def patchOf (inp : DriftInput) (changed : List String) : Shell W String :=
  if changed = [] then pure ""
  else do
    let pr ← host.git (patchArgs inp.anchor inp.globs) inp.worktree
    pure (if pr.returncode = 0 then takeText inp.maxChars pr.stdout else "")

def checkTestDrift (inp : DriftInput) : Shell W DriftReport :=
  if inp.globs = [] then pure { available := false, unavailableReason := "empty drift set" }
  else do
    let probe ← host.git ["rev-parse", "--verify", inp.anchor ++ "^{commit}"] inp.worktree
    if probe.returncode ≠ 0 then
      pure
        { available := false
          unavailableReason := "anchor " ++ inp.anchor ++ " unresolvable: " ++
            detailOf probe.stderr probe.stdout }
    else
      let hidden ← indexBitPaths host inp.worktree inp.globs
      clearBits host inp.worktree hidden
      let status ← host.git (statusArgs inp.anchor inp.globs) inp.worktree
      if status.returncode ≠ 0 then
        pure
          { available := false
            unavailableReason := "diff failed: " ++ detailOf status.stderr status.stdout }
      else
        let patch ← patchOf host inp (changedIn status)
        pure (inp.report hidden (changedIn status) patch)

end Kroker.Vcs
