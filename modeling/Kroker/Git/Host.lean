import Kroker.Library.Script
import Kroker.Core.PosixPath
import Kroker.Core.Lines

/-!
# Running git

`vcs/git.py` and `vcs/worktree.py`: every git command is a process of its own, run in a directory.
The file system and the repositories are a world that only the host knows: it says whether a path is
there, and what a command prints and makes of the world.  A command that cannot be started, and a
directory that cannot be removed, is an `OSError`; how a command has gone is its return code.
-/

namespace Kroker.Vcs

/-- `subprocess.CompletedProcess`. -/
structure Completed where
  returncode : ℤ
  stdout : String
  stderr : String
  deriving DecidableEq

inductive Failure where
  | osError (text : String)
  | runtimeError (message : String)
  deriving DecidableEq

/-- A command as it was run, if it could be started. -/
structure Call (W : Type) where
  argv : List String
  cwd : String
  before : W
  completed : Option Completed

/-- The operating system, and the git on it. -/
structure Host (W : Type) where
  isDir : W → String → Bool
  pathExists : W → String → Bool
  run : List String → String → W → Except String Completed × W
  /-- `shutil.rmtree`. -/
  rmtree : String → W → Except String Unit × W

abbrev Shell (W : Type) := Script W (Call W) Failure

def printed (lines : List (List Char)) : String := String.ofList (lines.flatMap (· ++ ['\n']))

theorem splitlines_printed {lines : List (List Char)}
    (h : ∀ line ∈ lines, ∀ c ∈ line, c ∉ lineBreaks) :
    splitlines (printed lines).toList = lines := by
  rw [printed, String.toList_ofList, splitlines_flatMap h]

variable {W : Type}

namespace Host

variable (host : Host W)

def isdir (path : String) : Shell W Bool := Script.look fun w => host.isDir w path

/-- `os.path.exists`. -/
def pathexists (path : String) : Shell W Bool := Script.look fun w => host.pathExists w path

/-- `subprocess.run`. -/
def subprocess (argv : List String) (cwd : String) : Shell W Completed := fun w =>
  { result := (host.run argv cwd w).1.mapError .osError
    world := (host.run argv cwd w).2
    trace := [⟨argv, cwd, w, (host.run argv cwd w).1.toOption⟩] }

/-- The command line of `_git`. -/
def gitArgv (args : List String) : List String := "git" :: "-c" :: "safe.directory=*" :: args

def git (args : List String) (cwd : String) : Shell W Completed :=
  host.subprocess (gitArgv args) cwd

def rmtreeOnce (path : String) : Shell W Unit := fun w =>
  { result := (host.rmtree path w).1.mapError .osError
    world := (host.rmtree path w).2
    trace := [] }

/-- `_rmtree_with_retry`, with this many more attempts after the first. -/
def rmtreeWithRetry (path : String) : ℕ → Shell W Unit
  | 0 => host.rmtreeOnce path
  | more + 1 => do
    match ← (host.rmtreeOnce path).attempt with
    | .ok () => pure ()
    | .error _ => rmtreeWithRetry path more

/-! ## 1.  Worktrees -/

/-- `a.strip() or b.strip()`. -/
def firstText (a b : String) : String := if strip a = "" then strip b else strip a

/-- The path of the worktree that has the branch checked out, in the lines of `git worktree list
--porcelain`, where `current` is the last path that was read. -/
def worktreeOf (branch : String) : Option String → List (List Char) → Option String
  | _, [] => none
  | current, line :: lines =>
    if "worktree ".toList.isPrefixOf line then
      worktreeOf branch (some (normpath (strip (String.ofList (line.drop 9))))) lines
    else
      let ref := strip (String.ofList (line.drop 7))
      if "branch ".toList.isPrefixOf line = true ∧ current.isSome = true ∧
          (ref = branch ∨ ref = "refs/heads/" ++ branch) then current
      else worktreeOf branch current lines

def findLiveWorktreeForBranch (repo branch : String) : Shell W (Option String) := do
  let result ← host.subprocess ["git", "worktree", "list", "--porcelain"] repo
  if result.returncode ≠ 0 then pure none
  else pure (worktreeOf branch none (splitlines result.stdout.toList))

def clearWorktreeDir (repo path : String) : Shell W Unit := do
  let _ ← host.subprocess ["git", "worktree", "remove", "-f", path] repo
  let _ ← host.subprocess ["git", "worktree", "prune"] repo
  if ← host.pathexists path then host.rmtreeWithRetry path 2 else pure ()

def live (cand : String) : Shell W Bool := do
  if ← host.isdir cand then
    let probe ← host.git ["rev-parse", "--is-inside-work-tree"] cand
    pure (probe.returncode = 0)
  else pure false

/-- What is at a candidate is cleared away; the error, if it cannot be. -/
def clearStale (repo cand : String) : Shell W (Option Failure) := do
  if ← host.pathexists cand then
    match ← (host.clearWorktreeDir repo cand).attempt with
    | .ok () => pure none
    | .error e => pure (some e)
  else pure none

/-- The loop over candidates: the first that is live is reused, and the first other that is clear is
made afresh. -/
def forCandidates {α : Type} (repo : String) (reuse fresh : String → Shell W α)
    (exhausted : Option Failure → Shell W α) : Option Failure → List String → Shell W α
  | lastErr, [] => exhausted lastErr
  | _, cand :: rest => do
    if ← host.live cand then reuse cand
    else
      match ← host.clearStale repo cand with
      | some e => forCandidates repo reuse fresh exhausted (some e) rest
      | none => fresh cand

/-- `path`, `path.1`, ... -/
def candidates (path : String) : List String :=
  path :: (List.range' 1 7).map fun i => path ++ "." ++ toString i

def addForBranch (repo branch fromRef cand : String) : Shell W String := do
  let probe ← host.subprocess ["git", "rev-parse", "--verify", "--quiet", branch] repo
  let wt ← host.subprocess
    (if probe.returncode = 0 then ["git", "worktree", "add", cand, branch]
      else ["git", "worktree", "add", "-b", branch, cand, fromRef]) repo
  if wt.returncode ≠ 0 then
    Script.throw (.runtimeError ("git worktree add failed (rc=" ++ toString wt.returncode ++ "): " ++
      firstText wt.stderr wt.stdout))
  else pure cand

def noCandidate (path : String) (lastErr : Option Failure) : Failure :=
  let shown := match lastErr with
    | some (.osError text) => text
    | _ => "None"
  .runtimeError ("could not clear or create worktree at " ++ path ++
    " (tried 8 candidate paths). Last clear error: " ++ shown ++
    ". Likely a process is holding the dir as its CWD — kill it or reboot.")

def ensureWorktree (repo branch path fromRef : String) : Shell W String := do
  let _ ← host.subprocess ["git", "worktree", "prune"] repo
  let path := normpath path
  let existing ← host.findLiveWorktreeForBranch repo branch
  let create := host.forCandidates repo pure (host.addForBranch repo branch fromRef)
    (fun lastErr => Script.throw (noCandidate path lastErr)) none (candidates path)
  match existing with
  | some existing => if ← host.isdir existing then pure existing else create
  | none => create

end Host

/-! ## 2.  What a command has left -/

variable {host : Host W}

theorem result_subprocess {argv : List String} {cwd : String} {w : W} {done : Completed}
    (h : (host.subprocess argv cwd w).result = .ok done) : (host.run argv cwd w).1 = .ok done := by
  change (host.run argv cwd w).1.mapError Failure.osError = _ at h
  cases hrun : (host.run argv cwd w).1 with
  | error e =>
    rw [hrun] at h
    cases h
  | ok done' =>
    rw [hrun] at h
    exact congrArg Except.ok (Except.ok.inj h)

theorem git_run {args : List String} {cwd : String} {w w' : W} {done : Completed}
    (h : host.run (Host.gitArgv args) cwd w = (.ok done, w')) :
    host.git args cwd w = ⟨.ok done, w', [⟨Host.gitArgv args, cwd, w, some done⟩]⟩ := by
  rw [Host.git, Host.subprocess, h]
  rfl

theorem run_of_git {args : List String} {cwd : String} {w : W} {done : Completed}
    (h : (host.git args cwd w).result = .ok done) :
    host.run (Host.gitArgv args) cwd w = (.ok done, (host.git args cwd w).world) :=
  Prod.ext (result_subprocess h) rfl

end Kroker.Vcs
