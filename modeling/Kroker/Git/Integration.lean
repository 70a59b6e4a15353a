import Kroker.Git.Host

/-!
# Disposable worktrees

`vcs/integration.py`: the verification branch, on which the fix branches are merged one after the
other, and the worktree at a pinned base commit.  Both live in a worktree under the root of the
worktrees, that of a verification branch at `verify` and the other at `base`, or at the first of
seven more places where that one is neither live nor can be cleared.
-/

namespace Kroker.Vcs

variable {W : Type} (host : Host W)

structure VerifyBranchInput where
  repoPath : String
  baseSha : String
  tidyupId : String
  branches : List String

structure VerifyResult where
  ref : String
  headSha : String
  merged : List String
  conflicted : List String
  deriving DecidableEq

def mergeOne (worktree branch : String) : Shell W Bool := do
  let result ← host.git ["merge", "--no-ff", "-m", "tidy-up: " ++ branch, branch] worktree
  if result.returncode = 0 then pure true
  else
    let unmerged ← host.git ["ls-files", "--unmerged"] worktree
    let _ ← host.git ["merge", "--abort"] worktree
    if strip unmerged.stdout = "" then
      Script.throw (.runtimeError ("git merge of " ++ branch ++ " failed (not a conflict): " ++
        strip result.stderr))
    else pure false

def mergeAll (worktree : String) : List String → Shell W (List String × List String)
  | [] => pure ([], [])
  | branch :: rest => do
    let merged ← mergeOne host worktree branch
    let (mergedRest, conflicted) ← mergeAll worktree rest
    if merged then pure (branch :: mergedRest, conflicted)
    else pure (mergedRest, branch :: conflicted)

/-- What `build_verification_branch` does in its worktree. -/
def verifyIn (inp : VerifyBranchInput) (worktree : String) : Shell W VerifyResult := do
  let reset ← host.git ["reset", "--hard", inp.baseSha] worktree
  if reset.returncode ≠ 0 then
    Script.throw (.runtimeError ("git reset to base_sha " ++ inp.baseSha ++ " failed: " ++
      Host.firstText reset.stderr reset.stdout))
  else
    let (merged, conflicted) ← mergeAll host worktree inp.branches
    let head ← host.git ["rev-parse", "HEAD"] worktree
    pure
      { ref := "sdlc/tidyup-verify/" ++ inp.tidyupId
        headSha := strip head.stdout
        merged := merged
        conflicted := conflicted }

/-- The path of the verification worktree, below the root of the worktrees. -/
def verifyPath (root : String) (inp : VerifyBranchInput) : String :=
  joinPath (joinPath root inp.tidyupId) "verify"

def buildVerificationBranch (root : String) (inp : VerifyBranchInput) : Shell W VerifyResult := do
  let worktree ← host.ensureWorktree inp.repoPath ("sdlc/tidyup-verify/" ++ inp.tidyupId)
    (verifyPath root inp) inp.baseSha
  verifyIn host inp worktree

structure BaseWorktreeInput where
  integrationWt : String
  runId : String
  baseSha : String

structure BaseWorktree where
  path : Option String
  reason : String := ""
  deriving DecidableEq

/-- A worktree is brought to a commit: these commands, in order. -/
def baseCommands (sha : String) : List (List String) :=
  [["checkout", "--detach", "--force", sha], ["reset", "--hard", sha],
    ["clean", "-fd", "-e", ".sdlc-venv"]]

/-- The commands are run; the reason, if one fails. -/
def runAll (cand : String) : List (List String) → Shell W (Option String)
  | [] => pure none
  | args :: rest => do
    let r ← host.git args cand
    if r.returncode ≠ 0 then
      pure (some ("git " ++ args.headD "" ++ " failed in the base worktree: " ++
        Host.firstText r.stderr r.stdout))
    else runAll cand rest

/-- A live candidate is brought to the commit. -/
def resetBase (sha cand : String) : Shell W BaseWorktree := do
  match ← runAll host cand (baseCommands sha) with
  | some reason => pure ⟨none, reason⟩
  | none =>
    let head ← host.git ["rev-parse", "HEAD"] cand
    if strip head.stdout ≠ sha then
      pure ⟨none, "base worktree HEAD does not match base_sha after reset"⟩
    else pure { path := some cand }

/-- A worktree is added at a clear candidate, and brought to the commit. -/
def addBase (integrationWt sha cand : String) : Shell W BaseWorktree := do
  let add ← host.git ["worktree", "add", "--detach", cand, sha] integrationWt
  if add.returncode ≠ 0 then
    pure ⟨none, "git worktree add failed: " ++ Host.firstText add.stderr add.stdout⟩
  else resetBase host sha cand

def basePath (root : String) (inp : BaseWorktreeInput) : String :=
  joinPath (joinPath root (if inp.runId = "" then "local" else inp.runId)) "base"

def prepareBaseWorktree (root : String) (inp : BaseWorktreeInput) : Shell W BaseWorktree := do
  if inp.baseSha = "" then pure ⟨none, "no pinned base_sha was supplied to the merge gate"⟩
  else
    let want ← host.git ["rev-parse", "--verify", "--quiet", inp.baseSha ++ "^{commit}"]
      inp.integrationWt
    if want.returncode ≠ 0 then
      pure ⟨none, "base_sha " ++ quoted inp.baseSha ++ " does not resolve to a commit"⟩
    else
      let sha := strip want.stdout
      host.forCandidates inp.integrationWt (resetBase host sha) (addBase host inp.integrationWt sha)
        (fun _ => pure ⟨none, "could not clear or create a base worktree near " ++ basePath root inp⟩)
        none ((Host.candidates (basePath root inp)).map normpath)

end Kroker.Vcs
