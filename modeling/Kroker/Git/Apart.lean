import Kroker.Git.Integration

/-!
# Whose work tree is touched

What git does to a world is not in the repository: `Documented` lists what its manual says of the
commands that are run here, over what there is to see of a world (`Observed`).

A command that changes a work tree is apart where it is run at the top level of a candidate.  The
commands after the first stay where the first was run, so that the first decides
(`emits_git_bind_iff`), and a worktree that has just been added is fit for it (`fits_of_added`).
What remains is what was found: a directory is taken for a live worktree if git says that it is
inside of a work tree, which holds of a plain directory inside of any repository as well.
`FindsTop` says of the loop over the candidates that it is not misled, and `emits_forCandidates_iff`
that this is all.
-/

namespace Kroker.Vcs

variable {W Dir : Type}

/-! ## 1.  What is seen, and what git does to it -/

/-- What there is to see of a world. -/
structure Observed (W Dir : Type) where
  /-- The directory at a path. -/
  dir : W → String → Option Dir
  /-- The top level of the work tree that git finds from a path. -/
  topLevel : W → String → Option Dir
  /-- The commit that a revision names, where git is run in a path. -/
  names : W → String → String → Option String
  /-- The index there has unmerged entries. -/
  unmerged : W → String → Prop
  parents : String → List String

/-- A merge of `t` into `c` is `c'`: nothing is done where `c` has `t` in its history. -/
def Merges (parents : String → List String) (c t c' : String) : Prop :=
  (Relation.ReflTransGen (fun a b => b ∈ parents a) c t ∧ c' = c) ∨ parents c' = [c, t]

/-- Commits merged into another, one after the other. -/
inductive MergedOnto (parents : String → List String) : String → List String → String → Prop
  | nil (c : String) : MergedOnto parents c [] c
  | cons {c t c' head : String} {ts : List String} (merge : Merges parents c t c')
      (rest : MergedOnto parents c' ts head) : MergedOnto parents c (t :: ts) head

def resetArgs (rev : String) : List String := ["reset", "--hard", rev]

def mergeArgs (branch : String) : List String :=
  ["merge", "--no-ff", "-m", "tidy-up: " ++ branch, branch]

inductive Adds (cand : String) : List String → Prop
  | detached (sha : String) :
      Adds cand (Host.gitArgv ["worktree", "add", "--detach", cand, sha])
  | checkout (branch : String) : Adds cand ["git", "worktree", "add", cand, branch]
  | create (branch fromRef : String) :
      Adds cand ["git", "worktree", "add", "-b", branch, cand, fromRef]

/-- The git subcommand of a command line. -/
def subcommand : List String → String
  | _ :: "-c" :: _ :: sub :: _ => sub
  | _ :: sub :: _ => sub
  | _ => ""

@[simp] theorem subcommand_gitArgv (sub : String) (args : List String) :
    subcommand (Host.gitArgv (sub :: args)) = sub := rfl

/-- **What is documented** of the operating system and of git. -/
structure Documented (host : Host W) (obs : Observed W Dir) : Prop where
  absent : ∀ w path, host.pathExists w path = false → obs.dir w path = none
  removed : ∀ w path, (host.rmtree path w).1 = .ok () → obs.dir (host.rmtree path w).2 path = none
  /-- No process is started in a directory that is not there. -/
  missing : ∀ argv cwd w, obs.dir w cwd = none → ∃ e, (host.run argv cwd w).1 = .error e
  /-- Looking up a branch makes no directory. -/
  looked : ∀ branch cwd w path, obs.dir w path = none →
    obs.dir (host.run ["git", "rev-parse", "--verify", "--quiet", branch] cwd w).2 path = none
  /-- An added worktree is the top level of its own work tree. -/
  added : ∀ cand argv cwd w done, Adds cand argv → obs.dir w cand = none →
    (host.run argv cwd w).1 = .ok done → done.returncode = 0 →
      ∀ d, obs.dir (host.run argv cwd w).2 cand = some d →
        obs.topLevel (host.run argv cwd w).2 cand = some d
  /-- None of these commands removes or moves the top level of the work tree that it is run in. -/
  stays : ∀ argv cwd w d,
    subcommand argv ∈ ["checkout", "reset", "clean", "merge", "ls-files", "rev-parse"] →
      obs.topLevel w cwd = some d → obs.topLevel (host.run argv cwd w).2 cwd = some d ∧
        ∀ path, obs.dir w path = some d → obs.dir (host.run argv cwd w).2 path = some d
  reset : ∀ rev cwd w done, (host.run (Host.gitArgv (resetArgs rev)) cwd w).1 = .ok done →
    done.returncode = 0 → ∃ c, obs.names w cwd rev = some c ∧
      obs.names (host.run (Host.gitArgv (resetArgs rev)) cwd w).2 cwd "HEAD" = some c
  merged : ∀ branch cwd w done c, (host.run (Host.gitArgv (mergeArgs branch)) cwd w).1 = .ok done →
    done.returncode = 0 → obs.names w cwd "HEAD" = some c →
      ∃ t c', obs.names w cwd branch = some t ∧ Merges obs.parents c t c' ∧
        obs.names (host.run (Host.gitArgv (mergeArgs branch)) cwd w).2 cwd "HEAD" = some c'
  /-- A merge that stops at a conflict leaves the head. -/
  stopped : ∀ branch cwd w done, (host.run (Host.gitArgv (mergeArgs branch)) cwd w).1 = .ok done →
    done.returncode ≠ 0 → obs.unmerged (host.run (Host.gitArgv (mergeArgs branch)) cwd w).2 cwd →
      obs.names (host.run (Host.gitArgv (mergeArgs branch)) cwd w).2 cwd "HEAD" =
        obs.names w cwd "HEAD"
  listed : ∀ cwd w done,
    (host.run (Host.gitArgv ["ls-files", "--unmerged"]) cwd w).1 = .ok done →
      strip done.stdout ≠ "" → obs.unmerged w cwd
  kept : ∀ args cwd w,
    args ∈ [["ls-files", "--unmerged"], ["merge", "--abort"], ["rev-parse", "HEAD"]] →
      obs.names (host.run (Host.gitArgv args) cwd w).2 cwd "HEAD" = obs.names w cwd "HEAD"
  resolved : ∀ rev cwd w done,
    (host.run (Host.gitArgv ["rev-parse", "--verify", "--quiet", rev ++ "^{commit}"]) cwd w).1 =
      .ok done → done.returncode = 0 → obs.names w cwd rev = some (strip done.stdout)
  /-- The commit that is printed is the head; where there is none, what is printed is no commit. -/
  head : ∀ cwd w done, (host.run (Host.gitArgv ["rev-parse", "HEAD"]) cwd w).1 = .ok done →
    ∀ w' cwd' rev c, obs.names w' cwd' rev = some c →
      (strip done.stdout = c ↔ obs.names w cwd "HEAD" = some c)

/-! ## 2.  What is to hold -/

variable (host : Host W) (obs : Observed W Dir)

/-- Git run in this directory works on the worktree at one of the candidates. -/
def AtTop (cands : List String) (w : W) (cwd : String) : Prop :=
  ∃ cand ∈ cands, ∃ d, obs.dir w cand = some d ∧ obs.topLevel w cwd = some d

/-- **A command that changes a work tree** is run at the top level of a candidate. -/
def Call.Apart (cands : List String) (call : Call W) : Prop :=
  subcommand call.argv ∈ ["checkout", "reset", "clean", "merge"] → call.completed ≠ none →
    AtTop obs cands call.before call.cwd

/-- **The head of a base worktree** that is reported is the pinned commit. -/
def BaseAtHead (inp : BaseWorktreeInput) (w : W)
    (o : Script.Outcome W (Call W) Failure BaseWorktree) : Prop :=
  ∀ path reason, o.result = .ok ⟨some path, reason⟩ →
    ∃ sha, obs.names w inp.integrationWt inp.baseSha = some sha ∧
      obs.names o.world path "HEAD" = some sha

/-- A commit is what a revision named when the command was run. -/
def NamedAt (trace : List (Call W)) (argv : List String) (cwd rev c : String) : Prop :=
  ∃ call ∈ trace, call.argv = argv ∧ call.cwd = cwd ∧ obs.names call.before cwd rev = some c

/-- **The head of a verification branch** that is reported is the pinned commit, with the branches
that are reported as merged merged into it in order. -/
def MergedAtHead (inp : VerifyBranchInput)
    (o : Script.Outcome W (Call W) Failure VerifyResult) : Prop :=
  ∀ r, o.result = .ok r → ∃ worktree base tips,
    NamedAt obs o.trace (Host.gitArgv (resetArgs inp.baseSha)) worktree inp.baseSha base ∧
    List.Forall₂ (fun branch tip =>
      NamedAt obs o.trace (Host.gitArgv (mergeArgs branch)) worktree branch tip) r.merged tips ∧
    MergedOnto obs.parents base tips r.headSha ∧
    obs.names o.world worktree "HEAD" = some r.headSha

/-! ## 3.  What has to be found -/

/-- If a command can be started in this directory, it works on the worktree at a candidate. -/
def Fits (cands : List String) (argv : List String) (w : W) (cwd : String) : Prop :=
  (∃ done, (host.run argv cwd w).1 = .ok done) → AtTop obs cands w cwd

/-- The candidate that is taken for live, after those that are not and cannot be cleared, is the top
level of its work tree, if the first command can be started there. -/
def FindsTop (repo : String) (all first : List String) : List String → W → Prop
  | [], _ => True
  | cand :: rest, w =>
    match host.live cand w with
    | ⟨.error _, _, _⟩ => True
    | ⟨.ok true, w, _⟩ => Fits host obs all first w cand
    | ⟨.ok false, w, _⟩ =>
      match host.clearStale repo cand w with
      | ⟨.ok (some _), w, _⟩ => FindsTop repo all first rest w
      | _ => True

/-- What `prepare_base_worktree` has to find. -/
def BaseFinds (root : String) (inp : BaseWorktreeInput) (w : W) : Prop :=
  inp.baseSha ≠ "" →
    match host.git ["rev-parse", "--verify", "--quiet", inp.baseSha ++ "^{commit}"]
      inp.integrationWt w with
    | ⟨.ok want, w, _⟩ =>
      let cands := (Host.candidates (basePath root inp)).map normpath
      let first := Host.gitArgv ["checkout", "--detach", "--force", strip want.stdout]
      want.returncode = 0 → FindsTop host obs inp.integrationWt cands first cands w
    | _ => True

/-- What `build_verification_branch` has to find. -/
def VerifyFinds (root : String) (inp : VerifyBranchInput) (w : W) : Prop :=
  let cands := Host.candidates (normpath (verifyPath root inp))
  let first := Host.gitArgv (resetArgs inp.baseSha)
  match host.subprocess ["git", "worktree", "prune"] inp.repoPath w with
  | ⟨.error _, _, _⟩ => True
  | ⟨.ok _, w, _⟩ =>
    match host.findLiveWorktreeForBranch inp.repoPath ("sdlc/tidyup-verify/" ++ inp.tidyupId) w with
    | ⟨.error _, _, _⟩ => True
    | ⟨.ok existing, w, _⟩ =>
      match existing.filter (host.isDir w ·) with
      | some existing => Fits host obs cands first w existing
      | none => FindsTop host obs inp.repoPath cands first cands w

/-! ## 4.  Commands at the top level -/

section Commands

variable {host : Host W} {obs : Observed W Dir} {cands : List String}

theorem emits_subprocess {E : Call W → Prop} {argv : List String} {cwd : String} {w : W} :
    (host.subprocess argv cwd).Emits E w ↔ E ⟨argv, cwd, w, (host.run argv cwd w).1.toOption⟩ :=
  List.forall_mem_singleton

theorem emits_of_subcommand {argv : List String} {cwd : String} {w : W}
    (h : subcommand argv ∉ ["checkout", "reset", "clean", "merge"]) :
    (host.subprocess argv cwd).Emits (Call.Apart obs cands) w :=
  emits_subprocess.mpr fun hsub => absurd hsub h

theorem emits_git {sub : String} {args : List String} {cwd : String} {w : W}
    (h : sub ∉ ["checkout", "reset", "clean", "merge"]) :
    (host.git (sub :: args) cwd).Emits (Call.Apart obs cands) w :=
  emits_of_subcommand h

section

variable (hdoc : Documented host obs)

include hdoc

/-- **At the top level of a candidate** any command may be run, and there it stays. -/
theorem keeps_git {args : List String} {cwd : String}
    (h : subcommand (Host.gitArgv args) ∈
      ["checkout", "reset", "clean", "merge", "ls-files", "rev-parse"]) :
    (host.git args cwd).Keeps (AtTop obs cands · cwd) (Call.Apart obs cands) := by
  rintro w ⟨cand, hcand, d, hdir, htop⟩
  obtain ⟨htop', hdir'⟩ := hdoc.stays (Host.gitArgv args) cwd w d h htop
  exact ⟨emits_subprocess.mpr fun _ _ => ⟨cand, hcand, d, hdir, htop⟩,
    cand, hcand, d, hdir' cand hdir, htop'⟩

/-- **The first command decides**: what follows it is done in the same work tree. -/
theorem emits_git_bind_iff {α : Type} {args : List String}
    {cwd : String} {next : Completed → Shell W α} {w : W}
    (h : subcommand (Host.gitArgv args) ∈ ["checkout", "reset", "clean", "merge"])
    (hnext : ∀ done, (next done).Keeps (AtTop obs cands · cwd) (Call.Apart obs cands)) :
    (host.git args cwd >>= next).Emits (Call.Apart obs cands) w ↔
      Fits host obs cands (Host.gitArgv args) w cwd := by
  rw [Script.emits_bind]
  constructor
  · rintro ⟨hfirst, -⟩ ⟨done, hdone⟩
    refine emits_subprocess.mp hfirst h ?_
    rw [hdone]
    exact Option.some_ne_none done
  · intro hfits
    cases hrun : (host.run (Host.gitArgv args) cwd w).1 with
    | error e =>
      refine ⟨emits_subprocess.mpr fun _ hdone => ?_, fun done hdone => ?_⟩
      · rw [hrun] at hdone
        exact absurd rfl hdone
      · have hresult : (host.git args cwd w).result = .error (.osError e) := by
          change (host.run (Host.gitArgv args) cwd w).1.mapError Failure.osError = _
          rw [hrun]
          rfl
        rw [hresult] at hdone
        cases hdone
    | ok done =>
      have hall : ∀ sub ∈ ["checkout", "reset", "clean", "merge"],
          sub ∈ ["checkout", "reset", "clean", "merge", "ls-files", "rev-parse"] :=
        fun sub hsub => List.mem_append_left ["ls-files", "rev-parse"] hsub
      have hkeeps := (keeps_git hdoc (hall _ h)).bind hnext w (hfits ⟨done, hrun⟩)
      exact Script.emits_bind.mp hkeeps.1

theorem keeps_runAll {cand : String} {commands : List (List String)}
    (h : ∀ args ∈ commands, subcommand (Host.gitArgv args) ∈
      ["checkout", "reset", "clean", "merge", "ls-files", "rev-parse"]) :
    (runAll host cand commands).Keeps (AtTop obs cands · cand) (Call.Apart obs cands) := by
  induction commands with
  | nil => exact Script.keeps_pure
  | cons args rest ih =>
    rw [List.forall_mem_cons] at h
    rw [runAll]
    exact (keeps_git hdoc h.1).bind fun r => Script.keeps_ite Script.keeps_pure (ih h.2)

theorem emits_resetBase_iff {sha cand : String} {w : W} :
    (resetBase host sha cand).Emits (Call.Apart obs cands) w ↔
      Fits host obs cands (Host.gitArgv ["checkout", "--detach", "--force", sha]) w cand := by
  rw [resetBase, baseCommands, runAll, bind_assoc]
  refine emits_git_bind_iff hdoc (by simp) fun done => Script.Keeps.bind ?_ fun reason => ?_
  · refine Script.keeps_ite Script.keeps_pure (keeps_runAll hdoc ?_)
    simp
  · cases reason with
    | some reason => exact Script.keeps_pure
    | none =>
      refine (keeps_git hdoc (by simp)).bind fun head => ?_
      exact Script.keeps_ite Script.keeps_pure Script.keeps_pure

theorem keeps_mergeAll {worktree : String} {branches : List String} :
    (mergeAll host worktree branches).Keeps (AtTop obs cands · worktree) (Call.Apart obs cands) := by
  induction branches with
  | nil => exact Script.keeps_pure
  | cons branch rest ih =>
    rw [mergeAll]
    refine Script.Keeps.bind ?_ fun merged => ih.bind fun both => ?_
    · refine (keeps_git hdoc (by simp)).bind fun result => Script.keeps_ite Script.keeps_pure ?_
      refine (keeps_git hdoc (by simp)).bind fun unmerged => ?_
      refine (keeps_git hdoc (by simp)).bind fun _ => ?_
      exact Script.keeps_ite Script.keeps_throw Script.keeps_pure
    · exact Script.keeps_ite Script.keeps_pure Script.keeps_pure

theorem emits_verifyIn_iff {inp : VerifyBranchInput}
    {worktree : String} {w : W} :
    (verifyIn host inp worktree).Emits (Call.Apart obs cands) w ↔
      Fits host obs cands (Host.gitArgv (resetArgs inp.baseSha)) w worktree := by
  rw [verifyIn]
  refine emits_git_bind_iff hdoc (by simp) fun reset => ?_
  refine Script.keeps_ite Script.keeps_throw ((keeps_mergeAll hdoc).bind fun both => ?_)
  exact (keeps_git hdoc (by simp)).bind fun head => Script.keeps_pure

end

end Commands

/-! ## 5.  The candidates -/

section Candidates

variable {host : Host W} {obs : Observed W Dir} {all : List String} {repo cand : String} {w : W}

theorem emits_live : (host.live cand).Emits (Call.Apart obs all) w := by
  rw [Host.live, Host.isdir, Script.emits_look_bind]
  split
  · refine Script.emits_bind.mpr ⟨emits_git (by simp), fun _ _ => Script.emits_pure⟩
  · exact Script.emits_pure

theorem emits_rmtreeWithRetry {path : String} {more : ℕ} :
    (host.rmtreeWithRetry path more).Emits (Call.Apart obs all) w := by
  induction more generalizing w with
  | zero => exact nofun
  | succ more ih =>
    rw [Host.rmtreeWithRetry, Script.emits_attempt_bind]
    refine ⟨nofun, ?_⟩
    split
    · exact Script.emits_pure
    · exact ih

theorem emits_clearWorktreeDir {path : String} :
    (host.clearWorktreeDir repo path).Emits (Call.Apart obs all) w := by
  rw [Host.clearWorktreeDir]
  refine Script.emits_bind.mpr ⟨emits_of_subcommand (by simp [subcommand]), fun _ _ => ?_⟩
  refine Script.emits_bind.mpr ⟨emits_of_subcommand (by simp [subcommand]), fun _ _ => ?_⟩
  rw [Host.pathexists, Script.emits_look_bind]
  split
  · exact emits_rmtreeWithRetry
  · exact Script.emits_pure

theorem emits_clearStale : (host.clearStale repo cand).Emits (Call.Apart obs all) w := by
  rw [Host.clearStale, Host.pathexists, Script.emits_look_bind]
  split
  · rw [Script.emits_attempt_bind]
    refine ⟨emits_clearWorktreeDir, ?_⟩
    split
    · exact Script.emits_pure
    · exact Script.emits_pure
  · exact Script.emits_pure

theorem dir_of_rmtreeWithRetry (hdoc : Documented host obs) {path : String} {more : ℕ}
    (h : (host.rmtreeWithRetry path more w).result = .ok ()) :
    obs.dir (host.rmtreeWithRetry path more w).world path = none := by
  have honce : ∀ w, (host.rmtreeOnce path w).result = .ok () →
      obs.dir (host.rmtreeOnce path w).world path = none := by
    intro w h
    refine hdoc.removed w path ?_
    change (host.rmtree path w).1.mapError Failure.osError = _ at h
    cases hrm : (host.rmtree path w).1 with
    | ok u => rfl
    | error e =>
      rw [hrm] at h
      cases h
  induction more generalizing w with
  | zero => exact honce w h
  | succ more ih =>
    rw [Host.rmtreeWithRetry, Script.bind_of_ok rfl] at h ⊢
    cases hfirst : (host.rmtreeOnce path w).result with
    | ok u =>
      simp only [Script.attempt_run, hfirst] at h ⊢
      exact honce w hfirst
    | error e =>
      simp only [Script.attempt_run, hfirst] at h ⊢
      exact ih h

theorem dir_of_clearWorktreeDir (hdoc : Documented host obs) {path : String}
    (h : (host.clearWorktreeDir repo path w).result = .ok ()) :
    obs.dir (host.clearWorktreeDir repo path w).world path = none := by
  obtain ⟨_, -, h, hworld, -⟩ := Script.exists_of_bind_ok h
  obtain ⟨_, -, h, hworld', -⟩ := Script.exists_of_bind_ok h
  rw [Host.clearWorktreeDir, hworld, hworld']
  generalize (host.subprocess ["git", "worktree", "prune"] repo _).world = w' at h ⊢
  obtain ⟨there, hthere, h, hworld, -⟩ := Script.exists_of_bind_ok h
  rw [hworld]
  cases Except.ok.inj hthere
  cases hexists : host.pathExists w' path with
  | true =>
    simp only [Host.pathexists, Script.look_run, hexists, if_true] at h ⊢
    exact dir_of_rmtreeWithRetry hdoc h
  | false =>
    simp only [Host.pathexists, Script.look_run, hexists] at h ⊢
    exact hdoc.absent w' path hexists

/-- **A candidate that is cleared** is no directory any more. -/
theorem dir_of_clearStale (hdoc : Documented host obs)
    (h : (host.clearStale repo cand w).result = .ok none) :
    obs.dir (host.clearStale repo cand w).world cand = none := by
  obtain ⟨there, hthere, h, hworld, -⟩ := Script.exists_of_bind_ok h
  rw [Host.clearStale, hworld]
  cases Except.ok.inj hthere
  cases hexists : host.pathExists w cand with
  | false =>
    simp only [Host.pathexists, Script.look_run, hexists] at h ⊢
    exact hdoc.absent w cand hexists
  | true =>
    simp only [Host.pathexists, Script.look_run, hexists, if_true] at h ⊢
    obtain ⟨cleared, hcleared, h, hworld, -⟩ := Script.exists_of_bind_ok h
    rw [hworld]
    obtain rfl := Except.ok.inj hcleared
    cases hresult : (host.clearWorktreeDir repo cand w).result with
    | error e =>
      simp only [hresult] at h
      cases h
    | ok u =>
      exact dir_of_clearWorktreeDir hdoc hresult

/-- **The loop over the candidates** does what it may exactly where the first that it takes for live
is the top level of its work tree. -/
theorem emits_forCandidates_iff {α : Type} (hdoc : Documented host obs)
    {reuse fresh : String → Shell W α} {exhausted : Option Failure → Shell W α} {first : List String}
    (hreuse : ∀ cand w, (reuse cand).Emits (Call.Apart obs all) w ↔ Fits host obs all first w cand)
    (hfresh : ∀ cand ∈ all, ∀ w, obs.dir w cand = none → (fresh cand).Emits (Call.Apart obs all) w)
    (hexhausted : ∀ lastErr w, (exhausted lastErr).Emits (Call.Apart obs all) w)
    {cands : List String} (hcands : ∀ cand ∈ cands, cand ∈ all) (lastErr : Option Failure) (w : W) :
    (host.forCandidates repo reuse fresh exhausted lastErr cands).Emits (Call.Apart obs all) w ↔
      FindsTop host obs repo all first cands w := by
  induction cands generalizing lastErr w with
  | nil => exact iff_of_true (hexhausted lastErr w) trivial
  | cons cand rest ih =>
    rw [List.forall_mem_cons] at hcands
    rw [Host.forCandidates, FindsTop, Script.emits_bind, and_iff_right emits_live]
    cases hlive : host.live cand w with
    | mk result w₁ trace =>
      cases result with
      | error e => exact iff_of_true (fun _ hok => by cases hok) trivial
      | ok live =>
        cases live with
        | true =>
          refine ⟨fun h => (hreuse cand w₁).mp (h true rfl), fun h isLive htrue => ?_⟩
          cases htrue
          exact (hreuse cand w₁).mpr h
        | false =>
          have honly : ∀ {Q : Bool → Prop},
              (∀ isLive, (Except.ok false : Except Failure Bool) = .ok isLive → Q isLive) ↔ Q false :=
            ⟨fun h => h false rfl, fun h isLive hfalse => by cases hfalse; exact h⟩
          refine honly.trans ?_
          dsimp only
          change (host.clearStale repo cand >>= _).Emits _ w₁ ↔ _
          rw [Script.emits_bind, and_iff_right emits_clearStale]
          cases hstale : host.clearStale repo cand w₁ with
          | mk result w₂ trace =>
            cases result with
            | error e => exact iff_of_true (fun _ hok => by cases hok) trivial
            | ok kept =>
              cases kept with
              | none =>
                refine iff_of_true (fun kept hkept => ?_) trivial
                cases hkept
                have hdir : obs.dir (host.clearStale repo cand w₁).world cand = none :=
                  dir_of_clearStale hdoc (by rw [hstale])
                rw [hstale] at hdir
                exact hfresh cand hcands.1 w₂ hdir
              | some e =>
                refine ⟨fun h => (ih hcands.2 (some e) w₂).mp (h (some e) rfl), fun h kept hkept => ?_⟩
                cases hkept
                exact (ih hcands.2 (some e) w₂).mpr h

theorem forCandidates_bind {α β : Type} {reuse fresh : String → Shell W α}
    {exhausted : Option Failure → Shell W α} (next : α → Shell W β) (lastErr : Option Failure)
    (cands : List String) :
    host.forCandidates repo reuse fresh exhausted lastErr cands >>= next =
      host.forCandidates repo (fun cand => reuse cand >>= next) (fun cand => fresh cand >>= next)
        (fun lastErr => exhausted lastErr >>= next) lastErr cands := by
  induction cands generalizing lastErr with
  | nil => rfl
  | cons cand rest ih =>
    rw [Host.forCandidates, Host.forCandidates, bind_assoc]
    refine congrArg (host.live cand >>= ·) (funext fun live => ?_)
    cases live with
    | true => rfl
    | false =>
      simp only [Bool.false_eq_true, if_false]
      rw [bind_assoc]
      refine congrArg (host.clearStale repo cand >>= ·) (funext fun stale => ?_)
      cases stale with
      | none => rfl
      | some e => exact ih (some e)

theorem fits_of_added (hdoc : Documented host obs) {argv first : List String} {cwd : String}
    {done : Completed} (hadds : Adds cand argv) (hcand : cand ∈ all) (hdir : obs.dir w cand = none)
    (hrun : (host.run argv cwd w).1 = .ok done) (hdone : done.returncode = 0) :
    Fits host obs all first (host.run argv cwd w).2 cand := by
  rintro ⟨started, hstarted⟩
  cases hdir' : obs.dir (host.run argv cwd w).2 cand with
  | none =>
    obtain ⟨e, he⟩ := hdoc.missing first cand (host.run argv cwd w).2 hdir'
    rw [he] at hstarted
    cases hstarted
  | some d => exact ⟨cand, hcand, d, hdir', hdoc.added cand argv cwd w done hadds hdir hrun hdone d hdir'⟩

end Candidates

/-! ## 6.  The two activities -/

section Activities

variable {host : Host W} {obs : Observed W Dir}

theorem emits_addBase (hdoc : Documented host obs) {all : List String} {repo sha cand : String}
    (hcand : cand ∈ all) {w : W} (hdir : obs.dir w cand = none) :
    (addBase host repo sha cand).Emits (Call.Apart obs all) w := by
  rw [addBase, Script.emits_bind]
  refine ⟨emits_git (by simp), fun add hadd => ?_⟩
  split
  · exact Script.emits_pure
  · rename_i hdone
    exact (emits_resetBase_iff hdoc).mpr
      (fits_of_added hdoc (.detached sha) hcand hdir (result_subprocess hadd) (not_not.mp hdone))

/-- **The base worktree** is touched apart from any other exactly where the loop finds it so. -/
theorem emits_prepareBaseWorktree_iff (hdoc : Documented host obs) {root : String}
    {inp : BaseWorktreeInput} {w : W} :
    (prepareBaseWorktree host root inp).Emits
        (Call.Apart obs ((Host.candidates (basePath root inp)).map normpath)) w ↔
      BaseFinds host obs root inp w := by
  rw [prepareBaseWorktree, BaseFinds]
  by_cases hsha : inp.baseSha = ""
  · rw [if_pos hsha]
    exact iff_of_true Script.emits_pure fun h => absurd hsha h
  · rw [if_neg hsha, forall_prop_of_true hsha, Script.emits_bind,
      and_iff_right (emits_git (by simp))]
    cases hwant : host.git ["rev-parse", "--verify", "--quiet", inp.baseSha ++ "^{commit}"]
        inp.integrationWt w with
    | mk result w₁ trace =>
      cases result with
      | error e => exact iff_of_true nofun trivial
      | ok want =>
        refine Iff.trans ⟨fun h => h want rfl, fun h done hdone => Except.ok.inj hdone ▸ h⟩ ?_
        dsimp only
        split
        · rename_i hfailed
          exact iff_of_true Script.emits_pure fun h => absurd h hfailed
        · rename_i hdone
          rw [forall_prop_of_true (not_not.mp hdone)]
          exact emits_forCandidates_iff hdoc (fun _ _ => emits_resetBase_iff hdoc)
            (fun cand hcand w hdir => emits_addBase hdoc hcand hdir) (fun _ _ => Script.emits_pure)
            (fun cand hcand => hcand) none w₁

theorem emits_addForBranch_bind (hdoc : Documented host obs) {inp : VerifyBranchInput}
    {all : List String} {repo branch fromRef cand : String} (hcand : cand ∈ all) {w : W}
    (hdir : obs.dir w cand = none) :
    (host.addForBranch repo branch fromRef cand >>= verifyIn host inp).Emits
      (Call.Apart obs all) w := by
  rw [Host.addForBranch, bind_assoc, Script.emits_bind]
  refine ⟨emits_of_subcommand (by simp [subcommand]), fun probe hprobe => ?_⟩
  have hdir' := hdoc.looked branch repo w cand hdir
  rw [bind_assoc, Script.emits_bind]
  have hadds : Adds cand (if probe.returncode = 0 then ["git", "worktree", "add", cand, branch]
      else ["git", "worktree", "add", "-b", branch, cand, fromRef]) := by
    split
    · exact .checkout branch
    · exact .create branch fromRef
  refine ⟨emits_of_subcommand ?_, fun wt hwt => ?_⟩
  · split
    · simp [subcommand]
    · simp [subcommand]
  · split
    · exact nofun
    · rename_i hdone
      rw [pure_bind, emits_verifyIn_iff hdoc]
      exact fits_of_added hdoc hadds hcand hdir' (result_subprocess hwt) (not_not.mp hdone)

theorem emits_findLiveWorktreeForBranch {all : List String} {repo branch : String} {w : W} :
    (host.findLiveWorktreeForBranch repo branch).Emits (Call.Apart obs all) w := by
  rw [Host.findLiveWorktreeForBranch, Script.emits_bind]
  refine ⟨emits_of_subcommand (by simp [subcommand]), fun result _ => ?_⟩
  split
  · exact Script.emits_pure
  · exact Script.emits_pure

/-- **The verification worktree** is touched apart from any other exactly where it is found so. -/
theorem emits_buildVerificationBranch_iff (hdoc : Documented host obs) {root : String}
    {inp : VerifyBranchInput} {w : W} :
    (buildVerificationBranch host root inp).Emits
        (Call.Apart obs (Host.candidates (normpath (verifyPath root inp)))) w ↔
      VerifyFinds host obs root inp w := by
  rw [buildVerificationBranch, VerifyFinds, Host.ensureWorktree, bind_assoc, Script.emits_bind,
    and_iff_right (emits_of_subcommand (by simp [subcommand]))]
  cases hprune : host.subprocess ["git", "worktree", "prune"] inp.repoPath w with
  | mk result w₁ trace =>
    cases result with
    | error e => exact iff_of_true nofun trivial
    | ok pruned =>
      refine Iff.trans ⟨fun h => h pruned rfl, fun h _ _ => h⟩ ?_
      dsimp only
      rw [bind_assoc, Script.emits_bind, and_iff_right emits_findLiveWorktreeForBranch]
      cases hfind : host.findLiveWorktreeForBranch inp.repoPath
          ("sdlc/tidyup-verify/" ++ inp.tidyupId) w₁ with
      | mk result w₂ trace =>
        cases result with
        | error e => exact iff_of_true nofun trivial
        | ok existing =>
          refine Iff.trans ⟨fun h => h existing rfl, fun h x hx => Except.ok.inj hx ▸ h⟩ ?_
          have hcreate : ∀ lastErr cands, (∀ cand ∈ cands,
              cand ∈ Host.candidates (normpath (verifyPath root inp))) →
              ((host.forCandidates inp.repoPath pure
                (host.addForBranch inp.repoPath ("sdlc/tidyup-verify/" ++ inp.tidyupId) inp.baseSha)
                (fun lastErr =>
                  Script.throw (Host.noCandidate (normpath (verifyPath root inp)) lastErr))
                lastErr cands >>= verifyIn host inp).Emits
                  (Call.Apart obs (Host.candidates (normpath (verifyPath root inp)))) w₂ ↔
                FindsTop host obs inp.repoPath (Host.candidates (normpath (verifyPath root inp)))
                  (Host.gitArgv (resetArgs inp.baseSha)) cands w₂) := by
            intro lastErr cands hcands
            rw [forCandidates_bind]
            refine emits_forCandidates_iff hdoc (fun cand w => ?_)
              (fun cand hcand w hdir => emits_addForBranch_bind hdoc hcand hdir) (fun lastErr w => ?_)
              hcands lastErr w₂
            · rw [pure_bind]
              exact emits_verifyIn_iff hdoc
            · rw [Script.throw_bind]
              exact Script.emits_throw
          cases existing with
          | none => exact hcreate none _ fun cand hcand => hcand
          | some existing =>
            dsimp only
            rw [Host.isdir, bind_assoc, Script.emits_look_bind]
            cases hdir : host.isDir w₂ existing with
            | true =>
              rw [if_pos rfl, pure_bind, Option.filter_some, if_pos hdir]
              exact emits_verifyIn_iff hdoc
            | false =>
              rw [if_neg Bool.false_ne_true, Option.filter_some, if_neg (by rw [hdir]; decide)]
              exact hcreate none _ fun cand hcand => hcand

end Activities

end Kroker.Vcs
