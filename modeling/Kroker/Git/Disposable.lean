import Kroker.Git.Apart
import Mathlib

/-!
# What the disposable worktrees are

The merges and the resets leave the head that is reported (`baseAtHead`, `mergedAtHead`), and both
activities touch no other checkout exactly where what is taken for live is the top level of its work
tree (`touches_iff_findsTop`).  A plain directory at a candidate, inside of a repository, is taken
for live, and the checkout of that repository is reset (`enclosing_touched`).
-/

namespace Kroker.Vcs

variable {W Dir : Type} {host : Host W} {obs : Observed W Dir}

/-! ## 1.  The heads that are reported -/

theorem of_forCandidates {α : Type} {P : α → W → Prop} {repo : String}
    {reuse fresh : String → Shell W α} {exhausted : Option Failure → Shell W α}
    (hreuse : ∀ cand w a, (reuse cand w).result = .ok a → P a (reuse cand w).world)
    (hfresh : ∀ cand w a, (fresh cand w).result = .ok a → P a (fresh cand w).world)
    (hexhausted : ∀ err w a, (exhausted err w).result = .ok a → P a (exhausted err w).world)
    (cands : List String) (lastErr : Option Failure) (w : W) (a : α)
    (h : (host.forCandidates repo reuse fresh exhausted lastErr cands w).result = .ok a) :
    P a (host.forCandidates repo reuse fresh exhausted lastErr cands w).world := by
  induction cands generalizing lastErr w with
  | nil => exact hexhausted lastErr w a h
  | cons cand rest ih =>
    obtain ⟨live, -, h, hworld, -⟩ := Script.exists_of_bind_ok h
    rw [Host.forCandidates, hworld]
    generalize (host.live cand w).world = w₁ at h ⊢
    cases live with
    | true => exact hreuse cand w₁ a h
    | false =>
      obtain ⟨stale, -, h, hworld, -⟩ := Script.exists_of_bind_ok h
      refine hworld ▸ ?_
      cases stale with
      | none => exact hfresh cand _ a h
      | some e => exact ih (some e) _ h

theorem head_of_resetBase (hdoc : Documented host obs) {sha cand path reason : String} {w : W}
    (hsha : ∃ w cwd rev, obs.names w cwd rev = some sha)
    (h : (resetBase host sha cand w).result = .ok ⟨some path, reason⟩) :
    obs.names (resetBase host sha cand w).world path "HEAD" = some sha := by
  obtain ⟨failed, -, h, hworld, -⟩ := Script.exists_of_bind_ok h
  rw [resetBase, hworld]
  generalize (runAll host cand (baseCommands sha) w).world = w₁ at h ⊢
  cases failed with
  | some text => cases h
  | none =>
    obtain ⟨head, hhead, h, hworld, -⟩ := Script.exists_of_bind_ok h
    rw [hworld]
    split at h
    · cases h
    · rename_i hsame
      rw [if_neg hsame]
      cases h
      obtain ⟨w₀, cwd₀, rev, hnames⟩ := hsha
      have hat := (hdoc.head cand w₁ head (result_subprocess hhead) w₀ cwd₀ rev sha hnames).mp
        (not_not.mp hsame)
      exact (hdoc.kept ["rev-parse", "HEAD"] cand w₁ (by simp)).trans hat

/-- **A base worktree that is reported** has the pinned commit as its head. -/
theorem baseAtHead (hdoc : Documented host obs) {root : String} {inp : BaseWorktreeInput} {w : W} :
    BaseAtHead obs inp w (prepareBaseWorktree host root inp w) := by
  intro path reason h
  by_cases hsha : inp.baseSha = ""
  · rw [prepareBaseWorktree, if_pos hsha] at h
    cases h
  · rw [prepareBaseWorktree, if_neg hsha] at h ⊢
    obtain ⟨want, hwant, h, hworld, -⟩ := Script.exists_of_bind_ok h
    rw [hworld]
    split at h
    · cases h
    · rename_i hdone
      rw [if_neg hdone]
      have hnames := hdoc.resolved inp.baseSha inp.integrationWt w want (result_subprocess hwant)
        (not_not.mp hdone)
      refine ⟨strip want.stdout, hnames, ?_⟩
      have hhead : ∀ cand w path reason,
          (resetBase host (strip want.stdout) cand w).result = .ok ⟨some path, reason⟩ →
            obs.names (resetBase host (strip want.stdout) cand w).world path "HEAD" =
              some (strip want.stdout) :=
        fun _ _ _ _ => head_of_resetBase hdoc ⟨w, inp.integrationWt, inp.baseSha, hnames⟩
      refine of_forCandidates (P := fun a w => ∀ path reason, a = ⟨some path, reason⟩ →
        obs.names w path "HEAD" = some (strip want.stdout)) ?_ ?_ ?_ _ none _ _ h path reason rfl
      · rintro cand w a ha path reason rfl
        exact hhead cand w path reason ha
      · rintro cand w a ha path reason rfl
        obtain ⟨add, -, ha, hworld, -⟩ := Script.exists_of_bind_ok ha
        rw [addBase, hworld]
        split at ha
        · cases ha
        · rename_i hadded
          rw [if_neg hadded]
          exact hhead cand _ path reason ha
      · rintro err w a ha path reason rfl
        cases ha

theorem NamedAt.append {trace : List (Call W)} {argv : List String} {cwd rev c : String}
    (h : NamedAt obs trace argv cwd rev c) (earlier later : List (Call W)) :
    NamedAt obs (earlier ++ trace ++ later) argv cwd rev c := by
  obtain ⟨call, hcall, hfacts⟩ := h
  exact ⟨call, List.mem_append_left _ (List.mem_append_right _ hcall), hfacts⟩

/-- **One merge** advances the head by its branch, or leaves it. -/
theorem mergeOne_result (hdoc : Documented host obs) {worktree branch c : String} {w : W}
    {merged : Bool} (hc : obs.names w worktree "HEAD" = some c)
    (h : (mergeOne host worktree branch w).result = .ok merged) :
    if merged then ∃ t c',
      NamedAt obs (mergeOne host worktree branch w).trace (Host.gitArgv (mergeArgs branch)) worktree
        branch t ∧
      Merges obs.parents c t c' ∧
      obs.names (mergeOne host worktree branch w).world worktree "HEAD" = some c'
    else obs.names (mergeOne host worktree branch w).world worktree "HEAD" = some c := by
  obtain ⟨result, hresult, h, hworld, htrace⟩ := Script.exists_of_bind_ok h
  have hrun := result_subprocess hresult
  rw [mergeOne, hworld, htrace]
  by_cases hdone : result.returncode = 0
  · rw [if_pos hdone] at h ⊢
    cases h
    obtain ⟨t, c', ht, hmerges, hhead⟩ := hdoc.merged branch worktree w result c hrun hdone hc
    exact ⟨t, c', ⟨_, List.mem_append_left _ (List.mem_singleton_self _), rfl, rfl, ht⟩, hmerges, hhead⟩
  · rw [if_neg hdone] at h ⊢
    obtain ⟨unmerged, hunmerged, h, hworld, -⟩ := Script.exists_of_bind_ok h
    obtain ⟨aborted, -, h, hworld', -⟩ := Script.exists_of_bind_ok h
    rw [hworld, hworld']
    split at h
    · cases h
    · rename_i hlisted
      rw [if_neg hlisted]
      cases h
      have hconflict := hdoc.stopped branch worktree w result hrun hdone
        (hdoc.listed worktree _ unmerged (result_subprocess hunmerged) hlisted)
      exact (((hdoc.kept ["merge", "--abort"] worktree _ (by simp)).trans
        (hdoc.kept ["ls-files", "--unmerged"] worktree _ (by simp))).trans hconflict).trans hc

/-- **The merges**, one after the other, are those that are reported. -/
theorem mergeAll_result (hdoc : Documented host obs) {worktree : String} {branches : List String}
    {c : String} {w : W} {merged conflicted : List String}
    (hc : obs.names w worktree "HEAD" = some c)
    (h : (mergeAll host worktree branches w).result = .ok (merged, conflicted)) :
    ∃ tips head,
      List.Forall₂ (fun branch tip => NamedAt obs (mergeAll host worktree branches w).trace
        (Host.gitArgv (mergeArgs branch)) worktree branch tip) merged tips ∧
      MergedOnto obs.parents c tips head ∧
      obs.names (mergeAll host worktree branches w).world worktree "HEAD" = some head := by
  induction branches generalizing w c merged conflicted with
  | nil =>
    cases h
    exact ⟨[], c, .nil, .nil c, hc⟩
  | cons branch rest ih =>
    obtain ⟨one, hone, h, hworld, htrace⟩ := Script.exists_of_bind_ok h
    have hresult := mergeOne_result hdoc hc hone
    rw [mergeAll, hworld, htrace]
    generalize (mergeOne host worktree branch w).world = w₁ at h hresult ⊢
    obtain ⟨⟨mergedRest, conflictedRest⟩, hrest, h, hworld, htrace⟩ := Script.exists_of_bind_ok h
    rw [hworld, htrace]
    cases one with
    | true =>
      cases h
      obtain ⟨t, c', ht, hmerges, hhead⟩ := hresult
      obtain ⟨tips, head, htips, honto, hfinal⟩ := ih hhead hrest
      refine ⟨t :: tips, head, .cons (ht.append [] _) (htips.imp fun _ _ hn => ?_),
        .cons hmerges honto, hfinal⟩
      rw [← List.append_assoc]
      exact hn.append _ _
    | false =>
      cases h
      obtain ⟨tips, head, htips, honto, hfinal⟩ := ih hresult hrest
      refine ⟨tips, head, htips.imp fun _ _ hn => ?_, honto, hfinal⟩
      rw [← List.append_assoc]
      exact hn.append _ _

/-- **A verification branch that is reported** is the pinned commit with the merged branches on
it. -/
theorem mergedAtHead (hdoc : Documented host obs) {root : String} {inp : VerifyBranchInput} {w : W} :
    MergedAtHead obs inp (buildVerificationBranch host root inp w) := by
  intro r h
  obtain ⟨worktree, -, h, hworld, htrace⟩ := Script.exists_of_bind_ok h
  rw [buildVerificationBranch, hworld, htrace]
  generalize (host.ensureWorktree _ _ _ _ w).trace = earlier
  generalize (host.ensureWorktree _ _ _ _ w).world = w₁ at h ⊢
  obtain ⟨reset, hreset, h, hworld, htrace⟩ := Script.exists_of_bind_ok h
  rw [verifyIn, hworld, htrace]
  split at h
  · cases h
  · rename_i hdone
    rw [if_neg hdone]
    obtain ⟨base, hbase, hhead⟩ := hdoc.reset inp.baseSha worktree w₁ reset
      (result_subprocess hreset) (not_not.mp hdone)
    have hreset : NamedAt obs (host.git (resetArgs inp.baseSha) worktree w₁).trace
        (Host.gitArgv (resetArgs inp.baseSha)) worktree inp.baseSha base :=
      ⟨_, List.mem_singleton_self _, rfl, rfl, hbase⟩
    obtain ⟨⟨merged, conflicted⟩, hmerges, h, hworld, htrace⟩ := Script.exists_of_bind_ok h
    obtain ⟨tips, head, htips, honto, hfinal⟩ := mergeAll_result hdoc hhead hmerges
    rw [hworld, htrace]
    obtain ⟨last, hlast, h, hworld, htrace⟩ := Script.exists_of_bind_ok h
    rw [hworld, htrace]
    cases h
    have hlast := (hdoc.head worktree _ last (result_subprocess hlast) _ _ _ head hfinal).mpr hfinal
    refine ⟨worktree, base, tips, ?_, htips.imp fun _ _ hn => ?_, ?_, ?_⟩
    · rw [← List.append_assoc]
      exact hreset.append _ _
    · rw [← List.append_assoc, ← List.append_assoc]
      exact hn.append _ _
    · exact hlast ▸ honto
    · exact ((hdoc.kept ["rev-parse", "HEAD"] worktree _ (by simp)).trans hfinal).trans
        (congrArg some hlast.symm)

/-! ## 2.  Both activities -/

/-- **Both activities touch only the worktree at a candidate, and report their heads truly, exactly
where what is taken for live is the top level of its work tree.** -/
theorem touches_iff_findsTop (hdoc : Documented host obs)
    (root : String) :
    (∀ inp w,
      ((∀ call ∈ (prepareBaseWorktree host root inp w).trace,
          call.Apart obs ((Host.candidates (basePath root inp)).map normpath)) ∧
        BaseAtHead obs inp w (prepareBaseWorktree host root inp w)) ↔
      BaseFinds host obs root inp w) ∧
    ∀ inp w,
      ((∀ call ∈ (buildVerificationBranch host root inp w).trace,
          call.Apart obs (Host.candidates (normpath (verifyPath root inp)))) ∧
        MergedAtHead obs inp (buildVerificationBranch host root inp w)) ↔
      VerifyFinds host obs root inp w := by
  refine ⟨fun inp w => ?_, fun inp w => ?_⟩
  · rw [and_iff_left (baseAtHead hdoc)]
    exact emits_prepareBaseWorktree_iff hdoc
  · rw [and_iff_left (mergedAtHead hdoc)]
    exact emits_buildVerificationBranch_iff hdoc

/-! ## 3.  A small repository -/

inductive Tip where
  | c0
  | c1
  | m1
  deriving DecidableEq

def Tip.text : Tip → String
  | .c0 => "c0"
  | .c1 => "c1"
  | .m1 => "m1"

/-- What is at the candidate: nothing, a plain directory, or a worktree. -/
inductive Spot where
  | absent
  | plain
  | worktree (head : Tip)
  deriving DecidableEq

/-- A repository at `/repo`, with a candidate in it. -/
structure Small where
  head : Tip
  spot : Spot
  deriving DecidableEq

namespace Small

/-- The top level of the work tree that git finds. -/
def top (place : String) (w : Small) (cwd : String) : Option String :=
  if cwd = "/repo" then some "/repo"
  else if cwd = place then
    match w.spot with
    | .absent => none
    | .plain => some "/repo"
    | .worktree _ => some place
  else none

def headAt (place : String) (w : Small) (cwd : String) : Tip :=
  match w.spot with
  | .worktree head => if cwd = place then head else w.head
  | _ => w.head

def setHead (place : String) (w : Small) (cwd : String) (head : Tip) : Small :=
  match w.spot with
  | .worktree _ => if cwd = place then { w with spot := .worktree head } else { w with head := head }
  | _ => { w with head := head }

/-- What git prints where it changes nothing. -/
def answers : List (List String × String) :=
  [(Host.gitArgv ["rev-parse", "--verify", "--quiet", "c1^{commit}"], "c1\n"),
    (Host.gitArgv ["rev-parse", "--is-inside-work-tree"], "true\n"),
    (["git", "worktree", "prune"], ""),
    (["git", "worktree", "list", "--porcelain"], "worktree /repo\nbranch refs/heads/main\n\n"),
    (Host.gitArgv ["clean", "-fd", "-e", ".sdlc-venv"], "")]

/-- Git, as far as it is used here: the commit `c1` can be checked out, and the branch `fix`, at the
commit `f1`, merged into it. -/
def git (place : String) (argv : List String) (cwd : String) (w : Small) : Completed × Small :=
  match answers.lookup argv with
  | some text => (⟨0, text, ""⟩, w)
  | none =>
    if argv = Host.gitArgv ["rev-parse", "HEAD"] then
      (⟨0, (w.headAt place cwd).text ++ "\n", ""⟩, w)
    else if argv = Host.gitArgv ["checkout", "--detach", "--force", "c1"] then
      (⟨0, "", ""⟩, w.setHead place cwd .c1)
    else if argv = Host.gitArgv (resetArgs "c1") then (⟨0, "", ""⟩, w.setHead place cwd .c1)
    else if argv = Host.gitArgv (mergeArgs "fix") ∧ w.headAt place cwd = .c1 then
      (⟨0, "", ""⟩, w.setHead place cwd .m1)
    else if argv = Host.gitArgv ["worktree", "add", "--detach", place, "c1"] ∧ w.spot = .absent then
      (⟨0, "", ""⟩, { w with spot := .worktree .c1 })
    else if argv = ["git", "worktree", "add", "-b", "sdlc/tidyup-verify/t1", place, "c1"] ∧
        w.spot = .absent then (⟨0, "", ""⟩, { w with spot := .worktree .c1 })
    else (⟨1, "", ""⟩, w)

def run (place : String) (argv : List String) (cwd : String) (w : Small) :
    Except String Completed × Small :=
  match w.top place cwd with
  | none => (.error "FileNotFoundError()", w)
  | some _ => ((.ok (git place argv cwd w).1), (git place argv cwd w).2)

def machine (place : String) : Host Small where
  isDir w path := (w.top place path).isSome
  pathExists w path := (w.top place path).isSome
  run := run place
  rmtree _ w := (.error "PermissionError()", w)

def observed (place : String) : Observed Small String where
  dir w path := (w.top place path).map fun _ => path
  topLevel w path := w.top place path
  names w path rev := (w.top place path).bind fun _ =>
    if rev = "HEAD" then some (w.headAt place path).text
    else if rev = "c1" then some "c1" else if rev = "fix" then some "f1" else none
  unmerged _ _ := False
  parents c := if c = "m1" then ["c1", "f1"] else []

variable {place : String} {w : Small} {cwd : String}

@[simp] theorem top_setHead (head : Tip) (path : String) :
    (w.setHead place cwd head).top place path = w.top place path := by
  unfold setHead
  cases hspot : w.spot with
  | absent => simp [top, hspot]
  | plain => simp [top, hspot]
  | worktree head' =>
    by_cases hcwd : cwd = place
    · simp [top, hspot, hcwd]
    · simp [top, hspot, hcwd]

theorem top_git {argv : List String} (path : String) :
    (git place argv cwd w).2.top place path = w.top place path ∨
      (w.spot = .absent ∧ subcommand argv = "worktree" ∧
        (git place argv cwd w).2 = { w with spot := .worktree .c1 }) := by
  unfold git
  cases answers.lookup argv with
  | some text => exact .inl rfl
  | none =>
    dsimp only
    split_ifs with hhead hcheckout hreset hmerge hdetach hcreate
    · exact .inl rfl
    · exact .inl (top_setHead ..)
    · exact .inl (top_setHead ..)
    · exact .inl (top_setHead ..)
    · exact .inr ⟨hdetach.2, by rw [hdetach.1]; rfl, rfl⟩
    · exact .inr ⟨hcreate.2, by rw [hcreate.1]; rfl, rfl⟩
    · exact .inl rfl

theorem headAt_setHead (head : Tip) : (w.setHead place cwd head).headAt place cwd = head := by
  unfold setHead
  cases hspot : w.spot with
  | absent => simp [headAt]
  | plain => simp [headAt]
  | worktree head' =>
    by_cases hcwd : cwd = place
    · simp [headAt, hcwd]
    · simp [headAt, hcwd]

theorem run_ok {argv : List String} {done : Completed} (h : (run place argv cwd w).1 = .ok done) :
    (w.top place cwd).isSome = true ∧ (git place argv cwd w).1 = done ∧
      (run place argv cwd w).2 = (git place argv cwd w).2 := by
  cases htop : w.top place cwd with
  | none =>
    simp only [run, htop] at h
    cases h
  | some d =>
    simp only [run, htop] at h ⊢
    exact ⟨rfl, Except.ok.inj h, trivial⟩

theorem top_run {argv : List String} (h : subcommand argv ≠ "worktree") (path : String) :
    (run place argv cwd w).2.top place path = w.top place path := by
  cases htop : w.top place cwd with
  | none => simp only [run, htop]
  | some d =>
    simp only [run, htop]
    rcases top_git path with hsame | ⟨-, hsub, -⟩
    · exact hsame
    · exact absurd hsub h

theorem names_head (w : Small) : (observed place).names w cwd "HEAD" =
    (w.top place cwd).map fun _ => (w.headAt place cwd).text := by
  cases htop : w.top place cwd with
  | none => simp [observed, htop]
  | some d => simp [observed, htop]

theorem git_reset {rev : String} : git place (Host.gitArgv (resetArgs rev)) cwd w =
    if rev = "c1" then (⟨0, "", ""⟩, w.setHead place cwd .c1) else (⟨1, "", ""⟩, w) := by
  simp [git, answers, List.lookup, Host.gitArgv, resetArgs, mergeArgs]

theorem git_merge {branch : String} : git place (Host.gitArgv (mergeArgs branch)) cwd w =
    if branch = "fix" ∧ w.headAt place cwd = .c1 then (⟨0, "", ""⟩, w.setHead place cwd .m1)
    else (⟨1, "", ""⟩, w) := by
  have hargs : "tidy-up: " ++ branch = "tidy-up: fix" ∧ branch = "fix" ↔ branch = "fix" :=
    and_iff_right_of_imp fun h => by rw [h]; rfl
  simp [git, answers, List.lookup, Host.gitArgv, resetArgs, mergeArgs, hargs]

/-- **The small repository** behaves as is documented. -/
theorem documented (place : String) : Documented (machine place) (observed place) where
  absent w path h := by
    have hnone : w.top place path = none := Option.not_isSome_iff_eq_none.mp (by
      change (w.top place path).isSome = false at h
      rw [h]
      exact Bool.false_ne_true)
    simp [observed, hnone]
  removed w path h := by cases h
  missing argv cwd w h := by
    refine ⟨"FileNotFoundError()", ?_⟩
    have hnone : w.top place cwd = none := Option.map_eq_none_iff.mp h
    change (run place argv cwd w).1 = _
    simp only [run, hnone]
  looked branch cwd w path h := by
    change ((run place _ cwd w).2.top place path).map _ = none
    rw [top_run (by simp [subcommand])]
    exact h
  added cand argv cwd w done _ hdir hrun _ d hd := by
    obtain ⟨-, -, hworld⟩ := run_ok hrun
    have hnone : w.top place cand = none := Option.map_eq_none_iff.mp hdir
    change (((run place argv cwd w).2.top place cand).map fun _ => cand) = some d at hd
    change (run place argv cwd w).2.top place cand = some d
    rw [hworld] at hd ⊢
    rcases top_git cand with hsame | ⟨hspot, -, hmade⟩
    · rw [hsame, hnone] at hd
      cases hd
    · rw [hmade] at hd ⊢
      have hrepo : cand ≠ "/repo" := by
        rintro rfl
        cases hnone
      by_cases hcand : cand = place
      · subst hcand
        simpa [top, hrepo] using hd
      · simp [top, hrepo, hcand] at hd
  stays argv cwd w d hsub htop := by
    have hne : subcommand argv ≠ "worktree" := by
      rintro hsub'
      rw [hsub'] at hsub
      exact absurd hsub (by decide)
    refine ⟨(top_run hne cwd).trans htop, fun path hpath => ?_⟩
    change ((run place argv cwd w).2.top place path).map _ = some d
    rw [top_run hne path]
    exact hpath
  reset rev cwd w done hrun hdone := by
    obtain ⟨hsome, hgit, hworld⟩ := run_ok hrun
    obtain ⟨d, hd⟩ := Option.isSome_iff_exists.mp hsome
    have hrev : rev = "c1" := by
      by_contra hrev
      rw [git_reset, if_neg hrev] at hgit
      rw [← hgit] at hdone
      cases hdone
    subst hrev
    rw [git_reset, if_pos rfl] at hworld
    refine ⟨"c1", by simp [observed, hd], ?_⟩
    change (observed place).names (run place _ cwd w).2 cwd "HEAD" = _
    rw [hworld, names_head, top_setHead, hd, headAt_setHead]
    rfl
  merged branch cwd w done c hrun hdone hc := by
    obtain ⟨hsome, hgit, hworld⟩ := run_ok hrun
    obtain ⟨d, hd⟩ := Option.isSome_iff_exists.mp hsome
    rw [git_merge] at hgit hworld
    have hmerge : branch = "fix" ∧ w.headAt place cwd = .c1 := by
      by_contra hmerge
      rw [if_neg hmerge] at hgit
      rw [← hgit] at hdone
      cases hdone
    rw [if_pos hmerge] at hworld
    have hc' : c = "c1" := by
      rw [names_head, hd, hmerge.2] at hc
      exact (Option.some.inj hc).symm
    subst hc'
    refine ⟨"f1", "m1", by simp [observed, hd, hmerge.1], .inr (by simp [observed]), ?_⟩
    change (observed place).names (run place _ cwd w).2 cwd "HEAD" = _
    rw [hworld, names_head, top_setHead, hd, headAt_setHead]
    rfl
  stopped branch cwd w done _ _ hunmerged := hunmerged.elim
  listed cwd w done hrun hlisted := by
    obtain ⟨-, hgit, -⟩ := run_ok hrun
    have hsilent : (git place (Host.gitArgv ["ls-files", "--unmerged"]) cwd w).1.stdout = "" := by
      simp [git, answers, List.lookup, Host.gitArgv, resetArgs, mergeArgs]
    rw [hgit] at hsilent
    rw [hsilent] at hlisted
    exact absurd (by decide) hlisted
  kept args cwd w hargs := by
    have hsame : (run place (Host.gitArgv args) cwd w).2 = w := by
      cases htop : w.top place cwd with
      | none => simp only [run, htop]
      | some d =>
        simp only [run, htop]
        simp only [List.mem_cons, List.not_mem_nil, or_false] at hargs
        rcases hargs with rfl | rfl | rfl
        · simp [git, answers, List.lookup, Host.gitArgv, resetArgs, mergeArgs]
        · simp [git, answers, List.lookup, Host.gitArgv, resetArgs, mergeArgs]
        · simp [git, answers, List.lookup, Host.gitArgv]
    change (observed place).names (run place _ cwd w).2 cwd "HEAD" = _
    rw [hsame]
  resolved rev cwd w done hrun hdone := by
    obtain ⟨hsome, hgit, -⟩ := run_ok hrun
    obtain ⟨d, hd⟩ := Option.isSome_iff_exists.mp hsome
    have hrev : rev ++ "^{commit}" = "c1^{commit}" := by
      by_contra hrev
      have hfails : (git place (Host.gitArgv ["rev-parse", "--verify", "--quiet",
          rev ++ "^{commit}"]) cwd w).1.returncode = 1 := by
        have hother : (rev ++ "^{commit}" == "c1^{commit}") = false := beq_eq_false_iff_ne.mpr hrev
        simp [git, answers, List.lookup, Host.gitArgv, resetArgs, mergeArgs, hother]
      rw [hgit, hdone] at hfails
      cases hfails
    have hc1 : rev = "c1" := by
      have hlist := congrArg String.toList hrev
      rw [String.toList_append] at hlist
      exact String.toList_inj.mp (List.append_cancel_right hlist)
    subst hc1
    have hprinted : (git place (Host.gitArgv ["rev-parse", "--verify", "--quiet",
        "c1" ++ "^{commit}"]) cwd w).1.stdout = "c1\n" := rfl
    have hstrip : strip "c1\n" = "c1" := by decide
    rw [← hgit, hprinted, hstrip]
    simp [observed, hd]
  head cwd w done hrun w' cwd' rev c hc := by
    obtain ⟨hsome, hgit, -⟩ := run_ok hrun
    obtain ⟨d, hd⟩ := Option.isSome_iff_exists.mp hsome
    have hprinted : done.stdout = (w.headAt place cwd).text ++ "\n" := by
      rw [← hgit]
      simp [git, answers, List.lookup, Host.gitArgv]
    have hstrip : strip ((w.headAt place cwd).text ++ "\n") = (w.headAt place cwd).text := by
      cases w.headAt place cwd with
      | c0 => decide
      | c1 => decide
      | m1 => decide
    rw [hprinted, hstrip, names_head, hd]
    exact ⟨fun h => congrArg some h, fun h => Option.some.inj h⟩

end Small

theorem findsTop_of_absent {repo cand : String} {all first rest : List String}
    {w : W} (hdir : host.isDir w cand = false) (hexists : host.pathExists w cand = false) :
    FindsTop host obs repo all first (cand :: rest) w := by
  have hlive : host.live cand w = ⟨.ok false, w, []⟩ := by
    rw [Host.live, Script.bind_of_ok (a := false) (by rw [Host.isdir, Script.look_run, hdir])]
    rfl
  have hstale : host.clearStale repo cand w = ⟨.ok none, w, []⟩ := by
    rw [Host.clearStale,
      Script.bind_of_ok (a := false) (by rw [Host.pathexists, Script.look_run, hexists])]
    rfl
  rw [FindsTop, hlive]
  dsimp only
  rw [hstale]
  trivial

theorem verifyFinds_of_findsTop (obs : Observed W Dir) (root : String) (inp : VerifyBranchInput)
    {w w₁ w₂ : W} {pruned : Completed}
    (hprune : (host.subprocess ["git", "worktree", "prune"] inp.repoPath w).result = .ok pruned)
    (hw₁ : (host.subprocess ["git", "worktree", "prune"] inp.repoPath w).world = w₁)
    (hfind : (host.findLiveWorktreeForBranch inp.repoPath
      ("sdlc/tidyup-verify/" ++ inp.tidyupId) w₁).result = .ok none)
    (hw₂ : (host.findLiveWorktreeForBranch inp.repoPath
      ("sdlc/tidyup-verify/" ++ inp.tidyupId) w₁).world = w₂)
    (h : FindsTop host obs inp.repoPath (Host.candidates (normpath (verifyPath root inp)))
      (Host.gitArgv (resetArgs inp.baseSha)) (Host.candidates (normpath (verifyPath root inp))) w₂) :
    VerifyFinds host obs root inp w := by
  unfold VerifyFinds
  dsimp only
  generalize host.subprocess ["git", "worktree", "prune"] inp.repoPath w = o at hprune hw₁ ⊢
  obtain ⟨result, world, trace⟩ := o
  subst hw₁
  cases hprune
  dsimp only
  generalize host.findLiveWorktreeForBranch inp.repoPath
    ("sdlc/tidyup-verify/" ++ inp.tidyupId) world = o at hfind hw₂ ⊢
  obtain ⟨result, world, trace⟩ := o
  subst hw₂
  cases hfind
  exact h

namespace Small

def baseInput : BaseWorktreeInput := ⟨"/repo", "r1", "c1"⟩

def verifyInput : VerifyBranchInput := ⟨"/repo", "c1", "t1", ["fix"]⟩

/-- `prepare_base_worktree`, with the root of the worktrees inside of the repository. -/
def prepare (w : Small) : Script.Outcome Small (Call Small) Failure BaseWorktree :=
  prepareBaseWorktree (machine "/repo/wt/r1/base") "/repo/wt" baseInput w

def verify (w : Small) : Script.Outcome Small (Call Small) Failure VerifyResult :=
  buildVerificationBranch (machine "/repo/wt/t1/verify") "/repo/wt" verifyInput w

theorem verifyFinds_absent : VerifyFinds (machine "/repo/wt/t1/verify")
    (observed "/repo/wt/t1/verify") "/repo/wt" verifyInput ⟨.c0, .absent⟩ := by
  have hprune : ((machine "/repo/wt/t1/verify").subprocess ["git", "worktree", "prune"]
      verifyInput.repoPath ⟨.c0, .absent⟩).result = .ok ⟨0, "", ""⟩ := by decide +kernel
  have hpruned : ((machine "/repo/wt/t1/verify").subprocess ["git", "worktree", "prune"]
      verifyInput.repoPath ⟨.c0, .absent⟩).world = ⟨.c0, .absent⟩ := by decide +kernel
  have hfind : ((machine "/repo/wt/t1/verify").findLiveWorktreeForBranch verifyInput.repoPath
      ("sdlc/tidyup-verify/" ++ verifyInput.tidyupId) ⟨.c0, .absent⟩).result = .ok none := by
    decide +kernel
  have hfound : ((machine "/repo/wt/t1/verify").findLiveWorktreeForBranch verifyInput.repoPath
      ("sdlc/tidyup-verify/" ++ verifyInput.tidyupId) ⟨.c0, .absent⟩).world = ⟨.c0, .absent⟩ := by
    decide +kernel
  have hloop := @verifyFinds_of_findsTop Small String (machine "/repo/wt/t1/verify")
    (observed "/repo/wt/t1/verify") "/repo/wt" verifyInput _ _ _ _ hprune hpruned hfind hfound
  apply hloop
  apply findsTop_of_absent
  · decide +kernel
  · decide +kernel

theorem not_atTop {head : Tip} (hplace : place ≠ "/repo") {cands : List String}
    (hcands : "/repo" ∉ cands) : ¬AtTop (observed place) cands ⟨head, .plain⟩ place := by
  rintro ⟨cand, hcand, d, hdir, htop⟩
  have hrepo : d = "/repo" := by
    change top place ⟨head, .plain⟩ place = some d at htop
    simpa [top, hplace] using htop.symm
  obtain ⟨_, -, hd⟩ := Option.map_eq_some_iff.mp hdir
  subst hrepo
  exact hcands (hd ▸ hcand)

end Small

/-- Nothing is at the candidate, and then a worktree at the pinned commit; the checkout is as it
was. So it is with the verification worktree, and the branch is merged. -/
theorem touches_iff_findsTop_sample :
    (∀ call ∈ (Small.prepare ⟨.c0, .absent⟩).trace,
        call.Apart (Small.observed "/repo/wt/r1/base")
          ((Host.candidates (basePath "/repo/wt" Small.baseInput)).map normpath)) ∧
      (Small.prepare ⟨.c0, .absent⟩).result = .ok { path := some "/repo/wt/r1/base" } ∧
      (Small.prepare ⟨.c0, .absent⟩).world = ⟨.c0, .worktree .c1⟩ ∧
      (∀ call ∈ (Small.verify ⟨.c0, .absent⟩).trace,
        call.Apart (Small.observed "/repo/wt/t1/verify")
          (Host.candidates (normpath (verifyPath "/repo/wt" Small.verifyInput)))) ∧
      (Small.verify ⟨.c0, .absent⟩).result = .ok ⟨"sdlc/tidyup-verify/t1", "m1", ["fix"], []⟩ ∧
      (Small.verify ⟨.c0, .absent⟩).world = ⟨.c0, .worktree .m1⟩ := by
  have hbase := ((touches_iff_findsTop (Small.documented "/repo/wt/r1/base") "/repo/wt").1
    Small.baseInput ⟨.c0, .absent⟩).mpr fun _ _ =>
      findsTop_of_absent (by decide +kernel) (by decide +kernel)
  have hverify := ((touches_iff_findsTop (Small.documented "/repo/wt/t1/verify") "/repo/wt").2
    Small.verifyInput ⟨.c0, .absent⟩).mpr Small.verifyFinds_absent
  exact ⟨hbase.1, by decide +kernel, by decide +kernel, hverify.1, by decide +kernel,
    by decide +kernel⟩

/-- **A plain directory at the candidate, inside of a repository**: its checkout is reset to the
pinned commit, and the branch merged into it. -/
theorem enclosing_touched :
    (Small.prepare ⟨.c0, .plain⟩).result = .ok { path := some "/repo/wt/r1/base" } ∧
      (Small.prepare ⟨.c0, .plain⟩).world = ⟨.c1, .plain⟩ ∧
      (¬∀ call ∈ (Small.prepare ⟨.c0, .plain⟩).trace,
        call.Apart (Small.observed "/repo/wt/r1/base")
          ((Host.candidates (basePath "/repo/wt" Small.baseInput)).map normpath)) ∧
      (Small.verify ⟨.c0, .plain⟩).result = .ok ⟨"sdlc/tidyup-verify/t1", "m1", ["fix"], []⟩ ∧
      (Small.verify ⟨.c0, .plain⟩).world = ⟨.m1, .plain⟩ ∧
      ¬∀ call ∈ (Small.verify ⟨.c0, .plain⟩).trace,
        call.Apart (Small.observed "/repo/wt/t1/verify")
          (Host.candidates (normpath (verifyPath "/repo/wt" Small.verifyInput))) := by
  refine ⟨by decide +kernel, by decide +kernel, fun h => ?_, by decide +kernel, by decide +kernel,
    fun h => ?_⟩
  · have hany : ((Small.prepare ⟨.c0, .plain⟩).trace.any fun call =>
        decide (subcommand call.argv = "checkout" ∧ call.cwd = "/repo/wt/r1/base" ∧
          call.before = ⟨.c0, .plain⟩ ∧ call.completed ≠ none)) = true := by decide +kernel
    obtain ⟨call, hcall, hfacts⟩ := List.any_eq_true.mp hany
    obtain ⟨hsub, hcwd, hbefore, hdone⟩ := of_decide_eq_true hfacts
    have hat := h call hcall (by rw [hsub]; decide) hdone
    rw [hcwd, hbefore] at hat
    exact Small.not_atTop (by decide) (by decide +kernel) hat
  · have hany : ((Small.verify ⟨.c0, .plain⟩).trace.any fun call =>
        decide (subcommand call.argv = "reset" ∧ call.cwd = "/repo/wt/t1/verify" ∧
          call.before = ⟨.c0, .plain⟩ ∧ call.completed ≠ none)) = true := by decide +kernel
    obtain ⟨call, hcall, hfacts⟩ := List.any_eq_true.mp hany
    obtain ⟨hsub, hcwd, hbefore, hdone⟩ := of_decide_eq_true hfacts
    have hat := h call hcall (by rw [hsub]; decide) hdone
    rw [hcwd, hbefore] at hat
    exact Small.not_atTop (by decide) (by decide +kernel) hat

end Kroker.Vcs
