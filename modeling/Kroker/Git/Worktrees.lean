import Kroker.Library.Run
import Kroker.Git.Host

/-!
# Whose branch a worktree is on

`_ensure_worktree` is to give a worktree that is checked out to the branch it is asked for.  What
git makes of a call is not in the repository: `WorktreeManual` lists what its manual says of the
commands that are run here, over what there is to see of a world (`Registered`).

A worktree that git lists for the branch is reused, and one that is added is on the branch.  A
candidate is reused as well if git says that it is inside of a work tree, whatever is checked out in
it: a plain directory in a repository is, and so is the worktree of another branch, since the second
place of the task `t` is the first of the task `t.1`.  `meets` says that a call is not misled.
-/

namespace Kroker.Vcs

variable {W : Type}

/-! ## 1.  Calls -/

structure WorktreeInput where
  repoPath : String
  runId : String
  taskId : String
  fromRef : String

structure WorktreeHandle where
  path : String
  branch : String
  branchPoint : String

def taskBranch (runId taskId : String) : String := "sdlc/" ++ runId ++ "/" ++ taskId

/-- The first place of a task, below the root of the worktrees. -/
def taskPath (root runId taskId : String) : String := joinPath (joinPath root runId) taskId

def createWorktree (host : Host W) (root : String) (inp : WorktreeInput) :
    Shell W WorktreeHandle := do
  let branch := taskBranch inp.runId inp.taskId
  let actual ← host.ensureWorktree inp.repoPath branch (taskPath root inp.runId inp.taskId)
    inp.fromRef
  let point ← host.subprocess ["git", "rev-parse", inp.fromRef] inp.repoPath
  pure ⟨actual, branch, strip point.stdout⟩

/-- What a worktree is asked for with.  The branch is a short name. -/
structure Wanted where
  branch : String
  path : String
  fromRef : String
  short : "refs/".toList.isPrefixOf branch.toList = false

def Wanted.ofTask (root runId taskId fromRef : String) : Wanted where
  branch := taskBranch runId taskId
  path := taskPath root runId taskId
  fromRef := fromRef
  short := by
    rw [taskBranch, String.append_assoc, String.append_assoc, String.toList_append]
    rfl

def Wanted.ask (host : Host W) (repo : String) (c : Wanted) : Shell W String :=
  host.ensureWorktree repo c.branch c.path c.fromRef

/-- The state after a call. -/
def called (host : Host W) (repo : String) (w : W) (c : Wanted) : Option W :=
  some (c.ask host repo w).world

/-! ## 2.  What is seen, and what git does to it -/

/-- A worktree as `git worktree list --porcelain` shows it: its path, and a line for each of its
attributes. -/
structure Worktree where
  path : String
  attributes : List String

namespace Worktree

def On (t : Worktree) (branch : String) : Prop := "branch refs/heads/" ++ branch ∈ t.attributes

instance (t : Worktree) (branch : String) : Decidable (t.On branch) :=
  inferInstanceAs (Decidable (_ ∈ _))

def lines (t : Worktree) : List (List Char) :=
  ("worktree " ++ t.path).toList :: (t.attributes.map String.toList ++ [[]])

/-- The lines are read as they are written: there is no line break in any of them, the path is
normal, and no ref begins or ends with white space. -/
def plain (t : Worktree) : Bool :=
  decide (normpath (strip t.path) = t.path) &&
  (t.lines.all fun line => line.all fun c => decide (c ∉ lineBreaks)) &&
  t.attributes.all fun a => !"branch ".toList.isPrefixOf a.toList ||
    decide (strip (String.ofList (a.toList.drop 7)) = String.ofList (a.toList.drop 7))

end Worktree

/-- What there is to see of a world. -/
structure Registered (W : Type) where
  worktrees : W → List Worktree
  isBranch : W → String → Bool
  /-- The path that is recorded of a worktree that is added at a path. -/
  records : W → String → String
  /-- The second path leads to a place that the first names, or to one below it. -/
  within : W → String → String → Bool

variable (host : Host W) (reg : Registered W) (repo : String)

/-- **The root of a worktree of the repository, with the branch checked out.** -/
def HeldBy (w : W) (path branch : String) : Prop :=
  (∃ t ∈ reg.worktrees w, t.path = path ∧ t.On branch) ∧ host.isDir w path = true ∧
    host.pathExists w (path ++ "/.git") = true

def HeldBeside (cand path branch : String) (w : W) : Prop :=
  HeldBy host reg w path branch ∧ reg.within w cand path = false

/-- What is given is a worktree on the branch, and the others are as they were. -/
def GivenOn (branch : String) (w : W) (o : Script.Outcome W (Call W) Failure String) : Prop :=
  (∀ path b, HeldBy host reg w path b → HeldBy host reg o.world path b) ∧
    ∀ path, o.result = .ok path → HeldBy host reg o.world path branch

abbrev pruneArgv : List String := ["git", "worktree", "prune"]

abbrev listArgv : List String := ["git", "worktree", "list", "--porcelain"]

abbrev verifyArgv (branch : String) : List String :=
  ["git", "rev-parse", "--verify", "--quiet", branch]

/-- The commands that remove no worktree whose directory is there. -/
inductive Mild : List String → Prop
  | prune : Mild pruneArgv
  | list : Mild listArgv
  | inside : Mild (Host.gitArgv ["rev-parse", "--is-inside-work-tree"])
  | verify (branch : String) : Mild (verifyArgv branch)
  | checkout (cand branch : String) : Mild ["git", "worktree", "add", cand, branch]
  | create (branch cand fromRef : String) :
      Mild ["git", "worktree", "add", "-b", branch, cand, fromRef]

/-- **What is documented** of git and of the operating system. -/
structure WorktreeManual : Prop where
  labels : ∀ w, ∀ t ∈ reg.worktrees w, ∀ a ∈ t.attributes,
    "worktree ".toList.isPrefixOf a.toList = false
  /-- The ref of a branch is shown in full. -/
  full : ∀ w, ∀ t ∈ reg.worktrees w, ∀ a ∈ t.attributes,
    "branch ".toList.isPrefixOf a.toList = true → "branch refs/".toList.isPrefixOf a.toList = true
  once : ∀ w, ∀ t ∈ reg.worktrees w, ∀ t' ∈ reg.worktrees w, t.path = t'.path →
    ∀ b b', t.On b → t'.On b' → b = b'
  /-- A branch is not checked out twice. -/
  alone : ∀ w, ∀ t ∈ reg.worktrees w, ∀ t' ∈ reg.worktrees w, ∀ b, t.On b → t'.On b →
    t.path = t'.path
  starts : ∀ w, reg.worktrees w ≠ [] → ∃ done, (host.run pruneArgv repo w).1 = .ok done
  lists : ∀ w, reg.worktrees w ≠ [] →
    ∃ done, (host.run listArgv repo w).1 = .ok done ∧ done.returncode = 0
  listed : ∀ w done, (host.run listArgv repo w).1 = .ok done → done.returncode = 0 →
    done.stdout = printed ((reg.worktrees w).flatMap Worktree.lines)
  listing : ∀ w, reg.worktrees (host.run listArgv repo w).2 = reg.worktrees w ∧
    ∀ path, host.isDir (host.run listArgv repo w).2 path = host.isDir w path
  /-- A worktree that is listed after a `prune` is live, if its directory is there. -/
  live : ∀ w, ∀ t ∈ reg.worktrees (host.run pruneArgv repo w).2,
    host.isDir (host.run pruneArgv repo w).2 t.path = true →
      host.pathExists (host.run pruneArgv repo w).2 (t.path ++ "/.git") = true
  mild : ∀ argv cwd w path b, Mild argv → HeldBy host reg w path b →
    HeldBy host reg (host.run argv cwd w).2 path b
  /-- What is cleared away lies within the path. -/
  clears : ∀ argv cand w path b,
    argv = ["git", "worktree", "remove", "-f", cand] ∨ argv = pruneArgv →
      HeldBeside host reg cand path b w → HeldBeside host reg cand path b (host.run argv repo w).2
  removes : ∀ cand w path b, HeldBeside host reg cand path b w →
    HeldBeside host reg cand path b (host.rmtree cand w).2
  checkedOut : ∀ cand b w done, (host.run ["git", "worktree", "add", cand, b] repo w).1 = .ok done →
    done.returncode = 0 → reg.isBranch w b = true → reg.records w cand = cand →
      HeldBy host reg (host.run ["git", "worktree", "add", cand, b] repo w).2 cand b
  created : ∀ cand b fromRef w done,
    (host.run ["git", "worktree", "add", "-b", b, cand, fromRef] repo w).1 = .ok done →
      done.returncode = 0 → reg.records w cand = cand →
        HeldBy host reg (host.run ["git", "worktree", "add", "-b", b, cand, fromRef] repo w).2
          cand b

/-! ## 3.  What a call has to find -/

def nothingWithin (w : W) (cand : String) : Bool :=
  (reg.worktrees w).all fun t => !(host.isDir w t.path && reg.within w cand t.path)

/-- What is added at the path is recorded there, and a name that is found is that of a branch. -/
def lands (branch cand : String) (w : W) : Bool :=
  match (host.run (verifyArgv branch) repo w).1 with
  | .error _ => true
  | .ok probe =>
    let w := (host.run (verifyArgv branch) repo w).2
    decide (reg.records w cand = cand) &&
      (decide (probe.returncode ≠ 0) || reg.isBranch w branch)

/-- No candidate that is reached is taken for live, and none is cleared with something live in
it. -/
def loopMeets (branch : String) : List String → W → Bool
  | [], _ => true
  | cand :: rest, w =>
    match (host.live cand w).result with
    | .error _ => true
    | .ok true => false
    | .ok false =>
      let w := (host.live cand w).world
      (!host.pathExists w cand || nothingWithin host reg w cand) &&
      match (host.clearStale repo cand w).result with
      | .error _ => true
      | .ok (some _) => loopMeets branch rest (host.clearStale repo cand w).world
      | .ok none => lands host reg repo branch cand (host.clearStale repo cand w).world

/-- **What a call has to find**: the worktrees are listed in plain lines, and where none of them is
a directory with the branch, the loop over the candidates is not misled. -/
def meets (w : W) (c : Wanted) : Bool :=
  match (host.run pruneArgv repo w).1 with
  | .error _ => true
  | .ok _ =>
    let w := (host.run pruneArgv repo w).2
    let found := host.findLiveWorktreeForBranch repo c.branch w
    (reg.worktrees w).all Worktree.plain &&
    match found.result with
    | .error _ => true
    | .ok existing =>
      match existing.filter (host.isDir found.world ·) with
      | some _ => true
      | none => loopMeets host reg repo c.branch (Host.candidates (normpath c.path)) found.world

/-! ## 4.  The listing -/

variable {branch : String}

/-- **The branch line of a worktree** is the one line of it that the branch is read from. -/
theorem reads_branch_iff {a : String} (hshort : "refs/".toList.isPrefixOf branch.toList = false)
    (hfull : "branch ".toList.isPrefixOf a.toList = true →
      "branch refs/".toList.isPrefixOf a.toList = true)
    (hplain : "branch ".toList.isPrefixOf a.toList = true →
      strip (String.ofList (a.toList.drop 7)) = String.ofList (a.toList.drop 7)) :
    ("branch ".toList.isPrefixOf a.toList = true ∧
        (strip (String.ofList (a.toList.drop 7)) = branch ∨
          strip (String.ofList (a.toList.drop 7)) = "refs/heads/" ++ branch)) ↔
      a = "branch refs/heads/" ++ branch := by
  constructor
  · rintro ⟨hbranch, href⟩
    rw [hplain hbranch] at href
    obtain ⟨ref, href'⟩ := List.isPrefixOf_iff_prefix.mp hbranch
    obtain ⟨rest, hrest⟩ := List.isPrefixOf_iff_prefix.mp (hfull hbranch)
    have hdrop : a.toList.drop 7 = ref := by
      rw [← href']
      rfl
    have hrefs : ref = "refs/".toList ++ rest := by
      rw [← hdrop, ← hrest]
      rfl
    rw [hdrop] at href
    rcases href with href | href
    · -- A ref that is shown in full is no short name.
      rw [← href, String.toList_ofList, hrefs, String.toList_ofList] at hshort
      cases hshort
    · apply String.toList_inj.mp
      have hlist := congrArg String.toList href
      rw [String.toList_ofList, String.toList_append] at hlist
      rw [← href', hlist, String.toList_append, ← List.append_assoc]
      rfl
  · rintro rfl
    have hbranch : "branch ".toList.isPrefixOf ("branch refs/heads/" ++ branch).toList = true := by
      rw [String.toList_append]
      rfl
    have hdrop : String.ofList (("branch refs/heads/" ++ branch).toList.drop 7) =
        "refs/heads/" ++ branch := by
      apply String.toList_inj.mp
      rw [String.toList_ofList, String.toList_append, String.toList_append]
      rfl
    exact ⟨hbranch, .inr ((hplain hbranch).trans hdrop)⟩

variable {host reg repo}

theorem Worktree.plain_iff {t : Worktree} :
    t.plain = true ↔ normpath (strip t.path) = t.path ∧
      (∀ line ∈ t.lines, ∀ c ∈ line, c ∉ lineBreaks) ∧
      ∀ a ∈ t.attributes, "branch ".toList.isPrefixOf a.toList = true →
        strip (String.ofList (a.toList.drop 7)) = String.ofList (a.toList.drop 7) := by
  simp only [plain, Bool.and_eq_true, decide_eq_true_eq, List.all_eq_true, Bool.or_eq_true,
    Bool.not_eq_true', and_assoc]
  refine and_congr_right fun _ => and_congr_right fun _ => forall₂_congr fun a _ => ?_
  cases "branch ".toList.isPrefixOf a.toList <;> simp

def firstOn (ts : List Worktree) (branch : String) : Option Worktree :=
  ts.find? fun t => decide (t.On branch)

theorem of_firstOn {ts : List Worktree} {t : Worktree} (h : firstOn ts branch = some t) :
    t ∈ ts ∧ t.On branch :=
  ⟨List.mem_of_find?_eq_some h,
    of_decide_eq_true (List.find?_some (p := fun t : Worktree => decide (t.On branch)) h)⟩

theorem exists_firstOn {ts : List Worktree} {t : Worktree} (ht : t ∈ ts) (hon : t.On branch) :
    ∃ t', firstOn ts branch = some t' :=
  Option.isSome_iff_exists.mp (List.find?_isSome.mpr ⟨t, ht, by simpa using hon⟩)

theorem worktreeOf_attributes {path : String} {attributes : List String}
    (hlabels : ∀ a ∈ attributes, "worktree ".toList.isPrefixOf a.toList = false)
    (hreads : ∀ a ∈ attributes, ("branch ".toList.isPrefixOf a.toList = true ∧
        (strip (String.ofList (a.toList.drop 7)) = branch ∨
          strip (String.ofList (a.toList.drop 7)) = "refs/heads/" ++ branch)) ↔
      a = "branch refs/heads/" ++ branch) (rest : List (List Char)) :
    Host.worktreeOf branch (some path) (attributes.map String.toList ++ rest) =
      if "branch refs/heads/" ++ branch ∈ attributes then some path
      else Host.worktreeOf branch (some path) rest := by
  induction attributes with
  | nil => rfl
  | cons a attributes ih =>
    rw [List.forall_mem_cons] at hlabels hreads
    rw [List.map_cons, List.cons_append, Host.worktreeOf, if_neg (by rw [hlabels.1]; decide)]
    dsimp only
    by_cases ha : a = "branch refs/heads/" ++ branch
    · obtain ⟨hbranch, href⟩ := hreads.1.mpr ha
      rw [if_pos ⟨hbranch, rfl, href⟩, if_pos (List.mem_cons.mpr (.inl ha.symm))]
    · rw [if_neg fun h => ha (hreads.1.mp ⟨h.1, h.2.2⟩), ih hlabels.2 hreads.2]
      exact if_congr (by rw [List.mem_cons, or_iff_right (Ne.symm ha)]) rfl rfl

/-- **The listing is read as it is written**: the path that is found is that of the first worktree
on the branch. -/
theorem worktreeOf_flatMap (hshort : "refs/".toList.isPrefixOf branch.toList = false)
    {ts : List Worktree}
    (hlabels : ∀ t ∈ ts, ∀ a ∈ t.attributes, "worktree ".toList.isPrefixOf a.toList = false)
    (hfull : ∀ t ∈ ts, ∀ a ∈ t.attributes, "branch ".toList.isPrefixOf a.toList = true →
      "branch refs/".toList.isPrefixOf a.toList = true) (hplain : ∀ t ∈ ts, t.plain = true)
    (current : Option String) :
    Host.worktreeOf branch current (ts.flatMap Worktree.lines) =
      (firstOn ts branch).map Worktree.path := by
  induction ts generalizing current with
  | nil => cases current <;> rfl
  | cons t ts ih =>
    rw [List.forall_mem_cons] at hlabels hfull hplain
    obtain ⟨hpath, -, hends⟩ := Worktree.plain_iff.mp hplain.1
    have hhead : "worktree ".toList.isPrefixOf ("worktree " ++ t.path).toList = true := by
      rw [String.toList_append]
      rfl
    have hread :
        normpath (strip (String.ofList (("worktree " ++ t.path).toList.drop 9))) = t.path := by
      rw [String.toList_append]
      change normpath (strip (String.ofList t.path.toList)) = t.path
      rw [String.ofList_toList, hpath]
    rw [List.flatMap_cons, Worktree.lines, List.cons_append, Host.worktreeOf, if_pos hhead, hread,
      List.append_assoc, worktreeOf_attributes hlabels.1 fun a ha =>
        reads_branch_iff hshort (hfull.1 a ha) (hends a ha)]
    by_cases hon : "branch refs/heads/" ++ branch ∈ t.attributes
    · rw [if_pos hon, firstOn, List.find?_cons_of_pos
        (p := fun t : Worktree => decide (t.On branch)) (decide_eq_true hon)]
      rfl
    · rw [if_neg hon, firstOn, List.find?_cons_of_neg
        (p := fun t : Worktree => decide (t.On branch)) fun h => hon (of_decide_eq_true h)]
      exact ih hlabels.2 hfull.2 hplain.2 (some t.path)

/-! ## 5.  What is left as it is -/

section Kept

variable {path b : String}

section

variable (hman : WorktreeManual host reg repo)

include hman

theorem WorktreeManual.keeps_subprocess {argv : List String}
    (hmild : Mild argv) {cwd : String} :
    (host.subprocess argv cwd).Keeps (HeldBy host reg · path b) fun _ => True :=
  fun w h => ⟨fun _ _ => trivial, hman.mild argv cwd w path b hmild h⟩

theorem WorktreeManual.keeps_live (cand : String) :
    (host.live cand).Keeps (HeldBy host reg · path b) fun _ => True := by
  refine Script.Keeps.bind (fun w h => ⟨Script.emits_look, h⟩) fun isDir => ?_
  refine Script.keeps_ite ?_ Script.keeps_pure
  exact Script.Keeps.bind (hman.keeps_subprocess .inside) fun _ => Script.keeps_pure

theorem WorktreeManual.keeps_find (branch : String) :
    (host.findLiveWorktreeForBranch repo branch).Keeps (HeldBy host reg · path b) fun _ => True :=
  Script.Keeps.bind (hman.keeps_subprocess .list) fun _ =>
    Script.keeps_ite Script.keeps_pure Script.keeps_pure

theorem WorktreeManual.keeps_rmtree (cand : String)
    (more : ℕ) :
    (host.rmtreeWithRetry cand more).Keeps (HeldBeside host reg cand path b) fun _ => True := by
  have honce : (host.rmtreeOnce cand).Keeps (HeldBeside host reg cand path b) fun _ => True :=
    fun w h => ⟨fun _ _ => trivial, hman.removes cand w path b h⟩
  induction more with
  | zero => exact honce
  | succ more ih =>
    rw [Host.rmtreeWithRetry]
    refine Script.Keeps.bind (fun w h => honce w h) fun done => ?_
    cases done with
    | ok u => exact Script.keeps_pure
    | error e => exact ih

theorem WorktreeManual.keeps_clear (cand : String) :
    (host.clearWorktreeDir repo cand).Keeps (HeldBeside host reg cand path b) fun _ => True := by
  refine Script.Keeps.bind (fun w h => ?_) fun _ => Script.Keeps.bind (fun w h => ?_) fun _ => ?_
  · exact ⟨fun _ _ => trivial, hman.clears _ cand w path b (.inl rfl) h⟩
  · exact ⟨fun _ _ => trivial, hman.clears _ cand w path b (.inr rfl) h⟩
  · refine Script.Keeps.bind (fun w h => ⟨Script.emits_look, h⟩) fun there => ?_
    exact Script.keeps_ite (hman.keeps_rmtree cand 2) Script.keeps_pure

theorem held_clearStale {cand : String} {w : W}
    (hclear : host.pathExists w cand = false ∨ nothingWithin host reg w cand = true)
    (h : HeldBy host reg w path b) :
    HeldBy host reg (host.clearStale repo cand w).world path b := by
  cases hthere : host.pathExists w cand with
  | false =>
    rw [Host.clearStale,
      Script.bind_of_ok (a := false) (by rw [Host.pathexists, Script.look_run, hthere])]
    exact h
  | true =>
    have hnothing := hclear.resolve_left (by rw [hthere]; exact Bool.noConfusion)
    obtain ⟨⟨t, ht, hpath, hon⟩, hdir, hgit⟩ := h
    have hapart : reg.within w cand path = false := by
      have hall := List.all_eq_true.mp hnothing t ht
      rw [hpath, hdir, Bool.true_and, Bool.not_eq_true'] at hall
      exact hall
    have hafter := (hman.keeps_clear cand w ⟨⟨⟨t, ht, hpath, hon⟩, hdir, hgit⟩, hapart⟩).2.1
    rw [Host.clearStale,
      Script.bind_of_ok (a := true) (by rw [Host.pathexists, Script.look_run, hthere])]
    have hheld : ∀ f : Except Failure Unit → Shell W (Option Failure), (∀ r w, (f r w).world = w) →
        HeldBy host reg (((host.clearWorktreeDir repo cand).attempt >>= f) w).world path b := by
      intro f hf
      rw [Script.bind_of_ok (a := (host.clearWorktreeDir repo cand w).result) rfl, hf]
      exact hafter
    rw [if_pos rfl]
    dsimp only
    refine hheld _ fun r w => ?_
    cases r <;> rfl

end

end Kept

/-! ## 6.  A call -/

variable {w : W}

theorem GivenOn.bind {α : Type} {p : Shell W α} {f : α → Shell W String}
    (hkept : ∀ path b, HeldBy host reg w path b → HeldBy host reg (p w).world path b)
    (hrest : ∀ a, (p w).result = .ok a → GivenOn host reg branch (p w).world (f a (p w).world)) :
    GivenOn host reg branch w ((p >>= f) w) := by
  cases hp : (p w).result with
  | ok a =>
    rw [Script.bind_of_ok hp]
    obtain ⟨hleft, hgiven⟩ := hrest a hp
    exact ⟨fun path b h => hleft path b (hkept path b h), hgiven⟩
  | error e =>
    rw [Script.bind_of_error hp]
    exact ⟨hkept, nofun⟩

theorem givenOn_throw {e : Failure} :
    GivenOn host reg branch w ((Script.throw e : Shell W String) w) :=
  ⟨fun _ _ h => h, nofun⟩

section

variable (hman : WorktreeManual host reg repo)

include hman

theorem givenOn_addForBranch {fromRef cand : String}
    (hlands : lands host reg repo branch cand w = true) :
    GivenOn host reg branch w (host.addForBranch repo branch fromRef cand w) := by
  constructor
  · intro path b h
    refine ((Script.Keeps.bind (hman.keeps_subprocess (.verify branch)) fun probe => ?_) w h).2
    refine Script.Keeps.bind (hman.keeps_subprocess ?_) fun wt =>
      Script.keeps_ite Script.keeps_throw Script.keeps_pure
    split
    · exact .checkout cand branch
    · exact .create branch cand fromRef
  · intro path h
    obtain ⟨probe, hprobe, h, hworld, -⟩ := Script.exists_of_bind_ok h
    rw [Host.addForBranch, hworld]
    rw [lands, result_subprocess hprobe] at hlands
    dsimp only at hlands
    rw [Bool.and_eq_true, decide_eq_true_eq, Bool.or_eq_true, decide_eq_true_eq] at hlands
    obtain ⟨hrecords, hbranch⟩ := hlands
    by_cases hfound : probe.returncode = 0
    · rw [if_pos hfound] at h ⊢
      obtain ⟨wt, hwt, h, hworld, -⟩ := Script.exists_of_bind_ok h
      rw [hworld]
      by_cases hdone : wt.returncode = 0
      · rw [if_neg (not_not.mpr hdone)] at h ⊢
        cases h
        exact hman.checkedOut cand branch _ wt (result_subprocess hwt) hdone
          (hbranch.resolve_left (not_not.mpr hfound)) hrecords
      · rw [if_pos hdone] at h
        cases h
    · rw [if_neg hfound] at h ⊢
      obtain ⟨wt, hwt, h, hworld, -⟩ := Script.exists_of_bind_ok h
      rw [hworld]
      by_cases hdone : wt.returncode = 0
      · rw [if_neg (not_not.mpr hdone)] at h ⊢
        cases h
        exact hman.created cand branch fromRef _ wt (result_subprocess hwt) hdone hrecords
      · rw [if_pos hdone] at h
        cases h

/-- **The loop over the candidates**, where it is not misled: by induction on those that are left,
each of which is passed over or made afresh. -/
theorem givenOn_forCandidates {fromRef : String}
    (exhausted : Option Failure → Failure) {cands : List String} {lastErr : Option Failure}
    (hmeets : loopMeets host reg repo branch cands w = true) :
    GivenOn host reg branch w (host.forCandidates repo pure (host.addForBranch repo branch fromRef)
      (fun lastErr => Script.throw (exhausted lastErr)) lastErr cands w) := by
  induction cands generalizing lastErr w with
  | nil => exact givenOn_throw
  | cons cand rest ih =>
    rw [Host.forCandidates]
    refine GivenOn.bind (fun path b h => (hman.keeps_live cand w h).2) fun live hlive => ?_
    rw [loopMeets] at hmeets
    rw [hlive] at hmeets
    cases live with
    | true => cases hmeets
    | false =>
      dsimp only at hmeets
      rw [Bool.and_eq_true, Bool.or_eq_true, Bool.not_eq_true'] at hmeets
      obtain ⟨hclear, hnext⟩ := hmeets
      refine GivenOn.bind (fun path b h => held_clearStale hman hclear h) fun stale hstale => ?_
      rw [hstale] at hnext
      cases stale with
      | some e => exact ih hnext
      | none => exact givenOn_addForBranch hman hnext

/-- **What is found for a branch** in a listing in plain lines. -/
theorem WorktreeManual.find_result {c : Wanted}
    (hplain : (reg.worktrees w).all Worktree.plain = true) {done : Completed}
    (hrun : (host.run listArgv repo w).1 = .ok done) (hdone : done.returncode = 0) :
    (host.findLiveWorktreeForBranch repo c.branch w).result =
      .ok ((firstOn (reg.worktrees w) c.branch).map Worktree.path) := by
  have hall := List.all_eq_true.mp hplain
  have hlines : ∀ line ∈ (reg.worktrees w).flatMap Worktree.lines, ∀ x ∈ line, x ∉ lineBreaks := by
    intro line hline
    obtain ⟨t, ht, hline⟩ := List.mem_flatMap.mp hline
    exact (Worktree.plain_iff.mp (hall t ht)).2.1 line hline
  have hresult : (host.subprocess listArgv repo w).result = .ok done := by
    change (host.run listArgv repo w).1.mapError Failure.osError = _
    rw [hrun]
    rfl
  rw [Host.findLiveWorktreeForBranch, Script.bind_of_ok hresult, if_neg (not_not.mpr hdone),
    hman.listed w done hrun hdone, splitlines_printed hlines]
  exact congrArg Except.ok
    (worktreeOf_flatMap c.short (hman.labels w) (hman.full w) (fun t ht => hall t ht) none)

theorem WorktreeManual.held_of_find {c : Wanted}
    {path : String} (hplain : (reg.worktrees w).all Worktree.plain = true)
    (hlive : ∀ t ∈ reg.worktrees w, host.isDir w t.path = true →
      host.pathExists w (t.path ++ "/.git") = true)
    (h : (host.findLiveWorktreeForBranch repo c.branch w).result = .ok (some path))
    (hdir : host.isDir (host.findLiveWorktreeForBranch repo c.branch w).world path = true) :
    HeldBy host reg (host.findLiveWorktreeForBranch repo c.branch w).world path c.branch := by
  obtain ⟨done, hlisted, hreturned, hworld, -⟩ := Script.exists_of_bind_ok h
  have hrun := result_subprocess hlisted
  have hdone : done.returncode = 0 := by
    by_contra hfailed
    rw [if_pos hfailed] at hreturned
    cases hreturned
  rw [hman.find_result hplain hrun hdone] at h
  obtain ⟨t, hfind, rfl⟩ := Option.map_eq_some_iff.mp (Except.ok.inj h)
  obtain ⟨ht, hon⟩ := of_firstOn hfind
  have hbefore : host.isDir w t.path = true := by
    rw [Host.findLiveWorktreeForBranch, hworld, if_neg (not_not.mpr hdone)] at hdir
    exact ((hman.listing w).2 t.path).symm.trans hdir
  exact (hman.keeps_find c.branch w ⟨⟨t, ht, rfl, hon⟩, hbefore, hlive t ht hbefore⟩).2

/-- **A call that is not misled** gives a worktree on its branch, and leaves all others. -/
theorem holds_ask {c : Wanted}
    (hmeets : meets host reg repo w c = true) :
    GivenOn host reg c.branch w (c.ask host repo w) := by
  refine GivenOn.bind (fun path b h => hman.mild _ repo w path b .prune h) fun pruned hpruned => ?_
  have hlive := hman.live w
  rw [meets, result_subprocess hpruned] at hmeets
  dsimp only at hmeets
  generalize hw : (host.subprocess ["git", "worktree", "prune"] repo w).world = w₁
  change (host.run pruneArgv repo w).2 = w₁ at hw
  rw [hw] at hlive hmeets
  rw [Bool.and_eq_true] at hmeets
  obtain ⟨hplain, hmeets⟩ := hmeets
  refine GivenOn.bind (fun path b h => (hman.keeps_find c.branch w₁ h).2) ?_
  intro existing hexisting
  rw [hexisting] at hmeets
  dsimp only at hmeets
  generalize hw₂ : (host.findLiveWorktreeForBranch repo c.branch w₁).world = w₂ at hmeets
  have hloop (hnone : existing.filter (host.isDir w₂ ·) = none) :
      GivenOn host reg c.branch w₂ (host.forCandidates repo pure
        (host.addForBranch repo c.branch c.fromRef)
        (fun lastErr => Script.throw (Host.noCandidate (normpath c.path) lastErr)) none
        (Host.candidates (normpath c.path)) w₂) := by
    rw [hnone] at hmeets
    exact givenOn_forCandidates hman (Host.noCandidate (normpath c.path)) hmeets
  cases existing with
  | none => exact hloop rfl
  | some path =>
    refine GivenOn.bind (fun _ _ h => h) fun isDir hisDir => ?_
    have hlook : isDir = host.isDir w₂ path := (Except.ok.inj hisDir).symm
    cases hdir : host.isDir w₂ path with
    | false =>
      rw [hlook, hdir]
      exact hloop (by simp [hdir])
    | true =>
      rw [hlook, hdir]
      refine ⟨fun _ _ h => h, fun given hgiven => ?_⟩
      cases hgiven
      have hheld := hman.held_of_find hplain hlive hexisting
      rw [hw₂] at hheld
      exact hheld hdir

/-- **A branch whose worktree is there** is given it again. -/
theorem ask_of_held {c : Wanted} {path : String}
    (hmeets : meets host reg repo w c = true) (h : HeldBy host reg w path c.branch) :
    (c.ask host repo w).result = .ok path := by
  have hne : reg.worktrees w ≠ [] := by
    obtain ⟨⟨t, ht, -⟩, -⟩ := h
    exact List.ne_nil_of_mem ht
  obtain ⟨pruned, hpruned⟩ := hman.starts w hne
  have hresult : (host.subprocess pruneArgv repo w).result = .ok pruned := by
    change (host.run pruneArgv repo w).1.mapError Failure.osError = _
    rw [hpruned]
    rfl
  have hprune := hman.mild _ repo w path c.branch .prune h
  rw [meets, hpruned] at hmeets
  dsimp only at hmeets
  rw [Wanted.ask, Host.ensureWorktree, Script.bind_of_ok hresult]
  dsimp only
  generalize hw : (host.subprocess ["git", "worktree", "prune"] repo w).world = w₁
  change (host.run pruneArgv repo w).2 = w₁ at hw
  rw [hw] at hprune hmeets
  rw [Bool.and_eq_true] at hmeets
  obtain ⟨t, ht, hpath, hon⟩ := hprune.1
  obtain ⟨done, hrun, hdone⟩ := hman.lists w₁ (List.ne_nil_of_mem ht)
  obtain ⟨t', hfirst⟩ := exists_firstOn ht hon
  obtain ⟨ht', hon'⟩ := of_firstOn hfirst
  have hpath' : t'.path = path := (hman.alone w₁ t' ht' t ht c.branch hon' hon).trans hpath
  have hfind := hman.find_result (c := c) hmeets.1 hrun hdone
  rw [hfirst, Option.map_some, hpath'] at hfind
  have hthere : host.isDir (host.findLiveWorktreeForBranch repo c.branch w₁).world path = true :=
    (hman.keeps_find c.branch w₁ hprune).2.2.1
  rw [Script.bind_of_ok hfind]
  dsimp only
  rw [Script.bind_of_ok (a := true) (by rw [Host.isdir, Script.look_run, hthere])]
  rfl

/-! ## 7.  Runs -/

/-- **In a run of calls that are not misled** each path that has been given is on its branch when it
is given, and is on it still: the first by `holds_ask`, the second since it leaves the others. -/
theorem held_of_run {init : W}
    {log : List (Transition W Wanted)} (run : Run init (called host repo) log w)
    (hmeets : ∀ x ∈ log, meets host reg repo x.before x.event = true) :
    ∀ x ∈ log, ∀ path, (x.event.ask host repo x.before).result = .ok path →
      HeldBy host reg x.after path x.event.branch ∧ HeldBy host reg w path x.event.branch := by
  induction run with
  | start => exact nofun
  | @step log w w' c run accepted ih =>
    cases Option.some.inj accepted
    obtain ⟨hnow, hearlier⟩ := List.forall_mem_cons.mp hmeets
    obtain ⟨hleft, hgiven⟩ := holds_ask hman hnow
    refine List.forall_mem_cons.mpr ⟨fun path h => ⟨hgiven path h, hgiven path h⟩, ?_⟩
    intro x hx path h
    obtain ⟨hafter, hstill⟩ := ih hearlier x hx path h
    exact ⟨hafter, hleft path _ hstill⟩

end

/-- **Convergence**: in a run of calls that are not misled, what a call gives is the root of a
worktree on its branch, and is so from then on; two calls give the same path exactly if they are for
the same branch; and a branch that has been given a path is given the same path again. -/
theorem ensure_converges (hman : WorktreeManual host reg repo) {init w : W}
    {log : List (Transition W Wanted)} (run : Run init (called host repo) log w)
    (hmeets : ∀ x ∈ log, meets host reg repo x.before x.event = true) :
    (∀ x ∈ log, ∀ path, (x.event.ask host repo x.before).result = .ok path →
      HeldBy host reg x.after path x.event.branch ∧ HeldBy host reg w path x.event.branch) ∧
    (∀ x ∈ log, ∀ y ∈ log, ∀ path path', (x.event.ask host repo x.before).result = .ok path →
      (y.event.ask host repo y.before).result = .ok path' →
        (path = path' ↔ x.event.branch = y.event.branch)) ∧
    ∀ x ∈ log, ∀ path, (x.event.ask host repo x.before).result = .ok path →
      ∀ again : Wanted, again.branch = x.event.branch → meets host reg repo w again = true →
        (again.ask host repo w).result = .ok path := by
  have hheld := held_of_run hman run hmeets
  refine ⟨hheld, fun x hx y hy path path' h h' => ?_, fun x hx path h again hagain hnow => ?_⟩
  · obtain ⟨-, ⟨t, ht, hpath, hon⟩, -⟩ := hheld x hx path h
    obtain ⟨-, ⟨t', ht', hpath', hon'⟩, -⟩ := hheld y hy path' h'
    constructor
    · intro hsame
      exact hman.once w t ht t' ht' (by rw [hpath, hpath', hsame]) _ _ hon hon'
    · intro hsame
      rw [← hsame] at hon'
      rw [← hpath, ← hpath']
      exact hman.alone w t ht t' ht' _ hon hon'
  · refine ask_of_held hman hnow ?_
    rw [hagain]
    exact (hheld x hx path h).2

/-! ## 8.  Two tasks, `t` and `t.1` -/

/-- What is at `/wt/r/t` and `/wt/r/t.1`: worktrees of the tasks, the first at `first`, both at
`both`; a directory at the first place that cannot be removed, and at `second` the worktree of `t`
at the second. -/
inductive Yard where
  | empty | first | both | stuck | second
  deriving DecidableEq

namespace Yard

/-- The worktrees, with their branches. -/
def sites : Yard → List (String × String)
  | empty | stuck => [("/repo", "main")]
  | first => [("/repo", "main"), ("/wt/r/t", "sdlc/r/t")]
  | both => [("/repo", "main"), ("/wt/r/t", "sdlc/r/t"), ("/wt/r/t.1", "sdlc/r/t.1")]
  | second => [("/repo", "main"), ("/wt/r/t.1", "sdlc/r/t")]

def dirs (y : Yard) : List String :=
  y.sites.map Prod.fst ++ if y = stuck ∨ y = second then ["/wt/r/t"] else []

/-- A worktree is added on a new branch. -/
def add : Yard → String → String → Option Yard
  | empty, "/wt/r/t", "sdlc/r/t" => some first
  | first, "/wt/r/t.1", "sdlc/r/t.1" => some both
  | stuck, "/wt/r/t.1", "sdlc/r/t" => some second
  | _, _, _ => none

def worktree (site : String × String) : Worktree :=
  ⟨site.1, ["HEAD c0", "branch refs/heads/" ++ site.2]⟩

def answer (returncode : ℤ) (y : Yard) : Except String Completed × Yard :=
  (.ok ⟨returncode, "", ""⟩, y)

def run (y : Yard) : List String → String → Except String Completed × Yard
  | ["git", "worktree", "prune"], _ => answer 0 y
  | ["git", "worktree", "list", "--porcelain"], _ =>
    (.ok ⟨0, printed ((y.sites.map worktree).flatMap Worktree.lines), ""⟩, y)
  | ["git", "-c", "safe.directory=*", "rev-parse", "--is-inside-work-tree"], cwd =>
    answer (if cwd ∈ y.sites.map Prod.fst then 0 else 128) y
  | ["git", "rev-parse", "--verify", "--quiet", branch], _ =>
    answer (if branch ∈ y.sites.map Prod.snd then 0 else 1) y
  | ["git", "worktree", "add", "-b", branch, cand, _], _ =>
    match y.add cand branch with
    | some y => answer 0 y
    | none => answer 128 y
  | _, _ => answer 128 y

def machine : Host Yard where
  isDir y path := decide (path ∈ y.dirs)
  pathExists y path :=
    decide (path ∈ y.dirs ∨ path ∈ y.sites.map fun site => site.1 ++ "/.git")
  run argv cwd y := y.run argv cwd
  rmtree _ y := (.error "PermissionError()", y)

def registered : Registered Yard where
  worktrees y := y.sites.map worktree
  isBranch y branch := decide (branch ∈ y.sites.map Prod.snd)
  records _ path := path
  within _ a path := decide (path = a)

theorem on_worktree {site : String × String} {b : String} :
    (worktree site).On b ↔ site.2 = b := by
  have hhead : "branch refs/heads/" ++ b ≠ "HEAD c0" := by
    intro h
    have hlist := congrArg String.toList h
    rw [String.toList_append] at hlist
    cases hlist
  change _ ∈ ["HEAD c0", "branch refs/heads/" ++ site.2] ↔ _
  rw [List.mem_cons, or_iff_right hhead, List.mem_singleton, String.append_right_inj, eq_comm]

theorem run_world (y : Yard) (argv : List String) (cwd : String) :
    (y.run argv cwd).2 = y ∨ ∃ branch cand fromRef y',
      argv = ["git", "worktree", "add", "-b", branch, cand, fromRef] ∧
        y.add cand branch = some y' ∧ y.run argv cwd = answer 0 y' := by
  unfold run
  split
  · exact .inl rfl
  · exact .inl rfl
  · exact .inl rfl
  · exact .inl rfl
  · rename_i branch cand fromRef
    cases hadd : y.add cand branch with
    | some y' => exact .inr ⟨branch, cand, fromRef, y', rfl, hadd, rfl⟩
    | none => exact .inl rfl
  · exact .inl rfl

theorem add_sites {y y' : Yard} {cand branch : String} (h : y.add cand branch = some y') :
    (cand, branch) ∈ y'.sites ∧ y.sites ⊆ y'.sites := by
  unfold add at h
  split at h
  · cases h
    decide
  · cases h
    decide
  · cases h
    decide
  · cases h

theorem heldBy_iff {y : Yard} {path b : String} :
    HeldBy machine registered y path b ↔ (path, b) ∈ y.sites := by
  constructor
  · rintro ⟨⟨t, ht, rfl, hon⟩, -⟩
    obtain ⟨site, hsite, rfl⟩ := List.mem_map.mp ht
    rw [← on_worktree.mp hon]
    exact hsite
  · intro h
    refine ⟨⟨worktree (path, b), List.mem_map_of_mem h, rfl, on_worktree.mpr rfl⟩, ?_, ?_⟩
    · exact decide_eq_true (List.mem_append_left _ (List.mem_map_of_mem (f := Prod.fst) h))
    · exact decide_eq_true (.inr (List.mem_map_of_mem (f := fun site => site.1 ++ "/.git") h))

theorem heldBy_run {y : Yard} {argv : List String} {cwd path b : String}
    (h : HeldBy machine registered y path b) :
    HeldBy machine registered (y.run argv cwd).2 path b := by
  rcases run_world y argv cwd with hsame | ⟨branch, cand, fromRef, y', -, hadd, hrun⟩
  · rw [hsame]
    exact h
  · rw [hrun]
    exact heldBy_iff.mpr ((add_sites hadd).2 (heldBy_iff.mp h))

/-- **The yard** behaves as is documented. -/
theorem manual : WorktreeManual machine registered "/repo" where
  labels y t ht a ha := by
    obtain ⟨site, -, rfl⟩ := List.mem_map.mp ht
    change a ∈ ["HEAD c0", "branch refs/heads/" ++ site.2] at ha
    simp only [List.mem_cons, List.not_mem_nil, or_false] at ha
    rcases ha with rfl | rfl
    · decide
    · rw [String.toList_append]
      rfl
  full y t ht a ha := by
    obtain ⟨site, -, rfl⟩ := List.mem_map.mp ht
    change a ∈ ["HEAD c0", "branch refs/heads/" ++ site.2] at ha
    simp only [List.mem_cons, List.not_mem_nil, or_false] at ha
    rcases ha with rfl | rfl
    · decide
    · rw [String.toList_append]
      exact fun _ => rfl
  once y t ht t' ht' hpath b b' hon hon' := by
    obtain ⟨site, hsite, rfl⟩ := List.mem_map.mp ht
    obtain ⟨site', hsite', rfl⟩ := List.mem_map.mp ht'
    have hsites : ∀ s ∈ y.sites, ∀ s' ∈ y.sites, s.1 = s'.1 → s.2 = s'.2 := by
      cases y <;> decide
    rw [← on_worktree.mp hon, ← on_worktree.mp hon']
    exact hsites site hsite site' hsite' hpath
  alone y t ht t' ht' b hon hon' := by
    obtain ⟨site, hsite, rfl⟩ := List.mem_map.mp ht
    obtain ⟨site', hsite', rfl⟩ := List.mem_map.mp ht'
    have hsites : ∀ s ∈ y.sites, ∀ s' ∈ y.sites, s.2 = s'.2 → s.1 = s'.1 := by
      cases y <;> decide
    exact hsites site hsite site' hsite' ((on_worktree.mp hon).trans (on_worktree.mp hon').symm)
  starts _ _ := ⟨_, rfl⟩
  lists _ _ := ⟨_, rfl, rfl⟩
  listed y done h _ := by
    cases h
    rfl
  listing _ := ⟨rfl, fun _ => rfl⟩
  live y t ht _ := by
    obtain ⟨site, hsite, rfl⟩ := List.mem_map.mp ht
    exact (heldBy_iff.mpr hsite).2.2
  mild _ _ _ _ _ _ h := heldBy_run h
  clears _ _ _ _ _ _ h := ⟨heldBy_run h.1, h.2⟩
  removes _ _ _ _ h := h
  checkedOut cand b y done h hdone := by
    have hrun : machine.run ["git", "worktree", "add", cand, b] "/repo" y = answer 128 y := by
      by_cases hcand : cand = "-b"
      · subst hcand
        rfl
      · simp [machine, run]
    rw [hrun] at h
    cases h
    cases hdone
  created cand b fromRef y done h hdone _ := by
    have hrun : machine.run ["git", "worktree", "add", "-b", b, cand, fromRef] "/repo" y =
        match y.add cand b with
        | some y => answer 0 y
        | none => answer 128 y := rfl
    rw [hrun] at h ⊢
    cases hadd : y.add cand b with
    | some y' => exact heldBy_iff.mpr (add_sites hadd).1
    | none =>
      rw [hadd] at h
      cases h
      cases hdone

/-- A worktree for a task of the run `r`. -/
def task (taskId : String) : Wanted := .ofTask "/wt" "r" taskId "HEAD"

def madeBoth : List (Transition Yard Wanted) :=
  [⟨both, task "t", both⟩, ⟨first, task "t.1", both⟩, ⟨empty, task "t", first⟩]

/-- The worktree of `t` is made at the second place, and then that of `t.1` is asked for. -/
def fellBack : List (Transition Yard Wanted) :=
  [⟨second, task "t.1", second⟩, ⟨stuck, task "t", second⟩]

/-- What a call for a task gives, and what it leaves. -/
def outcome (y : Yard) (taskId : String) : Except Failure String × Yard :=
  (((task taskId).ask machine "/repo" y).result, ((task taskId).ask machine "/repo" y).world)

/-- The calls of the two runs, each evaluated for itself; those of the first are not misled. -/
theorem outcomes : outcome empty "t" = (.ok "/wt/r/t", first) ∧
    outcome first "t.1" = (.ok "/wt/r/t.1", both) ∧ outcome both "t" = (.ok "/wt/r/t", both) ∧
    outcome stuck "t" = (.ok "/wt/r/t.1", second) ∧
    outcome second "t.1" = (.ok "/wt/r/t.1", second) ∧
    meets machine registered "/repo" empty (task "t") = true ∧
    meets machine registered "/repo" first (task "t.1") = true ∧
    meets machine registered "/repo" both (task "t") = true := by
  refine ⟨?_, ?_, ?_, ?_, ?_, ?_, ?_, ?_⟩
  · decide +kernel
  · decide +kernel
  · decide +kernel
  · decide +kernel
  · decide +kernel
  · decide +kernel
  · decide +kernel
  · decide +kernel

theorem meets_madeBoth :
    ∀ x ∈ madeBoth, meets machine registered "/repo" x.before x.event = true := by
  obtain ⟨-, -, -, -, -, hempty, hfirst, hboth⟩ := outcomes
  exact List.forall_mem_cons.mpr ⟨hboth, List.forall_mem_cons.mpr ⟨hfirst,
    List.forall_mem_cons.mpr ⟨hempty, List.forall_mem_nil _⟩⟩⟩

section Outcome

variable {y y' : Yard} {taskId : String} {result : Except Failure String}

theorem called_of_outcome (h : outcome y taskId = (result, y')) :
    called machine "/repo" y (task taskId) = some y' := by
  rw [outcome, Prod.mk.injEq] at h
  rw [called, h.2]

theorem result_of_outcome (h : outcome y taskId = (result, y')) :
    ((task taskId).ask machine "/repo" y).result = result := by
  rw [outcome, Prod.mk.injEq] at h
  exact h.1

end Outcome

theorem run_madeBoth : Run empty (called machine "/repo") madeBoth both :=
  ((Run.start.step (called_of_outcome outcomes.1)).step
    (called_of_outcome outcomes.2.1)).step (called_of_outcome outcomes.2.2.1)

theorem run_fellBack : Run stuck (called machine "/repo") fellBack second :=
  (Run.start.step (called_of_outcome outcomes.2.2.2.1)).step (called_of_outcome outcomes.2.2.2.2.1)

/-- What the calls of a run have given. -/
def given (log : List (Transition Yard Wanted)) : List (Except Failure String) :=
  log.map fun x => (x.event.ask machine "/repo" x.before).result

theorem given_madeBoth : given madeBoth = [.ok "/wt/r/t", .ok "/wt/r/t.1", .ok "/wt/r/t"] := by
  simp only [given, madeBoth, List.map_cons, List.map_nil]
  rw [result_of_outcome outcomes.1, result_of_outcome outcomes.2.1,
    result_of_outcome outcomes.2.2.1]

theorem given_fellBack : given fellBack = [.ok "/wt/r/t.1", .ok "/wt/r/t.1"] := by
  simp only [given, fellBack, List.map_cons, List.map_nil]
  rw [result_of_outcome outcomes.2.2.2.1, result_of_outcome outcomes.2.2.2.2.1]

end Yard

/-- Two tasks have their own paths, and the first is given its own again. -/
theorem ensure_converges_sample :
    Yard.given Yard.madeBoth = [.ok "/wt/r/t", .ok "/wt/r/t.1", .ok "/wt/r/t"] ∧
      (∀ x ∈ Yard.madeBoth, ∀ path,
        (x.event.ask Yard.machine "/repo" x.before).result = .ok path →
          HeldBy Yard.machine Yard.registered .both path x.event.branch) ∧
      ((Yard.task "t").ask Yard.machine "/repo" .both).result = .ok "/wt/r/t" := by
  obtain ⟨hheld, -, hagain⟩ := ensure_converges Yard.manual Yard.run_madeBoth Yard.meets_madeBoth
  refine ⟨Yard.given_madeBoth, fun x hx path h => (hheld x hx path h).2, ?_⟩
  -- The third call was for the first task, and found what the last state has.
  have hthird : ((Yard.task "t").ask Yard.machine "/repo" .both).result = .ok "/wt/r/t" :=
    Yard.result_of_outcome Yard.outcomes.2.2.1
  have hmem : (⟨.both, Yard.task "t", .both⟩ : Transition Yard Wanted) ∈ Yard.madeBoth :=
    List.mem_cons_self
  have hnow := Yard.meets_madeBoth _ hmem
  dsimp only at hnow
  exact hagain _ hmem "/wt/r/t" hthird (Yard.task "t") rfl hnow

/-- **A path that is given for two branches**: the first place of `t` cannot be cleared, so that its
worktree is at the second, which is the first place of `t.1`. -/
theorem fallback_shared :
    WorktreeManual Yard.machine Yard.registered "/repo" ∧
      Run .stuck (called Yard.machine "/repo") Yard.fellBack .second ∧
      Yard.given Yard.fellBack = [.ok "/wt/r/t.1", .ok "/wt/r/t.1"] ∧
      (Yard.fellBack.map fun x => x.event.branch) = ["sdlc/r/t.1", "sdlc/r/t"] ∧
      ¬HeldBy Yard.machine Yard.registered .second "/wt/r/t.1" "sdlc/r/t.1" := by
  refine ⟨Yard.manual, Yard.run_fellBack, Yard.given_fellBack, by decide +kernel, fun h => ?_⟩
  exact absurd (Yard.heldBy_iff.mp h) (by decide)

end Kroker.Vcs
