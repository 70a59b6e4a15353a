import Kroker.Git.Drift
import Mathlib.Algebra.Order.BigOperators.Group.List

/-!
# What the test-drift backstop sees

What git knows of a repository is not in the code: `Manual` lists what is documented of the commands
that the backstop runs, over what there is to see of a repository (`Tracked`).  Its listings print
one line for each path or rename, with the unusual characters of a path quoted.

A report is exact if it is only made when every command has succeeded, and lists then each differing
path and each hidden one, and no others (`Exact`).  The code reads one path from a line, as it is
printed, and looks at the return codes of two of its commands only.
-/

namespace Kroker.Vcs

variable {W : Type}

/-! ## 1.  What is seen, and what git prints of it -/

/-- A line of `git diff --name-status`. -/
structure Entry where
  status : List Char
  name : String
  /-- The new name of a renamed file. -/
  renamed : Option String := none

def Entry.names (e : Entry) : List String := e.name :: e.renamed.toList

/-- What there is to see of the repository of a worktree. -/
structure Tracked (W : Type) where
  /-- The file of this name, of those that git tracks, differs from the one in the anchor. -/
  differs : W → String → String → Prop
  skips : W → String → Prop
  assumes : W → String → Prop
  /-- A pathspec is for a path. -/
  selects : List String → String → Prop
  /-- What `git ls-files -v` lists: tags and paths. -/
  listing : W → List String → List (Char × String)
  /-- What `git diff --name-status` lists. -/
  entries : W → String → List String → List Entry
  /-- A path as git prints it. -/
  quote : String → String

namespace Tracked

variable (repo : Tracked W)

/-- An index bit hides the path. -/
def Hidden (w : W) (path : String) : Prop := repo.skips w path ∨ repo.assumes w path

/-- What stands after the first tab of a line. -/
def shown (e : Entry) : List Char :=
  (repo.quote e.name).toList ++ (match e.renamed with
    | none => []
    | some new => '\t' :: (repo.quote new).toList)

def line (e : Entry) : List Char := e.status ++ '\t' :: repo.shown e

def tagged (entry : Char × String) : List Char := entry.1 :: ' ' :: (repo.quote entry.2).toList

end Tracked

/-- **What is documented** of git, where it is run in this worktree. -/
structure Manual (host : Host W) (repo : Tracked W) (worktree : String) : Prop where
  /-- Breaks and tabs in a path are escaped, and so is what is not ASCII. -/
  quote_safe : ∀ path, ∀ c ∈ (repo.quote path).toList, c ∉ lineBreaks ∧ c ≠ '\t'
  /-- A path is printed as it is, or longer and in quotes. -/
  quote_cases : ∀ path, repo.quote path = path ∨ ∃ body,
    (repo.quote path).toList = '"' :: body ++ ['"'] ∧ path.toList.length ≤ body.length
  /-- A path with a quote in it is quoted. -/
  quote_quote : ∀ path, '"' ∈ path.toList → repo.quote path ≠ path
  listed : ∀ globs w done, (host.run (Host.gitArgv (lsFilesArgs globs)) worktree w).1 = .ok done →
    done.returncode = 0 → done.stdout = printed ((repo.listing w globs).map repo.tagged)
  listing_tag : ∀ w globs, ∀ entry ∈ repo.listing w globs, entry.1 ∉ lineBreaks ∧ entry.2 ≠ ""
  listing_hides : ∀ w globs path, (∃ tag, (tag, path) ∈ repo.listing w globs ∧ hides tag = true) ↔
    repo.Hidden w path ∧ repo.selects globs path
  diffed : ∀ anchor globs w done,
    (host.run (Host.gitArgv (statusArgs anchor globs)) worktree w).1 = .ok done →
      done.returncode = 0 → done.stdout = printed ((repo.entries w anchor globs).map repo.line)
  entries_status : ∀ w anchor globs, ∀ e ∈ repo.entries w anchor globs,
    (∀ c ∈ e.status, c ∉ lineBreaks ∧ c ≠ '\t') ∧ ∀ name ∈ e.names, name ≠ ""
  /-- A path that differs is listed, under either name, unless an index bit hides it. -/
  entries_names : ∀ w anchor globs path, (∃ e ∈ repo.entries w anchor globs, path ∈ e.names) ↔
    repo.differs w anchor path ∧ repo.selects globs path ∧ ¬repo.Hidden w path
  /-- Looking changes nothing. -/
  looked : ∀ args w, args.head? ∈ [some "rev-parse", some "ls-files"] →
    let w' := (host.run (Host.gitArgv args) worktree w).2
    repo.differs w' = repo.differs w ∧ repo.skips w' = repo.skips w ∧
      repo.assumes w' = repo.assumes w
  /-- Clearing a bit changes no file and sets no bit. -/
  updated : ∀ flag ∈ ["--no-skip-worktree", "--no-assume-unchanged"], ∀ path w,
    let w' := (host.run (Host.gitArgv ["update-index", flag, path]) worktree w).2
    repo.differs w' = repo.differs w ∧ (∀ p, repo.skips w' p → repo.skips w p) ∧
      ∀ p, repo.assumes w' p → repo.assumes w p
  unskipped : ∀ path w done,
    (host.run (Host.gitArgv ["update-index", "--no-skip-worktree", path]) worktree w).1 = .ok done →
      done.returncode = 0 → ¬repo.skips
        (host.run (Host.gitArgv ["update-index", "--no-skip-worktree", path]) worktree w).2 path
  unassumed : ∀ path w done,
    (host.run (Host.gitArgv ["update-index", "--no-assume-unchanged", path]) worktree w).1 = .ok done →
      done.returncode = 0 → ¬repo.assumes
        (host.run (Host.gitArgv ["update-index", "--no-assume-unchanged", path]) worktree w).2 path

/-! ## 2.  What is to hold, and what it takes -/

def Call.Succeeded (call : Call W) : Prop := ∃ done, call.completed = some done ∧ done.returncode = 0

variable (host : Host W) (repo : Tracked W) (inp : DriftInput)

/-- **A report that is available is exact**: each command has succeeded, and the paths are those
that differ or are hidden. -/
def Exact (w : W) (o : Script.Outcome W (Call W) Failure DriftReport) : Prop :=
  ∀ r, o.result = .ok r → r.available = true →
    (∀ call ∈ o.trace, call.Succeeded) ∧
    (∀ p, p ∈ r.fencePaths ↔
      repo.differs w inp.anchor p ∧ matchesAny p inp.fenceGlobs = true) ∧
    (∀ p, p ∈ r.reportPaths ↔ repo.differs w inp.anchor p ∧
      matchesAny p inp.fenceGlobs = false ∧ matchesAny p inp.reportGlobs = true) ∧
    ∀ p, p ∈ r.indexBitPaths ↔ repo.Hidden w p ∧ matchesAny p inp.globs = true

/-- A run that comes to its report: what git has answered on the way, and the worlds between. -/
structure Measured (W : Type) where
  probe : Completed
  listed : Completed
  status : Completed
  patch : Option Completed
  probed : W
  listedAt : W
  cleared : W
  diffed : W

/-- **The run comes to its report**: the anchor resolves, and the status diff succeeds. -/
structure Measured.Of (m : Measured W) (w : W) : Prop where
  globs : inp.globs ≠ []
  probe : host.run (Host.gitArgv ["rev-parse", "--verify", inp.anchor ++ "^{commit}"]) inp.worktree w =
    (.ok m.probe, m.probed)
  resolved : m.probe.returncode = 0
  listed : host.run (Host.gitArgv (lsFilesArgs inp.globs)) inp.worktree m.probed =
    (.ok m.listed, m.listedAt)
  cleared : (clearBits host inp.worktree (hiddenIn m.listed) m.listedAt).result = .ok ()
  clearedAt : (clearBits host inp.worktree (hiddenIn m.listed) m.listedAt).world = m.cleared
  status : host.run (Host.gitArgv (statusArgs inp.anchor inp.globs)) inp.worktree m.cleared =
    (.ok m.status, m.diffed)
  diffed : m.status.returncode = 0
  patch : if changedIn m.status = [] then m.patch = none else
    ∃ done, m.patch = some done ∧
      (host.run (Host.gitArgv (patchArgs inp.anchor inp.globs)) inp.worktree m.diffed).1 = .ok done

/-- The other commands succeed: the listing, the clearing of each bit, and the diff that is
shown. -/
def Measured.Succeeds (m : Measured W) : Prop :=
  m.listed.returncode = 0 ∧
    (∀ call ∈ (clearBits host inp.worktree (hiddenIn m.listed) m.listedAt).trace, call.Succeeded) ∧
    ∀ done ∈ m.patch, done.returncode = 0

/-- A path is printed as it is, and nothing of it is stripped. -/
def Plain (path : String) : Prop := repo.quote path = path ∧ strip path = path

/-- The pathspecs are for the same paths as the globs, of those that differ or are hidden. -/
def Agrees (w : W) : Prop :=
  ∀ p, repo.differs w inp.anchor p ∨ repo.Hidden w p →
    (repo.selects inp.globs p ↔ matchesAny p inp.globs = true)

/-- **What a run has to find**: if it comes to its report, the other commands succeed, no line of
the diff is of a rename, and each path in it, and each hidden path, is printed as it is.  (Where a
pathspec is not read as the glob is: what stands in the lines are the differing and the hidden paths
that match a glob.) -/
def Faithful (w : W) : Prop :=
  ∀ m : Measured W, m.Of host inp w → m.Succeeds host inp ∧
    (Agrees repo inp w →
      (∀ e ∈ repo.entries m.cleared inp.anchor inp.globs, e.renamed = none ∧ Plain repo e.name) ∧
      ∀ entry ∈ repo.listing m.probed inp.globs, hides entry.1 = true → Plain repo entry.2) ∧
    (¬Agrees repo inp w →
      (∀ p, p ∈ changedIn m.status ↔
        repo.differs w inp.anchor p ∧ matchesAny p inp.globs = true) ∧
      ∀ p, p ∈ hiddenIn m.listed ↔ repo.Hidden w p ∧ matchesAny p inp.globs = true)

/-! ## 3.  Quoted texts -/

section Texts

variable {host : Host W} {repo : Tracked W} {worktree : String}

theorem forall_not_of_ascending {α : Type} {l : List α} {bad : α → Prop} (size : α → ℕ)
    (h : ∀ a ∈ l, bad a → ∃ b ∈ l, bad b ∧ size a < size b) : ∀ a ∈ l, ¬bad a := by
  intro a ha hbad
  have hlarge : ∀ n, ∃ b ∈ l, bad b ∧ n ≤ size b := by
    intro n
    induction n with
    | zero => exact ⟨a, ha, hbad, Nat.zero_le _⟩
    | succ n ih =>
      obtain ⟨b, hb, hbadb, hn⟩ := ih
      obtain ⟨c, hc, hbadc, hlt⟩ := h b hb hbadb
      exact ⟨c, hc, hbadc, Nat.succ_le_of_lt (Nat.lt_of_le_of_lt hn hlt)⟩
  have hbound : ∀ b ∈ l, size b ≤ (l.map size).sum :=
    fun b hb => List.single_le_sum (fun _ _ => Nat.zero_le _) _ (List.mem_map_of_mem hb)
  obtain ⟨b, hb, -, hn⟩ := hlarge ((l.map size).sum + 1)
  exact absurd (hbound b hb) (Nat.not_le_of_lt hn)

theorem Manual.quoted (hdoc : Manual host repo worktree) {path : String}
    (h : repo.quote path ≠ path) :
    '"' ∈ (repo.quote path).toList ∧ path.toList.length < (repo.quote path).toList.length ∧
      strip (repo.quote path) = repo.quote path := by
  rcases hdoc.quote_cases path with hsame | ⟨body, hbody, hlength⟩
  · exact absurd hsame h
  · refine ⟨by rw [hbody]; simp, ?_, strip_eq_self ?_ ?_⟩
    · rw [hbody]
      simp only [List.cons_append, List.length_cons, List.length_append, List.length_nil]
      omega
    · intro c hc
      rw [hbody] at hc
      cases hc
      decide
    · intro c hc
      rw [hbody, List.cons_append, ← List.cons_append, List.getLast?_append] at hc
      cases hc
      decide

theorem Manual.strip_quote (hdoc : Manual host repo worktree) {path : String}
    (h : strip path = path) : strip (repo.quote path) = repo.quote path := by
  by_cases hquote : repo.quote path = path
  · rw [hquote, h]
  · exact (hdoc.quoted hquote).2.2

theorem Manual.length_le (hdoc : Manual host repo worktree) (path : String) :
    path.toList.length ≤ (repo.quote path).toList.length := by
  by_cases hquote : repo.quote path = path
  · rw [hquote]
  · exact (hdoc.quoted hquote).2.1.le

/-- **If what is printed of paths are these paths**, each is printed as it is: of those that are
quoted, one would be the longest. -/
theorem Manual.plain_of_quoted (hdoc : Manual host repo worktree) {paths : List String}
    (h : ∀ p, (∃ path ∈ paths, strip (repo.quote path) = p) ↔ p ∈ paths) :
    ∀ path ∈ paths, Plain repo path := by
  have hquote : ∀ path ∈ paths, ¬repo.quote path ≠ path := by
    refine forall_not_of_ascending (fun path => path.toList.length) fun path hpath hbad => ?_
    obtain ⟨hmark, hlonger, hstrip⟩ := hdoc.quoted hbad
    refine ⟨repo.quote path, (h _).mp ⟨path, hpath, hstrip⟩, hdoc.quote_quote _ hmark, hlonger⟩
  intro path hpath
  refine ⟨not_not.mp (hquote path hpath), ?_⟩
  obtain ⟨other, -, rfl⟩ := (h path).mpr hpath
  exact strip_strip _

end Texts

/-! ## 4.  What the code reads of a listing -/

section Readings

variable {host : Host W} {repo : Tracked W} {worktree : String} {w : W} {done : Completed}

/-- **A line of the diff** is read from its first tab on. -/
theorem Manual.changedIn_eq (hdoc : Manual host repo worktree) {anchor : String}
    {globs : List String}
    (hrun : (host.run (Host.gitArgv (statusArgs anchor globs)) worktree w).1 = .ok done)
    (hdone : done.returncode = 0) :
    changedIn done =
      (repo.entries w anchor globs).map fun e => strip (String.ofList (repo.shown e)) := by
  have hshown : ∀ e, ∀ c ∈ repo.shown e, c ∉ lineBreaks := by
    intro e c hc
    rcases List.mem_append.mp hc with hc | hc
    · exact (hdoc.quote_safe _ c hc).1
    · cases hrenamed : e.renamed with
      | none =>
        rw [hrenamed] at hc
        cases hc
      | some new =>
        rw [hrenamed] at hc
        rcases List.mem_cons.mp hc with rfl | hc
        · decide
        · exact (hdoc.quote_safe _ c hc).1
  have hlines : ∀ line ∈ (repo.entries w anchor globs).map repo.line, ∀ c ∈ line,
      c ∉ lineBreaks := by
    intro line hline c hc
    obtain ⟨e, he, rfl⟩ := List.mem_map.mp hline
    rcases List.mem_append.mp hc with hc | hc
    · exact ((hdoc.entries_status w anchor globs e he).1 c hc).1
    · rcases List.mem_cons.mp hc with rfl | hc
      · decide
      · exact hshown e c hc
  rw [changedIn, hdoc.diffed anchor globs w done hrun hdone, splitlines_printed hlines,
    List.filterMap_map, ← List.filterMap_eq_map]
  refine List.filterMap_congr fun e he => ?_
  have htab : '\t' ∈ repo.line e := List.mem_append_right _ List.mem_cons_self
  have hstatus : ∀ c ∈ e.status, decide (c ≠ '\t') = true :=
    fun c hc => decide_eq_true ((hdoc.entries_status w anchor globs e he).1 c hc).2
  rw [Function.comp_apply, changedPath, if_pos htab, Tracked.line,
    List.dropWhile_append_of_pos hstatus, List.dropWhile_cons_of_neg (by decide)]
  rfl

/-- **A tagged line** is read if its tag says that a bit is set. -/
theorem Manual.mem_hiddenIn (hdoc : Manual host repo worktree) {globs : List String}
    (hrun : (host.run (Host.gitArgv (lsFilesArgs globs)) worktree w).1 = .ok done)
    (hdone : done.returncode = 0) {p : String} :
    p ∈ hiddenIn done ↔
      ∃ path, (∃ tag, (tag, path) ∈ repo.listing w globs ∧ hides tag = true) ∧
        strip (repo.quote path) = p := by
  have hlines : ∀ line ∈ (repo.listing w globs).map repo.tagged, ∀ c ∈ line, c ∉ lineBreaks := by
    intro line hline c hc
    obtain ⟨entry, hentry, rfl⟩ := List.mem_map.mp hline
    rcases List.mem_cons.mp hc with rfl | hc
    · exact (hdoc.listing_tag w globs entry hentry).1
    · rcases List.mem_cons.mp hc with rfl | hc
      · decide
      · exact (hdoc.quote_safe _ c hc).1
  have hread : ∀ entry ∈ repo.listing w globs, hiddenPath (repo.tagged entry) =
      if hides entry.1 then some (strip (repo.quote entry.2)) else none := by
    intro entry hentry
    have hne : (repo.quote entry.2).toList ≠ [] := by
      intro hnil
      have hle := hdoc.length_le entry.2
      rw [hnil, List.length_nil, Nat.le_zero, List.length_eq_zero_iff] at hle
      exact (hdoc.listing_tag w globs entry hentry).2 (String.toList_eq_nil_iff.mp hle)
    obtain ⟨c, rest, hquote⟩ := List.exists_cons_of_ne_nil hne
    rw [Tracked.tagged, hquote, hiddenPath, ← hquote, String.ofList_toList]
  rw [hiddenIn, if_neg (not_not.mpr hdone), List.mem_insertionSort,
    hdoc.listed globs w done hrun hdone, splitlines_printed hlines, List.mem_filterMap]
  constructor
  · rintro ⟨line, hline, hp⟩
    obtain ⟨⟨tag, path⟩, hentry, rfl⟩ := List.mem_map.mp hline
    rw [hread _ hentry] at hp
    obtain ⟨htag, hp⟩ := Option.ite_none_right_eq_some.mp hp
    exact ⟨path, ⟨tag, hentry, htag⟩, Option.some.inj hp⟩
  · rintro ⟨path, ⟨tag, hentry, htag⟩, rfl⟩
    exact ⟨_, List.mem_map_of_mem hentry, by rw [hread _ hentry, if_pos htag]⟩

end Readings

/-! ## 5.  A run that comes to its report -/

section Runs

variable {host : Host W} {repo : Tracked W} {inp : DriftInput} {w : W}

/-- The calls of a run that comes to its report. -/
def Measured.trace (m : Measured W) (host : Host W) (inp : DriftInput) (w : W) : List (Call W) :=
  ⟨Host.gitArgv ["rev-parse", "--verify", inp.anchor ++ "^{commit}"], inp.worktree, w, some m.probe⟩ ::
    ⟨Host.gitArgv (lsFilesArgs inp.globs), inp.worktree, m.probed, some m.listed⟩ ::
    (clearBits host inp.worktree (hiddenIn m.listed) m.listedAt).trace ++
    ⟨Host.gitArgv (statusArgs inp.anchor inp.globs), inp.worktree, m.cleared, some m.status⟩ ::
    m.patch.toList.map fun done =>
      ⟨Host.gitArgv (patchArgs inp.anchor inp.globs), inp.worktree, m.diffed, some done⟩

/-- **A run that comes to its report** reports what is read of the two listings. -/
theorem Measured.Of.run {m : Measured W} (h : m.Of host inp w) :
    (checkTestDrift host inp w).trace = m.trace host inp w ∧
      ∃ patch, (checkTestDrift host inp w).result =
        .ok (inp.report (hiddenIn m.listed) (changedIn m.status) patch) := by
  have hlist : indexBitPaths host inp.worktree inp.globs m.probed = ⟨.ok (hiddenIn m.listed),
      m.listedAt, [⟨Host.gitArgv (lsFilesArgs inp.globs), inp.worktree, m.probed, some m.listed⟩]⟩ := by
    rw [indexBitPaths, Script.bind_of_eq (git_run h.listed)]
    rfl
  have hclear : clearBits host inp.worktree (hiddenIn m.listed) m.listedAt = ⟨.ok (), m.cleared,
      (clearBits host inp.worktree (hiddenIn m.listed) m.listedAt).trace⟩ := by
    rw [← h.cleared, ← h.clearedAt]
  have hpatch : ∃ patch w', patchOf host inp (changedIn m.status) m.diffed = ⟨.ok patch, w',
      m.patch.toList.map fun done =>
        ⟨Host.gitArgv (patchArgs inp.anchor inp.globs), inp.worktree, m.diffed, some done⟩⟩ := by
    have hasked := h.patch
    unfold patchOf
    split at hasked
    · rename_i hnone
      exact ⟨"", m.diffed, by rw [if_pos hnone, hasked]; rfl⟩
    · rename_i hsome
      obtain ⟨done, hdone, hrun⟩ := hasked
      refine ⟨if done.returncode = 0 then takeText inp.maxChars done.stdout else "",
        (host.run (Host.gitArgv (patchArgs inp.anchor inp.globs)) inp.worktree m.diffed).2, ?_⟩
      rw [if_neg hsome, Script.bind_of_eq (git_run (Prod.ext hrun rfl)), hdone]
      rfl
  obtain ⟨patch, w', hpatch⟩ := hpatch
  rw [checkTestDrift, if_neg h.globs, Script.bind_of_eq (git_run h.probe),
    if_neg (not_not.mpr h.resolved), Script.bind_of_eq hlist, Script.bind_of_eq hclear,
    Script.bind_of_eq (git_run h.status), if_neg (not_not.mpr h.diffed), Script.bind_of_eq hpatch]
  refine ⟨?_, patch, rfl⟩
  simp [Measured.trace]

theorem patchOf_ok {changed : List String} {patch : String}
    (h : (patchOf host inp changed w).result = .ok patch) :
    ∃ asked : Option Completed, if changed = [] then asked = none else
      ∃ done, asked = some done ∧
        (host.run (Host.gitArgv (patchArgs inp.anchor inp.globs)) inp.worktree w).1 = .ok done := by
  unfold patchOf at h
  split at h
  · rename_i hnone
    exact ⟨none, by rw [if_pos hnone]⟩
  · rename_i hsome
    obtain ⟨done, hdone, -⟩ := Script.exists_of_bind_ok h
    refine ⟨some done, ?_⟩
    rw [if_neg hsome]
    exact ⟨done, rfl, congrArg Prod.fst (run_of_git hdone)⟩

theorem exists_measured {r : DriftReport} (hr : (checkTestDrift host inp w).result = .ok r)
    (havailable : r.available = true) : ∃ m : Measured W, m.Of host inp w := by
  by_cases hglobs : inp.globs = []
  · rw [checkTestDrift, if_pos hglobs] at hr
    cases hr
    cases havailable
  rw [checkTestDrift, if_neg hglobs] at hr
  obtain ⟨probe, hprobe, hr, -, -⟩ := Script.exists_of_bind_ok hr
  split at hr
  · cases hr
    cases havailable
  rename_i hresolved
  obtain ⟨hidden, hlist, hr, -, -⟩ := Script.exists_of_bind_ok hr
  obtain ⟨listed, hlisted, hhidden, hworld, -⟩ := Script.exists_of_bind_ok hlist
  cases hhidden
  obtain ⟨_, hcleared, hr, -, -⟩ := Script.exists_of_bind_ok hr
  obtain ⟨status, hstatus, hr, -, -⟩ := Script.exists_of_bind_ok hr
  split at hr
  · cases hr
    cases havailable
  rename_i hdiffed
  obtain ⟨patch, hpatch, -⟩ := Script.exists_of_bind_ok hr
  change (indexBitPaths host inp.worktree inp.globs _).world = _ at hworld
  rw [hworld] at hcleared hstatus hpatch
  obtain ⟨asked, hasked⟩ := patchOf_ok hpatch
  exact ⟨⟨probe, listed, status, asked, _, _, _, _⟩, hglobs, run_of_git hprobe, not_not.mp hresolved,
    run_of_git hlisted, hcleared, rfl, run_of_git hstatus, not_not.mp hdiffed, hasked⟩

/-- **Clearing the bits** changes no file and sets no bit; where each command succeeds, no bit is
left on these paths. -/
theorem Manual.clearBits_leaves (hdoc : Manual host repo inp.worktree) {paths : List String} {w : W}
    (hok : (clearBits host inp.worktree paths w).result = .ok ()) :
    let o := clearBits host inp.worktree paths w
    repo.differs o.world = repo.differs w ∧
      (∀ p, repo.skips o.world p → repo.skips w p) ∧
      (∀ p, repo.assumes o.world p → repo.assumes w p) ∧
      ((∀ call ∈ o.trace, call.Succeeded) → ∀ p ∈ paths, ¬repo.Hidden o.world p) := by
  induction paths generalizing w with
  | nil => exact ⟨rfl, fun _ h => h, fun _ h => h, fun _ => nofun⟩
  | cons path rest ih =>
    obtain ⟨skip, hskip, hok, hworld, htrace⟩ := Script.exists_of_bind_ok hok
    obtain ⟨assume, hassume, hok, hworld', htrace'⟩ := Script.exists_of_bind_ok hok
    have hskipped := hdoc.updated "--no-skip-worktree" (by simp) path w
    have hassumed := hdoc.updated "--no-assume-unchanged" (by simp) path
      (host.git ["update-index", "--no-skip-worktree", path] inp.worktree w).world
    obtain ⟨hdiffers, hskips, hassumes, hcleared⟩ := ih hok
    dsimp only
    rw [clearBits, hworld, hworld', htrace, htrace']
    refine ⟨hdiffers.trans (hassumed.1.trans hskipped.1),
      fun p h => hskipped.2.1 p (hassumed.2.1 p (hskips p h)),
      fun p h => hskipped.2.2 p (hassumed.2.2 p (hassumes p h)), fun hall p hp => ?_⟩
    rw [List.forall_mem_append, List.forall_mem_append] at hall
    rcases List.mem_cons.mp hp with rfl | hp
    · have hdone : ∀ {flag : String} {w : W} {done : Completed},
          (host.git ["update-index", flag, p] inp.worktree w).result = .ok done →
          (∀ call ∈ (host.git ["update-index", flag, p] inp.worktree w).trace, call.Succeeded) →
            done.returncode = 0 := by
        intro flag w done hresult hcall
        rw [git_run (run_of_git hresult)] at hcall
        obtain ⟨done', hsome, hzero⟩ := hcall _ (List.mem_singleton_self _)
        cases hsome
        exact hzero
      have hunskipped := hdoc.unskipped p w skip (result_subprocess hskip) (hdone hskip hall.1)
      have hunassumed := hdoc.unassumed p _ assume (result_subprocess hassume)
        (hdone hassume hall.2.1)
      rintro (hbit | hbit)
      · exact hunskipped (hassumed.2.1 p (hskips p hbit))
      · exact hunassumed (hassumes p hbit)
    · exact hcleared hall.2.2 p hp

theorem Manual.measured (hdoc : Manual host repo inp.worktree) {m : Measured W}
    (h : m.Of host inp w) :
    repo.Hidden m.probed = repo.Hidden w ∧ repo.differs m.cleared = repo.differs w ∧
      (∀ p, repo.Hidden m.cleared p → repo.Hidden w p) ∧
      ((∀ call ∈ (clearBits host inp.worktree (hiddenIn m.listed) m.listedAt).trace,
        call.Succeeded) → ∀ p ∈ hiddenIn m.listed, ¬repo.Hidden m.cleared p) := by
  have hprobed := hdoc.looked ["rev-parse", "--verify", inp.anchor ++ "^{commit}"] w (by simp)
  have hlisted := hdoc.looked (lsFilesArgs inp.globs) m.probed (by simp [lsFilesArgs])
  rw [h.probe] at hprobed
  rw [h.listed] at hlisted
  obtain ⟨hdiffers, hskips, hassumes, hcleared⟩ := hdoc.clearBits_leaves h.cleared
  rw [h.clearedAt] at hdiffers hskips hassumes hcleared
  refine ⟨?_, hdiffers.trans (hlisted.1.trans hprobed.1), ?_, hcleared⟩
  · funext p
    rw [Tracked.Hidden, Tracked.Hidden, hprobed.2.1, hprobed.2.2]
  · rintro p (hbit | hbit)
    · have hskip := hskips p hbit
      rw [hlisted.2.1, hprobed.2.1] at hskip
      exact .inl hskip
    · have hassume := hassumes p hbit
      rw [hlisted.2.2, hprobed.2.2] at hassume
      exact .inr hassume

end Runs

/-! ## 6.  A small repository -/

/-- A repository of tests: the lines of its diff, what `git ls-files` returns, and --- the world ---
the paths that the skip-worktree bit hides. -/
structure Bench where
  entries : List Entry
  lsFiles : ℤ := 0

namespace Bench

variable (b : Bench)

def plainChar (c : Char) : Bool := c ∉ lineBreaks && c ≠ '\t' && c ≠ '"' && c.toNat < 128

/-- Quoted is a path with an unusual character, each of which a mark stands for. -/
def quote (path : String) : String :=
  if path.toList.all plainChar then path
  else String.ofList ('"' :: path.toList.map (fun c => if plainChar c then c else '?') ++ ['"'])

def isTest (path : String) : Bool := "tests/".toList.isPrefixOf path.toList

def unhidden (hidden : List String) (e : Entry) : List Entry :=
  if e.names.all (· ∉ hidden) then [e]
  else (e.names.filter (· ∉ hidden)).map fun name => { status := ['M'], name }

def tracked : Tracked (List String) where
  differs _ _ path := ∃ e ∈ b.entries, path ∈ e.names
  skips hidden path := path ∈ hidden
  assumes _ _ := False
  selects globs path := "tests/*" ∈ globs ∧ isTest path = true
  listing hidden globs := if "tests/*" ∈ globs then hidden.filter isTest |>.map ('S', ·) else []
  entries hidden _ globs := if "tests/*" ∈ globs then b.entries.flatMap (unhidden hidden) else []
  quote := quote

/-- git, in this repository. -/
def answer (args : List String) (hidden : List String) : Completed × List String :=
  match args with
  | ["update-index", "--no-skip-worktree", path] => (⟨0, "", ""⟩, hidden.filter (· ≠ path))
  | "ls-files" :: "-v" :: "--" :: globs =>
    (⟨b.lsFiles, printed ((b.tracked.listing hidden globs).map b.tracked.tagged), ""⟩, hidden)
  | "diff" :: "--name-status" :: anchor :: "--" :: globs =>
    (⟨0, printed ((b.tracked.entries hidden anchor globs).map b.tracked.line), ""⟩, hidden)
  | _ => (⟨0, "", ""⟩, hidden)

def machine : Host (List String) where
  isDir _ _ := true
  pathExists _ _ := true
  run argv _ hidden :=
    (.ok (b.answer (argv.drop 3) hidden).1, (b.answer (argv.drop 3) hidden).2)
  rmtree _ hidden := (.ok (), hidden)

/-- The entries are of tests, and their statuses are as git prints them. -/
def Proper : Prop :=
  ∀ e ∈ b.entries, (∀ c ∈ e.status, plainChar c = true) ∧ ∀ name ∈ e.names, isTest name = true

instance : Decidable b.Proper := by unfold Proper; infer_instance

variable {b}

theorem plainChar_iff {c : Char} (h : plainChar c = true) : c ∉ lineBreaks ∧ c ≠ '\t' ∧ c ≠ '"' := by
  simp only [plainChar, Bool.and_eq_true, decide_eq_true_eq] at h
  exact ⟨h.1.1.1, h.1.1.2, h.1.2⟩

theorem names_unhidden {hidden : List String} {e : Entry} {path : String} :
    (∃ e' ∈ unhidden hidden e, path ∈ e'.names) ↔ path ∈ e.names ∧ path ∉ hidden := by
  unfold unhidden
  split
  · rename_i hall
    simp only [List.all_eq_true, decide_eq_true_eq] at hall
    simp only [List.mem_singleton, exists_eq_left]
    exact ⟨fun h => ⟨h, hall path h⟩, fun h => h.1⟩
  · simp [Entry.names, and_comm]

theorem ne_empty_of_isTest {path : String} (h : isTest path = true) : path ≠ "" := by
  rintro rfl
  revert h
  decide

theorem documented (hproper : b.Proper) : Manual b.machine b.tracked "/repo" where
  quote_safe path c hc := by
    change c ∈ (quote path).toList at hc
    unfold quote at hc
    split at hc
    · rename_i hall
      have hplain := plainChar_iff (List.all_eq_true.mp hall c hc)
      exact ⟨hplain.1, hplain.2.1⟩
    · rw [String.toList_ofList] at hc
      have hcases : c = '"' ∨ ∃ d ∈ path.toList, (if plainChar d then d else '?') = c := by
        simpa [or_comm] using hc
      rcases hcases with rfl | ⟨d, -, rfl⟩
      · decide
      · split
        · rename_i hplain
          exact ⟨(plainChar_iff hplain).1, (plainChar_iff hplain).2.1⟩
        · decide
  quote_cases path := by
    change quote path = path ∨ ∃ body, (quote path).toList = _ ∧ _
    unfold quote
    split
    · exact .inl rfl
    · exact .inr ⟨_, String.toList_ofList, by rw [List.length_map]⟩
  quote_quote path hmark hquote := by
    change quote path = path at hquote
    unfold quote at hquote
    split at hquote
    · rename_i hall
      exact (plainChar_iff (List.all_eq_true.mp hall _ hmark)).2.2 rfl
    · have hlength := congrArg (fun s => s.toList.length) hquote
      simp at hlength
      omega
  listed globs hidden done hrun _ := by
    cases hrun
    rfl
  listing_tag hidden globs entry hentry := by
    have htag : 'S' ∉ lineBreaks := by decide
    change entry ∈ (if "tests/*" ∈ globs then (hidden.filter isTest).map ('S', ·) else []) at hentry
    split at hentry
    · obtain ⟨path, hpath, rfl⟩ := List.mem_map.mp hentry
      exact ⟨htag, ne_empty_of_isTest (List.mem_filter.mp hpath).2⟩
    · cases hentry
  listing_hides hidden globs path := by
    by_cases hglobs : "tests/*" ∈ globs
    · simp [tracked, Tracked.Hidden, hglobs, hides]
    · simp [tracked, hglobs]
  diffed anchor globs hidden done hrun _ := by
    cases hrun
    rfl
  entries_status hidden anchor globs e he := by
    change e ∈ (if "tests/*" ∈ globs then b.entries.flatMap (unhidden hidden) else []) at he
    split at he
    · obtain ⟨e', he', hmem⟩ := List.mem_flatMap.mp he
      have hstatus : ∀ c ∈ e.status, plainChar c = true := by
        unfold unhidden at hmem
        split at hmem
        · cases List.mem_singleton.mp hmem
          exact (hproper e he').1
        · obtain ⟨name, -, rfl⟩ := List.mem_map.mp hmem
          exact List.forall_mem_singleton.mpr (by decide)
      refine ⟨fun c hc => ?_, fun name hname => ?_⟩
      · have hplain := plainChar_iff (hstatus c hc)
        exact ⟨hplain.1, hplain.2.1⟩
      · have hold := (names_unhidden.mp ⟨e, hmem, hname⟩).1
        exact ne_empty_of_isTest ((hproper e' he').2 name hold)
    · cases he
  entries_names hidden anchor globs path := by
    have hhidden : b.tracked.Hidden hidden path ↔ path ∈ hidden := iff_of_eq (or_false _)
    change (∃ e ∈ (if "tests/*" ∈ globs then b.entries.flatMap (unhidden hidden) else []), _) ↔
      (∃ e ∈ b.entries, path ∈ e.names) ∧ ("tests/*" ∈ globs ∧ isTest path = true) ∧ _
    rw [hhidden]
    constructor
    · rintro ⟨e, he, hpath⟩
      split at he
      · rename_i hglobs
        obtain ⟨e', he', hmem⟩ := List.mem_flatMap.mp he
        obtain ⟨hold, hseen⟩ := names_unhidden.mp ⟨e, hmem, hpath⟩
        exact ⟨⟨e', he', hold⟩, ⟨hglobs, (hproper e' he').2 path hold⟩, hseen⟩
      · cases he
    · rintro ⟨⟨e', he', hold⟩, ⟨hglobs, -⟩, hseen⟩
      obtain ⟨e, hmem, hpath⟩ := names_unhidden.mpr ⟨hold, hseen⟩
      rw [if_pos hglobs]
      exact ⟨e, List.mem_flatMap.mpr ⟨e', he', hmem⟩, hpath⟩
  looked args hidden hargs := by
    have hsame : (b.answer args hidden).2 = hidden := by
      unfold answer
      split
      · simp at hargs
      · rfl
      · rfl
      · rfl
    change b.tracked.differs (b.answer args hidden).2 = _ ∧ b.tracked.skips (b.answer args hidden).2 = _ ∧
      b.tracked.assumes (b.answer args hidden).2 = _
    rw [hsame]
    exact ⟨rfl, rfl, rfl⟩
  updated flag hflag path hidden := by
    rcases List.mem_cons.mp hflag with rfl | hflag
    · exact ⟨rfl, fun p hp => (List.mem_filter.mp hp).1, fun p hp => hp⟩
    · cases List.mem_singleton.mp hflag
      exact ⟨rfl, fun p hp => hp, fun p hp => hp⟩
  unskipped path hidden done _ _ hskips :=
    of_decide_eq_true (List.mem_filter.mp hskips).2 rfl
  unassumed path hidden done _ _ hassumes := hassumes

end Bench

/-! ## 7.  When a report is exact -/

section Exactness

variable {host : Host W} {repo : Tracked W} {inp : DriftInput} {w : W} {m : Measured W}

theorem succeeded_iff {argv : List String} {cwd : String} {done : Completed} :
    (⟨argv, cwd, w, some done⟩ : Call W).Succeeded ↔ done.returncode = 0 :=
  ⟨fun ⟨_, hsome, hzero⟩ => Option.some.inj hsome ▸ hzero, fun h => ⟨done, rfl, h⟩⟩

theorem forall_trace_iff (h : m.Of host inp w) :
    (∀ call ∈ m.trace host inp w, call.Succeeded) ↔ m.Succeeds host inp := by
  have hpatch : (∀ call ∈ m.patch.toList.map fun done =>
      (⟨Host.gitArgv (patchArgs inp.anchor inp.globs), inp.worktree, m.diffed, some done⟩ : Call W),
      call.Succeeded) ↔ ∀ done ∈ m.patch, done.returncode = 0 := by
    rw [List.forall_mem_map]
    refine forall_congr' fun done => ?_
    rw [Option.mem_toList, succeeded_iff]
    rfl
  rw [Measured.trace, List.cons_append, List.cons_append, List.forall_mem_cons, List.forall_mem_cons,
    List.forall_mem_append, List.forall_mem_cons, hpatch, succeeded_iff, succeeded_iff, succeeded_iff,
    and_iff_right h.resolved, and_iff_right h.diffed]
  rfl

/-- **The report lists what has been read.** -/
theorem lists_iff {hidden changed : List String} {patch : String} {differs hides : String → Prop} :
    ((∀ p, p ∈ (inp.report hidden changed patch).fencePaths ↔
        differs p ∧ matchesAny p inp.fenceGlobs = true) ∧
      (∀ p, p ∈ (inp.report hidden changed patch).reportPaths ↔ differs p ∧
        matchesAny p inp.fenceGlobs = false ∧ matchesAny p inp.reportGlobs = true) ∧
      ∀ p, p ∈ (inp.report hidden changed patch).indexBitPaths ↔
        hides p ∧ matchesAny p inp.globs = true) ↔
    (∀ p, p ∈ changed ↔ differs p ∧ matchesAny p inp.globs = true) ∧
      ∀ p, p ∈ hidden ↔ hides p ∧ matchesAny p inp.globs = true := by
  have hfence : ∀ p, p ∈ (inp.report hidden changed patch).fencePaths ↔
      p ∈ changed ∧ matchesAny p inp.fenceGlobs = true :=
    fun p => mem_sortedSet.trans List.mem_filter
  have hreport : ∀ p, p ∈ (inp.report hidden changed patch).reportPaths ↔
      p ∈ changed ∧ matchesAny p inp.fenceGlobs = false := by
    intro p
    have hmem : p ∈ (inp.report hidden changed patch).reportPaths ↔
        p ∈ changed ∧ p ∉ (inp.report hidden changed patch).fencePaths := by
      rw [DriftInput.report, mem_sortedSet, List.mem_filter, decide_eq_true_eq]
    rw [hmem]
    refine and_congr_right fun hp => ?_
    rw [hfence, not_and, Bool.not_eq_true]
    exact ⟨fun h => h hp, fun h _ => h⟩
  have hglobs : ∀ p, matchesAny p inp.globs =
      (matchesAny p inp.fenceGlobs || matchesAny p inp.reportGlobs) := fun p => List.any_append
  simp only [hfence, hreport]
  rw [← and_assoc]
  refine and_congr_left fun _ => ⟨fun ⟨hmatch, hrest⟩ p => ?_, fun h => ⟨fun p => ?_, fun p => ?_⟩⟩
  · rw [hglobs]
    cases hp : matchesAny p inp.fenceGlobs with
    | true =>
      rw [Bool.true_or, and_iff_left rfl]
      have := hmatch p
      rwa [hp, and_iff_left rfl, and_iff_left rfl] at this
    | false =>
      rw [Bool.false_or]
      have := hrest p
      rwa [hp, and_iff_left rfl, and_iff_right rfl] at this
  · rw [h p, hglobs, and_assoc]
    refine and_congr_right fun _ => ⟨fun hp => hp.2, fun hp => ⟨by rw [hp, Bool.true_or], hp⟩⟩
  · rw [h p, hglobs, and_assoc]
    refine and_congr_right fun _ => ⟨fun ⟨hany, hp⟩ => ⟨hp, ?_⟩, fun ⟨hp, hany⟩ => ⟨?_, hp⟩⟩
    · rwa [hp, Bool.false_or] at hany
    · rw [hany, Bool.or_true]

theorem Manual.strip_shown (hdoc : Manual host repo inp.worktree) {e : Entry}
    (hnames : ∀ name ∈ e.names, name ≠ "" ∧ strip name = name) :
    strip (String.ofList (repo.shown e)) = String.ofList (repo.shown e) := by
  have hends : ∀ name ∈ e.names, (repo.quote name).toList ≠ [] ∧
      (∀ c ∈ (repo.quote name).toList.head?, isSpace c = false) ∧
      ∀ c ∈ (repo.quote name).toList.getLast?, isSpace c = false := by
    intro name hname
    obtain ⟨hne, hstrip⟩ := hnames name hname
    refine ⟨fun hnil => hne ?_, ends_of_strip (hdoc.strip_quote hstrip)⟩
    have hle := hdoc.length_le name
    rw [hnil, List.length_nil, Nat.le_zero, List.length_eq_zero_iff] at hle
    exact String.toList_eq_nil_iff.mp hle
  obtain ⟨hne, hhead, hlast⟩ := hends e.name List.mem_cons_self
  cases hrenamed : e.renamed with
  | none =>
    have hshown : repo.shown e = (repo.quote e.name).toList := by
      rw [Tracked.shown, hrenamed, List.append_nil]
    rw [hshown, String.ofList_toList]
    exact hdoc.strip_quote (hnames e.name List.mem_cons_self).2
  | some new =>
    have hnew : new ∈ e.names := by simp [Entry.names, hrenamed]
    obtain ⟨hneNew, -, hlastNew⟩ := hends new hnew
    have hshown : repo.shown e = (repo.quote e.name).toList ++ '\t' :: (repo.quote new).toList := by
      rw [Tracked.shown, hrenamed]
    refine strip_eq_self ?_ ?_
    · rw [String.toList_ofList, hshown, List.head?_append_of_ne_nil _ hne]
      exact hhead
    · rw [String.toList_ofList, hshown, ← List.singleton_append, ← List.append_assoc,
        List.getLast?_append_of_ne_nil _ hneNew]
      exact hlastNew

/-- **If the names in the lines are what is read of the lines**, no line is of a rename, and each
name is printed as it is. -/
theorem Manual.plain_of_entries (hdoc : Manual host repo inp.worktree) {entries : List Entry}
    (hne : ∀ e ∈ entries, ∀ name ∈ e.names, name ≠ "")
    (h : ∀ p, (∃ e ∈ entries, strip (String.ofList (repo.shown e)) = p) ↔
      ∃ e ∈ entries, p ∈ e.names) :
    ∀ e ∈ entries, e.renamed = none ∧ Plain repo e.name := by
  have hstrip : ∀ e ∈ entries, ∀ name ∈ e.names, name ≠ "" ∧ strip name = name := by
    intro e he name hname
    obtain ⟨e', -, rfl⟩ := (h name).mpr ⟨e, he, hname⟩
    exact ⟨hne e he _ hname, strip_strip _⟩
  have hread : ∀ e ∈ entries, ∃ e' ∈ entries, String.ofList (repo.shown e) ∈ e'.names := by
    intro e he
    obtain ⟨e', he', hmem⟩ := (h _).mp ⟨e, he, rfl⟩
    rw [hdoc.strip_shown (hstrip e he)] at hmem
    exact ⟨e', he', hmem⟩
  -- A name with a tab is quoted.
  have htab : ∀ e ∈ entries, ∀ new, e.renamed = some new →
      repo.quote (String.ofList (repo.shown e)) ≠ String.ofList (repo.shown e) := by
    intro e _ new hnew hquote
    have hmem : '\t' ∈ (repo.quote (String.ofList (repo.shown e))).toList := by
      rw [hquote, String.toList_ofList, Tracked.shown, hnew]
      exact List.mem_append_right _ List.mem_cons_self
    exact (hdoc.quote_safe _ _ hmem).2 rfl
  -- So of the names that are quoted, one would be the longest.
  have hquote : ∀ name ∈ entries.flatMap Entry.names, ¬repo.quote name ≠ name := by
    refine forall_not_of_ascending (fun name => name.toList.length) fun name hname hbad => ?_
    obtain ⟨e, he, hname⟩ := List.mem_flatMap.mp hname
    obtain ⟨e', he', hmem⟩ := hread e he
    refine ⟨_, List.mem_flatMap.mpr ⟨e', he', hmem⟩, ?_⟩
    cases hrenamed : e.renamed with
    | none =>
      have hself : name = e.name := by simpa [Entry.names, hrenamed] using hname
      subst hself
      obtain ⟨hmark, hlonger, -⟩ := hdoc.quoted hbad
      have hshown : String.ofList (repo.shown e) = repo.quote e.name := by
        rw [Tracked.shown, hrenamed, List.append_nil, String.ofList_toList]
      rw [hshown]
      exact ⟨hdoc.quote_quote _ hmark, hlonger⟩
    | some new =>
      refine ⟨htab e he new hrenamed, ?_⟩
      have hcases : name = e.name ∨ name = new := by simpa [Entry.names, hrenamed] using hname
      have hlength : (String.ofList (repo.shown e)).toList.length =
          (repo.quote e.name).toList.length + ((repo.quote new).toList.length + 1) := by
        rw [String.toList_ofList, Tracked.shown, hrenamed, List.length_append, List.length_cons]
      have hle := hdoc.length_le e.name
      have hleNew := hdoc.length_le new
      rcases hcases with rfl | rfl
      · omega
      · omega
  intro e he
  have hplain : Plain repo e.name :=
    ⟨not_not.mp (hquote _ (List.mem_flatMap.mpr ⟨e, he, List.mem_cons_self⟩)),
      (hstrip e he _ List.mem_cons_self).2⟩
  refine ⟨?_, hplain⟩
  cases hrenamed : e.renamed with
  | none => rfl
  | some new =>
    obtain ⟨e', he', hmem⟩ := hread e he
    exact absurd (htab e he new hrenamed) (hquote _ (List.mem_flatMap.mpr ⟨e', he', hmem⟩))

/-- **Where pathspecs are read as globs**, what is read is right exactly if no line is of a rename
and no path is quoted. -/
theorem Manual.reads_iff (hdoc : Manual host repo inp.worktree) (h : m.Of host inp w)
    (hsucceeds : m.Succeeds host inp) (hagrees : Agrees repo inp w) :
    ((∀ p, p ∈ changedIn m.status ↔ repo.differs w inp.anchor p ∧ matchesAny p inp.globs = true) ∧
      ∀ p, p ∈ hiddenIn m.listed ↔ repo.Hidden w p ∧ matchesAny p inp.globs = true) ↔
    (∀ e ∈ repo.entries m.cleared inp.anchor inp.globs, e.renamed = none ∧ Plain repo e.name) ∧
      ∀ entry ∈ repo.listing m.probed inp.globs, hides entry.1 = true → Plain repo entry.2 := by
  obtain ⟨hhidden, hdiffers, hkept, hcleared⟩ := hdoc.measured h
  have hlisted := fun p => hdoc.mem_hiddenIn (p := p) (congrArg Prod.fst h.listed) hsucceeds.1
  have hbits : ∀ p, (∃ tag, (tag, p) ∈ repo.listing m.probed inp.globs ∧ hides tag = true) ↔
      repo.Hidden w p ∧ matchesAny p inp.globs = true := by
    intro p
    rw [hdoc.listing_hides, hhidden]
    exact and_congr_right fun hp => hagrees p (.inr hp)
  have hfirst : (∀ p, p ∈ hiddenIn m.listed ↔ repo.Hidden w p ∧ matchesAny p inp.globs = true) ↔
      ∀ entry ∈ repo.listing m.probed inp.globs, hides entry.1 = true → Plain repo entry.2 := by
    constructor
    · intro hread entry hentry htag
      have hmem : ∀ p, p ∈ ((repo.listing m.probed inp.globs).filter (hides ·.1)).map Prod.snd ↔
          ∃ tag, (tag, p) ∈ repo.listing m.probed inp.globs ∧ hides tag = true := by
        intro p
        simp
      refine hdoc.plain_of_quoted (fun p => ?_) entry.2 ((hmem _).mpr ⟨entry.1, hentry, htag⟩)
      rw [hmem, hbits, ← hread, hlisted]
      exact exists_congr fun path => and_congr_left fun _ => hmem path
    · intro hplain p
      rw [hlisted, ← hbits]
      constructor
      · rintro ⟨path, ⟨tag, hentry, htag⟩, rfl⟩
        obtain ⟨hquote, hstrip⟩ := hplain _ hentry htag
        rw [hquote, hstrip]
        exact ⟨tag, hentry, htag⟩
      · rintro ⟨tag, hentry, htag⟩
        obtain ⟨hquote, hstrip⟩ := hplain _ hentry htag
        exact ⟨p, ⟨tag, hentry, htag⟩, by rw [hquote, hstrip]⟩
  rw [hfirst]
  refine and_congr_left fun hplain => ?_
  have hnames : ∀ p, (∃ e ∈ repo.entries m.cleared inp.anchor inp.globs, p ∈ e.names) ↔
      repo.differs w inp.anchor p ∧ matchesAny p inp.globs = true := by
    intro p
    rw [hdoc.entries_names, hdiffers]
    refine and_congr_right fun hp => ?_
    rw [hagrees p (.inl hp)]
    refine ⟨fun hmatch => hmatch.1, fun hmatch => ⟨hmatch, fun hbit => ?_⟩⟩
    exact hcleared hsucceeds.2.1 p ((hfirst.mpr hplain p).mpr ⟨hkept p hbit, hmatch⟩) hbit
  rw [hdoc.changedIn_eq (congrArg Prod.fst h.status) h.diffed]
  constructor
  · intro hread
    refine hdoc.plain_of_entries
      (fun e he => (hdoc.entries_status m.cleared inp.anchor inp.globs e he).2) fun p => ?_
    rw [hnames, ← hread, List.mem_map]
  · intro hentries p
    rw [← hnames, List.mem_map]
    refine exists_congr fun e => and_congr_right fun he => ?_
    obtain ⟨hrenamed, hquote, hstrip⟩ := hentries e he
    rw [Entry.names, hrenamed, Tracked.shown, hrenamed, List.append_nil, String.ofList_toList, hquote,
      hstrip]
    rw [Option.toList_none, List.mem_singleton]
    exact eq_comm

namespace Bench

def input : DriftInput :=
  { worktree := "/repo", anchor := "c0", fenceGlobs := ["tests/*"], reportGlobs := [] }

def reported (b : Bench) (hidden : List String) : Option (List String × List String) :=
  match (checkTestDrift b.machine input hidden).result with
  | .ok r => if r.available then some (r.fencePaths, r.indexBitPaths) else none
  | .error _ => none

def changed : Bench := ⟨[⟨['M'], "tests/a.py", none⟩], 0⟩

def renamed : Bench := ⟨[⟨['R', '1', '0', '0'], "tests/a.py", some "tests/b.py"⟩], 0⟩

/-- The name of the changed test is not ASCII. -/
def accented : Bench := ⟨[⟨['M'], "tests/ä.py", none⟩], 0⟩

/-- The files cannot be listed. -/
def unlisted : Bench := ⟨[⟨['M'], "tests/a.py", none⟩], 128⟩

theorem exact_of_reported {b : Bench} {hidden fence bits : List String}
    (h : b.reported hidden = some (fence, bits))
    (hexact : Exact b.tracked input hidden (checkTestDrift b.machine input hidden)) :
    (∀ call ∈ (checkTestDrift b.machine input hidden).trace, call.Succeeded) ∧
      (∀ p, p ∈ fence ↔ b.tracked.differs hidden "c0" p ∧ matchesAny p ["tests/*"] = true) ∧
      ∀ p, p ∈ bits ↔ b.tracked.Hidden hidden p ∧ matchesAny p ["tests/*"] = true := by
  unfold reported at h
  cases hresult : (checkTestDrift b.machine input hidden).result with
  | error e =>
    rw [hresult] at h
    cases h
  | ok r =>
    rw [hresult] at h
    obtain ⟨havailable, hpaths⟩ := Option.ite_none_right_eq_some.mp h
    obtain ⟨hfence, hbits⟩ := Prod.mk.inj (Option.some.inj hpaths)
    have hall := hexact r hresult havailable
    rw [hfence, hbits] at hall
    exact ⟨hall.1, hall.2.1, hall.2.2.2⟩

theorem agrees_changed : Agrees changed.tracked input [] := by
  rintro p (⟨e, he, hp⟩ | hbit | hbit)
  · cases List.mem_singleton.mp he
    cases List.mem_singleton.mp hp
    exact iff_of_true ⟨by decide, by decide⟩ (by decide +kernel)
  · cases hbit
  · exact hbit.elim

theorem faithful_changed : Faithful changed.machine changed.tracked input [] := by
  intro m h
  have hprobed : m.probed = [] := (congrArg Prod.snd h.probe).symm
  have hlisted := h.listed
  have hstatus := h.status
  have hpatch := h.patch
  have hcleared := h.clearedAt
  rw [hprobed] at hlisted
  obtain ⟨probe, listed, status, patch, probed, listedAt, cleared, diffed⟩ := m
  cases hlisted
  cases hcleared
  dsimp only at hstatus
  cases hstatus
  refine ⟨⟨rfl, nofun, fun done hdone => ?_⟩, fun _ => ⟨fun e he => ?_, ?_⟩, fun hnot => ?_⟩
  · split at hpatch
    · rw [hpatch] at hdone
      cases hdone
    · obtain ⟨done', hsome, hrun⟩ := hpatch
      cases hsome.symm.trans hdone
      cases hrun
      rfl
  · cases List.mem_singleton.mp he
    exact ⟨rfl, by decide, by decide⟩
  · cases hprobed
    nofun
  · exact absurd agrees_changed hnot

end Bench

end Exactness

end Kroker.Vcs
