import Kroker.Harness.Permissions
import Kroker.Library.Run

/-!
# The ratchet of permissions

Calls of `apply_containment` on one worktree, with and without the repair flag: what a repair call
freezes, a later call thaws.

## 1.  What a call is to leave

`Faithful` says it of one call: every rule that is reported as enforced is denied, no pattern of
repair rules only is left, and everything else is as it was.

## 2.  What a call needs to find

`Ready`: dictionaries where it merges, no pattern that is shared, no command pattern that was
frozen. A call is faithful exactly if it finds that (`faithful_iff`).
-/

namespace Kroker.OpenCode

variable {N : Type}

/-- The file, and whether a repair call has been made on it. -/
structure Worktree (N : Type) where
  file : Stored N
  frozen : Bool := false

/-- A call, with or without the repair flag; one that raises leaves the file. -/
def next (numberType : N → String) (policy : List LayeredRule) (w : Worktree N) (repair : Bool) :
    Option (Worktree N) :=
  match applyContainment numberType policy repair w.file with
  | .ok (_, after) => some ⟨after, w.frozen || repair⟩
  | .error _ => some w

/-! ## 1.  What a call is to leave -/

def Carried (policy : List LayeredRule) (bucket pat : String) : Prop :=
  ∃ rule ∈ policy, bucketOf rule = some bucket ∧ pat ∈ rule.patterns

def OnlyRepair (policy : List LayeredRule) (bucket pat : String) : Prop :=
  (∃ rule ∈ policy, rule.phase = .repair ∧ compiledTo rule = some bucket ∧ pat ∈ rule.patterns) ∧
    ∀ rule ∈ policy, rule.phase ≠ .repair → pat ∉ rule.patterns

/-- **A call is faithful**: the rules that are reported as enforced are denied, the patterns of
repair rules only are not, once the repair is over, and every other key is as it was. -/
structure Faithful (policy : List LayeredRule) (repair frozen : Bool) (before after : Stored N)
    (report : ContainmentReport) : Prop where
  /-- Each active rule is in one of the two lists. -/
  reported : report.rulesEnforced =
      ((activeRules policy repair).filter fun rule => (compiledTo rule).isSome).map (·.id) ∧
    report.rulesUnenforceable =
      ((activeRules policy repair).filter fun rule => (compiledTo rule).isNone).map (·.id)
  enforced : ∀ rule ∈ activeRules policy repair, ∀ bucket, compiledTo rule = some bucket →
    ∀ pat ∈ rule.patterns, after.entry bucket pat = some deny
  thawed : repair = false → frozen = true → ∀ bucket pat, OnlyRepair policy bucket pat →
    after.entry bucket pat ≠ some deny
  members : ∀ key, key ≠ "permission" →
    Members.get? after.members key = Members.get? before.members key
  buckets : ∀ perms, before.permission = some perms → ∀ bucket,
    (∀ rule ∈ policy, bucketOf rule ≠ some bucket) →
      ∃ perms', after.permission = some perms' ∧
        Members.get? perms' bucket = Members.get? perms bucket
  entries : ∀ bucket pat, ¬Carried policy bucket pat →
    after.entry bucket pat = before.entry bucket pat

/-- **What a call needs to find**: a file that can be read, and dictionaries where it merges.  A
call that is no repair also needs that no rule that stays shares a pattern with a repair rule, that
no command pattern of repair rules is left from before, and that what it takes out of `edit` is a
path pattern of some rule. -/
structure Ready (policy : List LayeredRule) (repair frozen : Bool) (before : Stored N) : Prop where
  readable : ∀ e, before ≠ .failing e
  dictionaries : ∀ perms, before.permission = some perms →
    ∀ rule ∈ activeRules policy repair, ∀ bucket, compiledTo rule = some bucket →
      ∀ v, Members.get? perms bucket = some v → ∃ members, v = .object members
  unshared : repair = false → ∀ rule ∈ activeRules policy repair, compiledTo rule = some "edit" →
    ∀ pat ∈ rule.patterns, pat ∉ repairPatterns policy
  commands : repair = false → frozen = true → ∀ pat, OnlyRepair policy "bash" pat →
    before.entry "bash" pat ≠ some deny
  paths : repair = false → ∀ pat ∈ repairPatterns policy, ¬Carried policy "edit" pat →
    before.entry "edit" pat ≠ some deny

/-! ## 2.  What a call needs to find -/

section Calls

variable {numberType : N → String} {policy : List LayeredRule} {repair frozen : Bool}
  {before after : Stored N} {report : ContainmentReport}

theorem document_eq (h : ∀ e, before ≠ .failing e) : before.document = .ok before.members := by
  cases before with
  | missing => rfl
  | failing e => exact absurd rfl (h e)
  | malformed => rfl
  | value v => cases v <;> rfl

theorem entry_eq (s : Stored N) (bucket pat : String) :
    s.entry bucket pat = entryOf ((permissionIn s.members).getD []) bucket pat := by
  unfold Stored.entry Stored.permission permissionIn
  cases (Members.get? s.members "permission").bind JsonValue.members? with
  | none => rfl
  | some perms => rfl

/-- **What a call that returns has done**: it has merged, and thawed if it is no repair. -/
theorem of_applyContainment
    (h : applyContainment numberType policy repair before = .ok (report, after)) :
    (∀ e, before ≠ .failing e) ∧ ∃ merged,
      mergePermissions numberType before.members (compile policy repair).perms = .ok merged ∧
      report = ⟨(compile policy repair : Compilation N).enforced,
        (compile policy repair : Compilation N).unenforceable⟩ ∧
      after = .value (.object (Members.set before.members "permission"
        (.object (if repair then merged else thaw policy merged)))) := by
  obtain ⟨doc, hdoc, h⟩ := bind_eq_ok.mp h
  obtain ⟨merged, hmerged, h⟩ := bind_eq_ok.mp h
  have hreadable : ∀ e, before ≠ .failing e := by
    rintro e rfl
    exact nomatch hdoc
  obtain rfl := Except.ok.inj (hdoc.symm.trans (document_eq hreadable))
  obtain ⟨hreport, hafter⟩ := Prod.mk.inj (Except.ok.inj h)
  exact ⟨hreadable, merged, hmerged, hreport.symm, hafter.symm⟩

theorem applyContainment_eq {merged : List (String × JsonValue N)}
    (hreadable : ∀ e, before ≠ .failing e)
    (hmerged : mergePermissions numberType before.members (compile policy repair).perms =
      .ok merged) :
    applyContainment numberType policy repair before =
      .ok (⟨(compile policy repair : Compilation N).enforced,
        (compile policy repair : Compilation N).unenforceable⟩,
        .value (.object (Members.set before.members "permission"
          (.object (if repair then merged else thaw policy merged))))) := by
  unfold applyContainment
  rw [document_eq hreadable]
  change (mergePermissions numberType before.members (compile policy repair).perms >>= _) = _
  rw [hmerged]
  rfl

structure Left (policy : List LayeredRule) (repair : Bool) (before after : Stored N)
    (merged : List (String × JsonValue N)) : Prop where
  merge : Merged policy repair ((permissionIn before.members).getD []) merged
  permission : after.permission = some (if repair then merged else thaw policy merged)
  entry : ∀ bucket pat, after.entry bucket pat =
    if repair = false ∧ bucket = "edit" ∧ pat ∈ repairPatterns policy ∧
        isDeny (entryOf merged bucket pat) = true then none
    else entryOf merged bucket pat
  members : ∀ key, key ≠ "permission" →
    Members.get? after.members key = Members.get? before.members key

theorem left_of_merged {merged : List (String × JsonValue N)}
    (hmerged : mergePermissions numberType before.members (compile policy repair).perms =
      .ok merged) :
    Left policy repair before (.value (.object (Members.set before.members "permission"
      (.object (if repair then merged else thaw policy merged))))) merged where
  merge := merged_of_compile hmerged
  permission := by
    rw [Stored.permission, Stored.members, Members.get?_set_self]
    rfl
  entry bucket pat := by
    rw [Stored.entry, Stored.permission, Stored.members, Members.get?_set_self]
    change entryOf (if repair = true then merged else thaw policy merged) bucket pat = _
    cases repair with
    | true => rw [if_pos rfl, if_neg fun h => nomatch h.1]
    | false =>
      rw [if_neg Bool.false_ne_true, entryOf_thaw]
      simp
  members key hkey := by
    rw [Stored.members, Members.get?_set_of_ne _ _ (Ne.symm hkey)]

theorem phase_of_active {rule : LayeredRule} (h : rule ∈ activeRules policy false) :
    rule ∈ policy ∧ rule.phase ≠ .repair := by
  obtain ⟨hmem, hactive⟩ := List.mem_filter.mp h
  refine ⟨hmem, fun hphase => ?_⟩
  rw [ContainmentRule.active, hphase] at hactive
  cases hactive

theorem bucketOf_of_compiledTo {rule : LayeredRule} {bucket : String}
    (h : compiledTo rule = some bucket) : bucketOf rule = some bucket := by
  unfold compiledTo at h
  split_ifs at h
  exact h

theorem mem_repairPatterns {pat : String} :
    pat ∈ repairPatterns policy ↔ ∃ rule ∈ policy, rule.phase = .repair ∧ pat ∈ rule.patterns := by
  simp [repairPatterns, and_assoc]

theorem carried_of_denied {bucket pat : String} (h : Denied policy repair bucket pat) :
    Carried policy bucket pat := by
  obtain ⟨rule, hrule, hto, hpat⟩ := h
  exact ⟨rule, (List.mem_filter.mp hrule).1, bucketOf_of_compiledTo hto, hpat⟩

theorem not_denied_of_onlyRepair {bucket pat : String} {b : String}
    (h : OnlyRepair policy bucket pat) : ¬Denied policy false b pat := by
  rintro ⟨rule, hrule, -, hpat⟩
  obtain ⟨hmem, hphase⟩ := phase_of_active hrule
  exact h.2 rule hmem hphase hpat

theorem bucketOf_cases {rule : LayeredRule} {bucket : String} (h : bucketOf rule = some bucket) :
    bucket = "bash" ∨ bucket = "edit" := by
  unfold bucketOf at h
  split at h
  · exact .inl (Option.some.inj h).symm
  · exact .inr (Option.some.inj h).symm
  · exact nomatch h

/-- **A call that finds what it needs is faithful**, and no other. -/
theorem faithful_iff (numberType : N → String) (policy : List LayeredRule) (repair frozen : Bool)
    (before : Stored N) :
    (∃ report after, applyContainment numberType policy repair before = .ok (report, after) ∧
        Faithful policy repair frozen before after report) ↔
      Ready policy repair frozen before := by
  constructor
  · rintro ⟨report, after, h, hfaithful⟩
    obtain ⟨hreadable, merged, hmerged, rfl, rfl⟩ := of_applyContainment h
    have hleft := left_of_merged hmerged
    refine ⟨hreadable, (exists_merged_iff numberType).mp ⟨merged, hmerged⟩, ?_, ?_, ?_⟩
    · rintro rfl rule hrule hto pat hpat howned
      have hdeny := hfaithful.enforced rule hrule "edit" hto pat hpat
      rw [hleft.entry, if_pos ⟨rfl, rfl, howned,
        isDeny_iff.mpr (hleft.merge.denied "edit" pat ⟨rule, hrule, hto, hpat⟩)⟩] at hdeny
      exact nomatch hdeny
    · rintro rfl hfrozen pat honly hdeny
      refine hfaithful.thawed rfl hfrozen "bash" pat honly ?_
      rw [hleft.entry, if_neg fun h => by simp at h,
        hleft.merge.kept _ _ (not_denied_of_onlyRepair honly), ← entry_eq]
      exact hdeny
    · rintro rfl pat howned hcarried hdeny
      have hsame := hfaithful.entries "edit" pat hcarried
      have hkept := hleft.merge.kept "edit" pat fun h => hcarried (carried_of_denied h)
      rw [← entry_eq, hdeny] at hkept
      rw [hleft.entry, if_pos ⟨rfl, rfl, howned, isDeny_iff.mpr hkept⟩, hdeny] at hsame
      exact nomatch hsame
  · intro hready
    obtain ⟨merged, hmerged⟩ := (exists_merged_iff numberType).mpr hready.dictionaries
    refine ⟨_, _, applyContainment_eq hready.readable hmerged, ?_⟩
    have hleft := left_of_merged hmerged
    refine ⟨reported_compile policy repair, ?_, ?_, hleft.members, ?_, ?_⟩
    · intro rule hrule bucket hto pat hpat
      have hdeny := hleft.merge.denied bucket pat ⟨rule, hrule, hto, hpat⟩
      rw [hleft.entry, if_neg, hdeny]
      rintro ⟨hrepair, rfl, howned, -⟩
      exact hready.unshared hrepair rule hrule hto pat hpat howned
    · rintro rfl hfrozen bucket pat honly hdeny
      obtain ⟨rule, hrule, hphase, hto, hpat⟩ := honly.1
      have hkept := hleft.merge.kept bucket pat (not_denied_of_onlyRepair honly)
      rw [hleft.entry] at hdeny
      split_ifs at hdeny with hthawed
      rcases bucketOf_cases (bucketOf_of_compiledTo hto) with rfl | rfl
      · rw [hkept, ← entry_eq] at hdeny
        exact hready.commands rfl hfrozen pat honly hdeny
      · exact hthawed ⟨rfl, rfl, mem_repairPatterns.mpr ⟨rule, hrule, hphase, hpat⟩,
          isDeny_iff.mpr hdeny⟩
    · intro perms hperms bucket hnone
      refine ⟨_, hleft.permission, ?_⟩
      have hpermission : (permissionIn before.members).getD [] = perms := by
        change before.permission.getD [] = perms
        rw [hperms]
        rfl
      have hmergedBucket : Members.get? merged bucket = Members.get? perms bucket := by
        rw [hleft.merge.buckets bucket fun rule hrule hto =>
          hnone rule (List.mem_filter.mp hrule).1 (bucketOf_of_compiledTo hto), hpermission]
      cases repair with
      | true => exact hmergedBucket
      | false =>
        rw [if_neg Bool.false_ne_true, get?_thaw, hmergedBucket]
        rintro rfl pat howned hdeny
        have hcarried : ¬Carried policy "edit" pat := fun ⟨rule, hrule, hbucket, _⟩ =>
          hnone rule hrule hbucket
        refine hready.paths rfl pat howned hcarried ?_
        rw [entry_eq, ← hleft.merge.kept "edit" pat fun h => hcarried (carried_of_denied h)]
        exact hdeny
    · intro bucket pat hcarried
      have hkept := hleft.merge.kept bucket pat fun h => hcarried (carried_of_denied h)
      rw [hleft.entry, if_neg, hkept, ← entry_eq]
      rintro ⟨rfl, rfl, howned, hdeny⟩
      refine hready.paths rfl pat howned hcarried ?_
      rw [entry_eq, ← hkept]
      exact isDeny_iff.mp hdeny

end Calls

/-! ## 3.  Calls in a row -/

/-- The file can be read, and the two buckets are dictionaries or not there. -/
def Stored.mergeable (s : Stored N) : Bool :=
  match s with
  | .failing _ => false
  | s => ["bash", "edit"].all fun bucket =>
    match s.permission.bind (Members.get? · bucket) with
    | none => true
    | some v => v.members?.isSome

/-- **Where the repair rules are of paths**, and no rule that stays has one of them, a call needs to
find dictionaries only. -/
theorem ready_of_paths {policy : List LayeredRule} {repair frozen : Bool} {before : Stored N}
    (hpaths : ∀ rule ∈ policy, rule.phase = .repair → bucketOf rule = some "edit")
    (hapart : ∀ rule ∈ policy, rule.phase ≠ .repair → ∀ pat ∈ rule.patterns,
      pat ∉ repairPatterns policy)
    (h : before.mergeable = true) : Ready policy repair frozen before where
  readable e := by
    rintro rfl
    exact nomatch h
  dictionaries perms hperms rule _ bucket hto v hv := by
    have hbuckets : ["bash", "edit"].all (fun bucket =>
        match before.permission.bind (Members.get? · bucket) with
        | none => true
        | some v => v.members?.isSome) = true := by
      cases before with
      | failing e => exact nomatch h
      | missing => exact h
      | malformed => exact h
      | value v => exact h
    have hbucket := List.all_eq_true.mp hbuckets bucket (by
      rcases bucketOf_cases (bucketOf_of_compiledTo hto) with rfl | rfl
      · exact List.mem_cons_self
      · exact List.mem_cons_of_mem _ List.mem_cons_self)
    rw [hperms, Option.bind_some, hv] at hbucket
    obtain ⟨members, hmembers⟩ := Option.isSome_iff_exists.mp hbucket
    exact ⟨members, JsonValue.members?_eq_some_iff.mp hmembers⟩
  unshared hrepair rule hrule _ pat hpat := by
    subst hrepair
    obtain ⟨hmem, hphase⟩ := phase_of_active hrule
    exact hapart rule hmem hphase pat hpat
  commands _ _ pat honly := by
    obtain ⟨rule, hrule, hphase, hto, -⟩ := honly.1
    have hedit := (hpaths rule hrule hphase).symm.trans (bucketOf_of_compiledTo hto)
    exact absurd (Option.some.inj hedit) (by decide)
  paths _ pat howned hcarried := by
    obtain ⟨rule, hrule, hphase, hpat⟩ := mem_repairPatterns.mp howned
    exact absurd ⟨rule, hrule, hpaths rule hrule hphase, hpat⟩ hcarried

/-! ### A repository with permissions of its own -/

def configRule : LayeredRule where
  id := "no-agent-config-write"
  layer := .native
  tools := ["Write", "Edit"]
  predicate := .pathMatches
  patterns := ["**/opencode.json"]
  reason := "The agent may not rewrite its own permission config."

def commandRule : LayeredRule where
  id := "no-recursive-force-delete"
  layer := .native
  tools := ["Bash"]
  predicate := .commandMatches
  patterns := ["rm -rf *"]
  reason := "Destructive recursive delete."

def freezeRule : LayeredRule where
  id := "no-test-edit-during-repair"
  layer := .native
  phase := .repair
  tools := ["Write", "Edit"]
  predicate := .pathMatches
  patterns := ["tests/**", "**/tests/**"]
  reason := "Tests are frozen during repair attempts."

/-- `opencode.json`, as the repository has it. -/
def repositoryFile : Stored ℕ :=
  .value (.object [("plugin", .list [.text "x"]),
    ("permission", .object [("edit", .object [("secrets/**", deny)])])])

def protectRule : LayeredRule := { freezeRule with id := "protected-tests", phase := .always }

def installRule : LayeredRule :=
  { commandRule with id := "no-install-during-repair", phase := .repair, patterns := ["pip *"] }

end Kroker.OpenCode
