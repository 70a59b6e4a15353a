import Kroker.Core.JsonValue
import Kroker.Harness.Containment

/-!
# The permissions of opencode

`OpenCodeHarness.apply_containment` of `harness/opencode.py`.  opencode has no hook, so the rules
that its permissions can say are compiled into the `opencode.json` of the worktree, which may be the
repository's own file.  Each call merges the rules that are active into it, and a call that is no
repair takes the patterns of the repair rules back out.

## 1.  The code

A pattern is taken out of the `edit` bucket if it is denied there, whoever denied it.

## 2.  What is compiled

`Denying` says what a compiled bucket has: the patterns of the rules that are compiled into it.

## 3.  What is merged, and taken out

`merged_of_compile` says what the merge leaves, `exists_merged_iff` when it goes through, and
`entryOf_thaw` what the thaw takes out.
-/

namespace Kroker.OpenCode

variable {N : Type}

/-! ## 1.  The code -/

inductive ContainmentLayer where
  | native
  | hook
  deriving DecidableEq

structure LayeredRule extends ContainmentRule where
  layer : ContainmentLayer

/-- The bucket of `permission` that says what the predicate says. -/
def bucketOf (rule : LayeredRule) : Option String :=
  match rule.predicate with
  | .commandMatches => some "bash"
  | .pathMatches => some "edit"
  | _ => none

def compiledTo (rule : LayeredRule) : Option String :=
  if rule.layer = .hook then none else bucketOf rule

/-- What the loop over the rules has gathered. -/
structure Compilation (N : Type) where
  perms : List (String × List (String × JsonValue N)) := []
  enforced : List String := []
  unenforceable : List String := []

def deny : JsonValue N := .text "deny"

/-- `bucket[pat] = "deny"`, for each pattern. -/
def denyAll (bucket : List (String × JsonValue N)) (patterns : List String) :
    List (String × JsonValue N) :=
  patterns.foldl (fun bucket pat => Members.set bucket pat deny) bucket

def Compilation.add (c : Compilation N) (rule : LayeredRule) : Compilation N :=
  match compiledTo rule with
  | none => { c with unenforceable := c.unenforceable ++ [rule.id] }
  | some bucket =>
    { c with
      perms := Members.set c.perms bucket
        (denyAll ((Members.get? c.perms bucket).getD []) rule.patterns)
      enforced := c.enforced ++ [rule.id] }

def activeRules (policy : List LayeredRule) (repair : Bool) : List LayeredRule :=
  policy.filter (·.active repair)

def compile (policy : List LayeredRule) (repair : Bool) : Compilation N :=
  (activeRules policy repair).foldl Compilation.add {}

def repairPatterns (policy : List LayeredRule) : List String :=
  (policy.filter (·.phase = .repair)).flatMap (·.patterns)

/-- What is at `opencode.json`. -/
inductive Stored (N : Type) where
  | missing
  /-- Reading or parsing it raises something that is no `JSONDecodeError`. -/
  | failing (error : String)
  | malformed
  | value (v : JsonValue N)

inductive Failure where
  | attributeError (message : String)
  | unreadable (error : String)
  deriving DecidableEq

/-- The document that is merged into. -/
def Stored.document : Stored N → Except Failure (List (String × JsonValue N))
  | .missing => .ok []
  | .failing e => .error (.unreadable e)
  | .malformed => .ok []
  | .value (.object doc) => .ok doc
  | .value _ => .ok []

variable (numberType : N → String)

/-- `existing.setdefault(tool, {}).update(rules)`. -/
def mergeBucket (existing : List (String × JsonValue N))
    (compiled : String × List (String × JsonValue N)) :
    Except Failure (List (String × JsonValue N)) :=
  match (Members.get? existing compiled.1).getD (.object []) with
  | .object bucket =>
    .ok (Members.set existing compiled.1 (.object (Members.update bucket compiled.2)))
  | v => .error (.attributeError
      ("'" ++ v.typeName numberType ++ "' object has no attribute 'update'"))

/-- The permissions of the document with the rules merged in; those that are no dictionary are
replaced. -/
def mergePermissions (doc : List (String × JsonValue N))
    (perms : List (String × List (String × JsonValue N))) :
    Except Failure (List (String × JsonValue N)) :=
  match Members.get? doc "permission" with
  | some (.object existing) => perms.foldlM (mergeBucket numberType) existing
  | _ => .ok (perms.map fun c => (c.1, .object c.2))

def isDeny : Option (JsonValue N) → Bool
  | some (.text s) => s = "deny"
  | _ => false

/-- `if edit.get(pat) == "deny": edit.pop(pat, None)`. -/
def dropDeny (edit : List (String × JsonValue N)) (pat : String) : List (String × JsonValue N) :=
  if isDeny (Members.get? edit pat) then Members.erase edit pat else edit

/-- The patterns of the repair rules are taken back out. -/
def thaw (policy : List LayeredRule) (perms : List (String × JsonValue N)) :
    List (String × JsonValue N) :=
  match Members.get? perms "edit" with
  | some (.object edit) =>
    Members.set perms "edit" (.object ((repairPatterns policy).foldl dropDeny edit))
  | _ => perms

structure ContainmentReport where
  rulesEnforced : List String
  rulesUnenforceable : List String

/-- `OpenCodeHarness.apply_containment`: the report, and what is stored then. -/
def applyContainment (policy : List LayeredRule) (repair : Bool) (before : Stored N) :
    Except Failure (ContainmentReport × Stored N) := do
  let c : Compilation N := compile policy repair
  let doc ← before.document
  let merged ← mergePermissions numberType doc c.perms
  let perms := if repair then merged else thaw policy merged
  return (⟨c.enforced, c.unenforceable⟩,
    .value (.object (Members.set doc "permission" (.object perms))))

/-! ### Entries -/

def Stored.members : Stored N → List (String × JsonValue N)
  | .value (.object doc) => doc
  | _ => []

def Stored.permission (s : Stored N) : Option (List (String × JsonValue N)) :=
  (Members.get? s.members "permission").bind JsonValue.members?

def entryOf (perms : List (String × JsonValue N)) (bucket pat : String) : Option (JsonValue N) :=
  ((Members.get? perms bucket).bind JsonValue.members?).bind (Members.get? · pat)

def Stored.entry (s : Stored N) (bucket pat : String) : Option (JsonValue N) :=
  s.permission.bind (entryOf · bucket pat)

/-! ## 2.  What is compiled -/

section Compiled

variable {policy rules : List LayeredRule} {repair : Bool} {c : Compilation N}

/-- A compiled bucket denies each of its patterns, and holds nothing else. -/
structure Denying (c : Compilation N) (rules : List LayeredRule) : Prop where
  nodup : (c.perms.map Prod.fst).Nodup
  buckets : ∀ bucket members, Members.get? c.perms bucket = some members →
    (members.map Prod.fst).Nodup ∧ ∀ pat, Members.get? members pat = some deny ∨
      Members.get? members pat = none
  /-- A bucket is there if a rule is compiled into it, and it has the patterns of these rules. -/
  isSome_iff : ∀ bucket, (Members.get? c.perms bucket).isSome ↔
    ∃ rule ∈ rules, compiledTo rule = some bucket
  denied_iff : ∀ bucket pat, (Members.get? c.perms bucket).bind (Members.get? · pat) = some deny ↔
    ∃ rule ∈ rules, compiledTo rule = some bucket ∧ pat ∈ rule.patterns

theorem get?_denyAll (bucket : List (String × JsonValue N)) (patterns : List String) (pat : String) :
    Members.get? (denyAll bucket patterns) pat =
      if pat ∈ patterns then some deny else Members.get? bucket pat := by
  induction patterns generalizing bucket with
  | nil => rfl
  | cons p patterns ih =>
    change Members.get? (denyAll (Members.set bucket p deny) patterns) pat = _
    rw [ih, Members.get?_set]
    by_cases hpat : pat ∈ patterns
    · rw [if_pos hpat, if_pos (List.mem_cons_of_mem _ hpat)]
    · rw [if_neg hpat]
      by_cases hp : p = pat
      · rw [if_pos hp, if_pos (hp ▸ List.mem_cons_self)]
      · rw [if_neg hp, if_neg fun h => (List.mem_cons.mp h).elim (fun h => hp h.symm) hpat]

theorem nodup_denyAll {bucket : List (String × JsonValue N)} (h : (bucket.map Prod.fst).Nodup)
    (patterns : List String) : ((denyAll bucket patterns).map Prod.fst).Nodup := by
  induction patterns generalizing bucket with
  | nil => exact h
  | cons p patterns ih => exact ih (Members.nodup_set h p deny)

theorem Denying.add (h : Denying c rules) (rule : LayeredRule) :
    Denying (c.add rule) (rules ++ [rule]) := by
  have hmem : ∀ P : LayeredRule → Prop,
      (∃ r ∈ rules ++ [rule], P r) ↔ (∃ r ∈ rules, P r) ∨ P rule := by
    intro P
    simp [or_and_right, exists_or]
  cases hto : compiledTo rule with
  | none =>
    have hadd : (c.add rule).perms = c.perms := by rw [Compilation.add, hto]
    refine ⟨hadd ▸ h.nodup, fun bucket members hb => h.buckets bucket members (hadd ▸ hb),
      fun bucket => ?_, fun bucket pat => ?_⟩
    · rw [hadd, h.isSome_iff, hmem, hto]
      simp
    · rw [hadd, h.denied_iff, hmem, hto]
      simp
  | some into =>
    have hadd : (c.add rule).perms = Members.set c.perms into
        (denyAll ((Members.get? c.perms into).getD []) rule.patterns) := by
      rw [Compilation.add, hto]
    have hold : (((Members.get? c.perms into).getD []).map Prod.fst).Nodup ∧
        ∀ pat, Members.get? ((Members.get? c.perms into).getD []) pat = some deny ∨
          Members.get? ((Members.get? c.perms into).getD []) pat = none := by
      cases hinto : Members.get? c.perms into with
      | none => exact ⟨List.nodup_nil, fun _ => .inr rfl⟩
      | some members => exact h.buckets into members hinto
    refine ⟨hadd ▸ Members.nodup_set h.nodup _ _, fun bucket members hb => ?_, fun bucket => ?_,
      fun bucket pat => ?_⟩
    · rw [hadd, Members.get?_set] at hb
      split_ifs at hb with hbucket
      · obtain rfl := Option.some.inj hb
        refine ⟨nodup_denyAll hold.1 _, fun pat => ?_⟩
        rw [get?_denyAll]
        split_ifs
        · exact .inl rfl
        · exact hold.2 pat
      · exact h.buckets bucket members hb
    · rw [hadd, Members.get?_set, hmem, hto]
      by_cases hbucket : into = bucket
      · simp [hbucket]
      · rw [if_neg hbucket, h.isSome_iff]
        simp [hbucket]
    · rw [hadd, Members.get?_set, hmem, hto]
      by_cases hbucket : into = bucket
      · subst hbucket
        rw [if_pos rfl, Option.bind_some, get?_denyAll, ← h.denied_iff]
        by_cases hpat : pat ∈ rule.patterns
        · simp [hpat]
        · rw [if_neg hpat]
          cases Members.get? c.perms into with
          | none => simp [hpat, Members.get?]
          | some members => simp [hpat]
      · rw [if_neg hbucket, h.denied_iff]
        simp [hbucket]

theorem denying_compile (policy : List LayeredRule) (repair : Bool) :
    Denying (compile policy repair : Compilation N) (activeRules policy repair) := by
  have hfold : ∀ (rest done : List LayeredRule) (c : Compilation N), Denying c done →
      Denying (rest.foldl Compilation.add c) (done ++ rest) := by
    intro rest
    induction rest with
    | nil =>
      intro done c h
      rwa [List.append_nil]
    | cons rule rest ih =>
      intro done c h
      have := ih (done ++ [rule]) (c.add rule) (h.add rule)
      rwa [List.append_assoc] at this
  have hstart : Denying ({} : Compilation N) [] :=
    ⟨List.nodup_nil, fun _ _ h => (nomatch h), fun _ => by simp [Members.get?],
      fun _ _ => by simp [Members.get?]⟩
  exact hfold _ _ _ hstart

/-- **Each rule is in one of the two lists.** -/
theorem reported_compile (policy : List LayeredRule) (repair : Bool) :
    (compile policy repair : Compilation N).enforced =
        ((activeRules policy repair).filter fun rule => (compiledTo rule).isSome).map (·.id) ∧
      (compile policy repair : Compilation N).unenforceable =
        ((activeRules policy repair).filter fun rule => (compiledTo rule).isNone).map (·.id) := by
  have hfold : ∀ (rest : List LayeredRule) (c : Compilation N),
      (rest.foldl Compilation.add c).enforced =
          c.enforced ++ (rest.filter fun rule => (compiledTo rule).isSome).map (·.id) ∧
        (rest.foldl Compilation.add c).unenforceable =
          c.unenforceable ++ (rest.filter fun rule => (compiledTo rule).isNone).map (·.id) := by
    intro rest
    induction rest with
    | nil => exact fun c => by simp
    | cons rule rest ih =>
      intro c
      rw [List.foldl_cons, (ih _).1, (ih _).2]
      cases hto : compiledTo rule with
      | none => simp [Compilation.add, hto]
      | some bucket => simp [Compilation.add, hto]
  simpa [compile] using hfold (activeRules policy repair) {}

end Compiled

/-! ## 3.  What is merged, and taken out -/

section Merging

variable {numberType : N → String} {policy : List LayeredRule} {repair : Bool}
  {perms : List (String × List (String × JsonValue N))}
  {existing merged doc : List (String × JsonValue N)}

def bucketIn (existing : List (String × JsonValue N)) (bucket : String) :
    List (String × JsonValue N) :=
  ((Members.get? existing bucket).bind JsonValue.members?).getD []

theorem entryOf_eq (existing : List (String × JsonValue N)) (bucket pat : String) :
    entryOf existing bucket pat = Members.get? (bucketIn existing bucket) pat := by
  unfold entryOf bucketIn
  cases (Members.get? existing bucket).bind JsonValue.members? with
  | none => rfl
  | some members => rfl

theorem mergeBucket_eq (numberType : N → String) {compiled : String × List (String × JsonValue N)}
    (h : ∀ v, Members.get? existing compiled.1 = some v → ∃ members, v = .object members) :
    mergeBucket numberType existing compiled = .ok (Members.set existing compiled.1
      (.object (Members.update (bucketIn existing compiled.1) compiled.2))) := by
  unfold mergeBucket bucketIn
  cases hold : Members.get? existing compiled.1 with
  | none => rfl
  | some v =>
    obtain ⟨members, rfl⟩ := h v hold
    rfl

theorem objects_of_mergeBucket {compiled : String × List (String × JsonValue N)}
    (h : mergeBucket numberType existing compiled = .ok merged) :
    ∀ v, Members.get? existing compiled.1 = some v → ∃ members, v = .object members := by
  intro v hv
  unfold mergeBucket at h
  rw [hv, Option.getD_some] at h
  cases v with
  | object members => exact ⟨members, rfl⟩
  | null => exact nomatch h
  | bool b => exact nomatch h
  | number n => exact nomatch h
  | text s => exact nomatch h
  | list items => exact nomatch h

/-- **The merge goes through** exactly if it meets dictionaries. -/
theorem exists_foldlM_iff (numberType : N → String) (hnodup : (perms.map Prod.fst).Nodup) :
    (∃ merged, perms.foldlM (mergeBucket numberType) existing = .ok merged) ↔
      ∀ c ∈ perms, ∀ v, Members.get? existing c.1 = some v → ∃ members, v = .object members := by
  induction perms generalizing existing with
  | nil => exact iff_of_true ⟨existing, rfl⟩ nofun
  | cons c perms ih =>
    obtain ⟨hnew, hnodup⟩ := List.nodup_cons.mp hnodup
    rw [List.forall_mem_cons]
    have hkept : ∀ v, (∀ d ∈ perms, ∀ w, Members.get? (Members.set existing c.1 v) d.1 = some w →
          ∃ members, w = .object members) ↔
        ∀ d ∈ perms, ∀ w, Members.get? existing d.1 = some w → ∃ members, w = .object members := by
      intro v
      refine forall₂_congr fun d hd => ?_
      rw [Members.get?_set_of_ne]
      rintro hc
      exact hnew (hc ▸ List.mem_map_of_mem hd)
    constructor
    · rintro ⟨merged, h⟩
      rw [List.foldlM_cons] at h
      obtain ⟨first, hfirst, hrest⟩ := bind_eq_ok.mp h
      have hobjects := objects_of_mergeBucket hfirst
      rw [mergeBucket_eq numberType hobjects] at hfirst
      obtain rfl := Except.ok.inj hfirst
      exact ⟨hobjects, (hkept _).mp ((ih hnodup).mp ⟨merged, hrest⟩)⟩
    · rintro ⟨hobjects, hrest⟩
      obtain ⟨merged, hmerged⟩ := (ih hnodup).mpr ((hkept _).mpr hrest)
      refine ⟨merged, ?_⟩
      rw [List.foldlM_cons, mergeBucket_eq numberType hobjects]
      exact hmerged

theorem get?_foldlM (hnodup : (perms.map Prod.fst).Nodup)
    (h : perms.foldlM (mergeBucket numberType) existing = .ok merged) (bucket : String) :
    Members.get? merged bucket = match Members.get? perms bucket with
      | none => Members.get? existing bucket
      | some rules => some (.object (Members.update (bucketIn existing bucket) rules)) := by
  induction perms generalizing existing with
  | nil =>
    obtain rfl := Except.ok.inj h
    rfl
  | cons c perms ih =>
    obtain ⟨hnew, hnodup⟩ := List.nodup_cons.mp hnodup
    rw [List.foldlM_cons] at h
    obtain ⟨first, hfirst, hrest⟩ := bind_eq_ok.mp h
    rw [mergeBucket_eq numberType (objects_of_mergeBucket hfirst)] at hfirst
    obtain rfl := Except.ok.inj hfirst
    rw [ih hnodup hrest, Members.get?]
    by_cases hbucket : c.1 = bucket
    · subst hbucket
      rw [if_pos rfl, Members.get?_eq_none_iff.mpr hnew]
      exact Members.get?_set_self _ _ _
    · rw [if_neg hbucket]
      simp only [bucketIn, Members.get?_set_of_ne _ _ hbucket]

def Denied (policy : List LayeredRule) (repair : Bool) (bucket pat : String) : Prop :=
  ∃ rule ∈ activeRules policy repair, compiledTo rule = some bucket ∧ pat ∈ rule.patterns

/-- **What the merge leaves**: the patterns of the active rules denied, and all other entries. -/
structure Merged (policy : List LayeredRule) (repair : Bool)
    (existing merged : List (String × JsonValue N)) : Prop where
  denied : ∀ bucket pat, Denied policy repair bucket pat → entryOf merged bucket pat = some deny
  kept : ∀ bucket pat, ¬Denied policy repair bucket pat →
    entryOf merged bucket pat = entryOf existing bucket pat
  buckets : ∀ bucket, (∀ rule ∈ activeRules policy repair, compiledTo rule ≠ some bucket) →
    Members.get? merged bucket = Members.get? existing bucket

/-- The permissions that the document has, if they are a dictionary. -/
def permissionIn (doc : List (String × JsonValue N)) : Option (List (String × JsonValue N)) :=
  (Members.get? doc "permission").bind JsonValue.members?

theorem get?_map_object (perms : List (String × List (String × JsonValue N))) (bucket : String) :
    Members.get? (perms.map fun c => (c.1, JsonValue.object c.2)) bucket =
      (Members.get? perms bucket).map .object := by
  induction perms with
  | nil => rfl
  | cons c perms ih =>
    rw [List.map_cons, Members.get?, Members.get?, ih]
    split_ifs <;> rfl

theorem merged_of_compile
    (h : mergePermissions numberType doc (compile policy repair).perms = .ok merged) :
    Merged policy repair ((permissionIn doc).getD []) merged := by
  have hc : Denying (compile policy repair : Compilation N) (activeRules policy repair) :=
    denying_compile policy repair
  -- The two ways to merge leave the same entries.
  have hget : (∀ bucket, Members.get? (compile policy repair : Compilation N).perms bucket = none →
        Members.get? merged bucket = Members.get? ((permissionIn doc).getD []) bucket) ∧
      ∀ bucket rules, Members.get? (compile policy repair : Compilation N).perms bucket = some rules →
        ∀ pat, entryOf merged bucket pat = (Members.get? rules pat).or
          (entryOf ((permissionIn doc).getD []) bucket pat) := by
    unfold mergePermissions at h
    split at h
    · rename_i existing hexisting
      have hpermission : (permissionIn doc).getD [] = existing := by
        rw [permissionIn, hexisting]
        rfl
      rw [hpermission]
      refine ⟨fun bucket hnone => ?_, fun bucket rules hsome pat => ?_⟩
      · rw [get?_foldlM hc.nodup h, hnone]
      · rw [entryOf, get?_foldlM hc.nodup h, hsome, entryOf_eq existing]
        exact Members.get?_update _ (hc.buckets bucket rules hsome).1 pat
    · rename_i hother
      obtain rfl := Except.ok.inj h
      have hpermission : (permissionIn doc).getD [] = [] := by
        unfold permissionIn
        cases hv : Members.get? doc "permission" with
        | none => rfl
        | some v =>
          cases v with
          | object existing => exact absurd hv (hother existing)
          | null => rfl
          | bool b => rfl
          | number n => rfl
          | text s => rfl
          | list items => rfl
      rw [hpermission]
      refine ⟨fun bucket hnone => ?_, fun bucket rules hsome pat => ?_⟩
      · rw [get?_map_object, hnone]
        rfl
      · rw [entryOf, get?_map_object, hsome]
        change Members.get? rules pat = (Members.get? rules pat).or none
        rw [Option.or_none]
  refine ⟨fun bucket pat hdenied => ?_, fun bucket pat hnot => ?_, fun bucket hnone => ?_⟩
  · have hpat := (hc.denied_iff bucket pat).mpr hdenied
    obtain ⟨rules, hrules, hdeny⟩ := Option.bind_eq_some_iff.mp hpat
    rw [hget.2 bucket rules hrules, hdeny]
    rfl
  · cases hrules : Members.get? (compile policy repair : Compilation N).perms bucket with
    | none => rw [entryOf, hget.1 bucket hrules, entryOf]
    | some rules =>
      have hpat : Members.get? rules pat = none := by
        refine ((hc.buckets bucket rules hrules).2 pat).resolve_left fun hdeny => hnot ?_
        refine (hc.denied_iff bucket pat).mp ?_
        rw [hrules]
        exact hdeny
      rw [hget.2 bucket rules hrules, hpat]
      rfl
  · refine hget.1 bucket ?_
    rw [← Option.not_isSome_iff_eq_none, hc.isSome_iff]
    rintro ⟨rule, hrule, hto⟩
    exact hnone rule hrule hto

/-- **The merge is refused** by a bucket that is no dictionary. -/
theorem exists_merged_iff (numberType : N → String) :
    (∃ merged, mergePermissions numberType doc (compile policy repair).perms = .ok merged) ↔
      ∀ existing, permissionIn doc = some existing → ∀ rule ∈ activeRules policy repair,
        ∀ bucket, compiledTo rule = some bucket → ∀ v, Members.get? existing bucket = some v →
          ∃ members, v = .object members := by
  have hc : Denying (compile policy repair : Compilation N) (activeRules policy repair) :=
    denying_compile policy repair
  unfold mergePermissions
  split
  · rename_i existing hexisting
    have hpermission : permissionIn doc = some existing := by
      rw [permissionIn, hexisting]
      rfl
    rw [exists_foldlM_iff numberType hc.nodup, hpermission]
    constructor
    · rintro h _ ⟨⟩ rule hrule bucket hto
      have hsome := (hc.isSome_iff bucket).mpr ⟨rule, hrule, hto⟩
      obtain ⟨rules, hrules⟩ := Option.isSome_iff_exists.mp hsome
      exact h (bucket, rules) (Members.mem_of_get?_eq_some hrules)
    · intro h c hmem
      have hsome : (Members.get? (compile policy repair : Compilation N).perms c.1).isSome := by
        rw [← Option.not_isNone, Bool.not_eq_true', ← Bool.not_eq_true, Option.isNone_iff_eq_none,
          Members.get?_eq_none_iff, not_not]
        exact List.mem_map_of_mem hmem
      obtain ⟨rule, hrule, hto⟩ := (hc.isSome_iff c.1).mp hsome
      exact h existing rfl rule hrule c.1 hto
  · rename_i hother
    refine iff_of_true ⟨_, rfl⟩ fun existing hexisting => ?_
    obtain ⟨v, hv, hmembers⟩ := Option.bind_eq_some_iff.mp hexisting
    rw [JsonValue.members?_eq_some_iff.mp hmembers] at hv
    exact absurd hv (hother existing)

theorem isDeny_iff {v : Option (JsonValue N)} : isDeny v = true ↔ v = some deny := by
  cases v with
  | none => simp [isDeny]
  | some v => cases v <;> simp [isDeny, deny]

theorem get?_dropDeny (edit : List (String × JsonValue N)) (patterns : List String) (pat : String) :
    Members.get? (patterns.foldl dropDeny edit) pat =
      if pat ∈ patterns ∧ isDeny (Members.get? edit pat) = true then none
      else Members.get? edit pat := by
  induction patterns generalizing edit with
  | nil => simp
  | cons p patterns ih =>
    rw [List.foldl_cons, ih]
    by_cases hp : p = pat
    · subst hp
      unfold dropDeny
      by_cases hdeny : isDeny (Members.get? edit p) = true
      · rw [if_pos hdeny, Members.get?_erase, if_pos rfl, ite_self,
          if_pos ⟨List.mem_cons_self, hdeny⟩]
      · rw [if_neg hdeny, if_neg fun h => hdeny h.2, if_neg fun h => hdeny h.2]
    · have hsame : Members.get? (dropDeny edit p) pat = Members.get? edit pat := by
        unfold dropDeny
        split_ifs
        · rw [Members.get?_erase, if_neg hp]
        · rfl
      rw [hsame]
      simp [Ne.symm hp]

theorem foldl_dropDeny_eq_self {edit : List (String × JsonValue N)} {patterns : List String}
    (h : ∀ pat ∈ patterns, isDeny (Members.get? edit pat) = false) :
    patterns.foldl dropDeny edit = edit := by
  induction patterns with
  | nil => rfl
  | cons p patterns ih =>
    rw [List.foldl_cons, dropDeny, h p List.mem_cons_self, if_neg Bool.false_ne_true]
    exact ih fun pat hpat => h pat (List.mem_cons_of_mem _ hpat)

/-- **What the thaw takes out**: the patterns of repair rules that `edit` denies. -/
theorem entryOf_thaw (policy : List LayeredRule) (perms : List (String × JsonValue N))
    (bucket pat : String) :
    entryOf (thaw policy perms) bucket pat =
      if bucket = "edit" ∧ pat ∈ repairPatterns policy ∧
          isDeny (entryOf perms bucket pat) = true then none
      else entryOf perms bucket pat := by
  unfold thaw
  split
  · rename_i edit hedit
    by_cases hbucket : bucket = "edit"
    · subst hbucket
      have hentry : entryOf perms "edit" pat = Members.get? edit pat := by
        rw [entryOf, hedit]
        rfl
      rw [hentry, entryOf, Members.get?_set_self]
      change Members.get? ((repairPatterns policy).foldl dropDeny edit) pat = _
      rw [get?_dropDeny]
      simp
    · rw [if_neg fun h => hbucket h.1, entryOf, Members.get?_set_of_ne _ _ (Ne.symm hbucket), entryOf]
  · rename_i hother
    rw [if_neg]
    rintro ⟨rfl, -, hdeny⟩
    obtain ⟨members, hmembers, -⟩ := Option.bind_eq_some_iff.mp (isDeny_iff.mp hdeny)
    obtain ⟨v, hv, hv'⟩ := Option.bind_eq_some_iff.mp hmembers
    rw [JsonValue.members?_eq_some_iff.mp hv'] at hv
    exact hother members hv

theorem get?_thaw {perms : List (String × JsonValue N)} {bucket : String}
    (h : bucket = "edit" → ∀ pat ∈ repairPatterns policy, entryOf perms "edit" pat ≠ some deny) :
    Members.get? (thaw policy perms) bucket = Members.get? perms bucket := by
  unfold thaw
  split
  · rename_i edit hedit
    by_cases hbucket : bucket = "edit"
    · subst hbucket
      rw [Members.get?_set_self, hedit, foldl_dropDeny_eq_self]
      intro pat hpat
      have hne := h rfl pat hpat
      rw [entryOf, hedit] at hne
      rw [← Bool.not_eq_true, isDeny_iff]
      exact hne
    · rw [Members.get?_set_of_ne _ _ (Ne.symm hbucket)]
  · rfl

end Merging

end Kroker.OpenCode
