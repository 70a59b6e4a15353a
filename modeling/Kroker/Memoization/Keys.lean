import Kroker.Core.Text

/-!
# The keys of the memo cache

An artifact is kept under the digest of a text, in which the stage, the input, the prompt, the model
and what was upstream are joined with bars.  Four functions write such texts and share one cache:
`content_key`, `signal_key`, `discover_key` and `risk_key`.  The last three put a tag first, and the
first puts the stage there.

A bar inside an argument is not told from a bar between two arguments, and a stage is not told from
a tag.  So the keys see a call's `stretches` and nothing else of it.

## What is here

* `Call.Apart` --- the calls whose key is no other call's: those of `content_key` whose arguments
  have no bar, except those that `signal_key` writes too.  Every call of the other three functions
  has the key of a call of `content_key`.
-/

namespace Kroker.Memoization

/-! ## 1.  The keys -/

section Keys

variable (sha256 : String → String)

def contentKey (stage inputJson promptSha modelId upstreamRecallRef : String) : String :=
  sha256 (joinWith "|" [stage, inputJson, promptSha, modelId, upstreamRecallRef])

def signalKey (signalId : String) (version : ℤ) (rulesSha treeHash : String) : String :=
  sha256 (joinWith "|" ["scan", signalId, toString version, rulesSha, treeHash])

def discoverKey (project treeHash contextDigest : String) (identityRegistryVersion : ℤ)
    (promptSha modelId : String) : String :=
  sha256 (joinWith "|" ["discover", project, treeHash, contextDigest,
    toString identityRegistryVersion, promptSha, modelId])

def riskKey (project treeHash mapDigest rulesSha promptSha modelId : String) : String :=
  sha256 (joinWith "|" ["risk", project, treeHash, mapDigest, rulesSha, promptSha, modelId])

end Keys

inductive Call
  | content (stage inputJson promptSha modelId upstreamRecallRef : String)
  | signal (signalId : String) (version : ℤ) (rulesSha treeHash : String)
  | discover (project treeHash contextDigest : String) (identityRegistryVersion : ℤ)
      (promptSha modelId : String)
  | risk (project treeHash mapDigest rulesSha promptSha modelId : String)

namespace Call

def key (sha256 : String → String) : Call → String
  | content stage inputJson promptSha modelId upstreamRecallRef =>
    contentKey sha256 stage inputJson promptSha modelId upstreamRecallRef
  | signal signalId version rulesSha treeHash =>
    signalKey sha256 signalId version rulesSha treeHash
  | discover project treeHash contextDigest identityRegistryVersion promptSha modelId =>
    discoverKey sha256 project treeHash contextDigest identityRegistryVersion promptSha modelId
  | risk project treeHash mapDigest rulesSha promptSha modelId =>
    riskKey sha256 project treeHash mapDigest rulesSha promptSha modelId

/-- What is joined. -/
def fields : Call → List String
  | content stage inputJson promptSha modelId upstreamRecallRef =>
    [stage, inputJson, promptSha, modelId, upstreamRecallRef]
  | signal signalId version rulesSha treeHash =>
    ["scan", signalId, toString version, rulesSha, treeHash]
  | discover project treeHash contextDigest identityRegistryVersion promptSha modelId =>
    ["discover", project, treeHash, contextDigest, toString identityRegistryVersion, promptSha,
      modelId]
  | risk project treeHash mapDigest rulesSha promptSha modelId =>
    ["risk", project, treeHash, mapDigest, rulesSha, promptSha, modelId]

/-- What is hashed. -/
def payload (c : Call) : String := joinWith "|" c.fields

/-- What the key sees: the tag and the arguments, cut at every bar. -/
def stretches (c : Call) : List (List Char) := c.fields.flatMap (Kroker.stretches '|')

/-- The calls of `content_key` whose arguments have no bar, and are not those of a signal. -/
def Apart : Call → Prop
  | content stage inputJson promptSha modelId upstreamRecallRef =>
    (∀ field ∈ [stage, inputJson, promptSha, modelId, upstreamRecallRef], '|' ∉ field.toList) ∧
      ¬(stage = "scan" ∧ ∃ version : ℤ, promptSha = toString version)
  | _ => False

theorem key_eq (sha256 : String → String) (c : Call) : c.key sha256 = sha256 c.payload := by
  cases c <;> rfl

theorem fields_ne_nil (c : Call) : c.fields ≠ [] := by
  cases c <;> exact List.cons_ne_nil _ _

/-- **What is hashed of two calls is the same** exactly where their stretches are. -/
theorem payload_eq_iff (c d : Call) : c.payload = d.payload ↔ c.stretches = d.stretches :=
  joinWith_eq_iff '|' c.fields_ne_nil d.fields_ne_nil

/-! ## 2.  The calls that are apart -/

theorem exists_cut {s : String} (h : '|' ∈ s.toList) :
    ∃ a b, s = a ++ "|" ++ b ∧ a ≠ s ∧ b ≠ s := by
  obtain ⟨a, b, hab⟩ := List.append_of_mem h
  have hs : s = String.ofList a ++ "|" ++ String.ofList b := by
    refine String.toList_injective ?_
    rw [hab]
    simp
  have hlength : s.toList.length = a.length + (b.length + 1) := by
    rw [hab, List.length_append, List.length_cons]
  refine ⟨String.ofList a, String.ofList b, hs, ?_, ?_⟩
  · intro heq
    have := congrArg (fun t : String => t.toList.length) heq
    simp only [String.toList_ofList] at this
    omega
  · intro heq
    have := congrArg (fun t : String => t.toList.length) heq
    simp only [String.toList_ofList] at this
    omega

/-- A bar in an argument of `content_key` can be taken for one between two arguments. -/
theorem exists_other_of_bar {stage inputJson promptSha modelId upstreamRecallRef : String}
    (h : ∃ field ∈ [stage, inputJson, promptSha, modelId, upstreamRecallRef],
      '|' ∈ field.toList) :
    ∃ d, d ≠ content stage inputJson promptSha modelId upstreamRecallRef ∧
      d.payload = (content stage inputJson promptSha modelId upstreamRecallRef).payload := by
  obtain ⟨field, hfield, hbar⟩ := h
  obtain ⟨a, b, hcut, ha, hb⟩ := exists_cut hbar
  simp only [List.mem_cons, List.not_mem_nil, or_false] at hfield
  rcases hfield with rfl | rfl | rfl | rfl | rfl
  · refine ⟨content a (b ++ "|" ++ inputJson) promptSha modelId upstreamRecallRef,
      fun heq => ha (content.inj heq).1, ?_⟩
    rw [payload, payload, hcut]
    simp [fields, joinWith, String.intercalate_cons_cons, String.append_assoc]
  · refine ⟨content stage a (b ++ "|" ++ promptSha) modelId upstreamRecallRef,
      fun heq => ha (content.inj heq).2.1, ?_⟩
    rw [payload, payload, hcut]
    simp [fields, joinWith, String.intercalate_cons_cons, String.append_assoc]
  · refine ⟨content stage inputJson a (b ++ "|" ++ modelId) upstreamRecallRef,
      fun heq => ha (content.inj heq).2.2.1, ?_⟩
    rw [payload, payload, hcut]
    simp [fields, joinWith, String.intercalate_cons_cons, String.append_assoc]
  · refine ⟨content stage inputJson promptSha a (b ++ "|" ++ upstreamRecallRef),
      fun heq => ha (content.inj heq).2.2.2.1, ?_⟩
    rw [payload, payload, hcut]
    simp [fields, joinWith, String.intercalate_cons_cons, String.append_assoc]
  · -- there is no argument after the last, so what precedes the bar goes to the one before
    refine ⟨content stage inputJson promptSha (modelId ++ "|" ++ a) b,
      fun heq => hb (content.inj heq).2.2.2.2, ?_⟩
    rw [payload, payload, hcut]
    simp [fields, joinWith, String.intercalate_cons_cons, String.append_assoc]

theorem exists_other_of_not_apart {c : Call} (h : ¬c.Apart) :
    ∃ d, d ≠ c ∧ d.payload = c.payload := by
  cases c with
  | content stage inputJson promptSha modelId upstreamRecallRef =>
    rw [Apart, not_and_or] at h
    rcases h with hbar | hscan
    · push Not at hbar
      exact exists_other_of_bar hbar
    · obtain ⟨rfl, version, rfl⟩ := not_not.mp hscan
      exact ⟨signal inputJson version modelId upstreamRecallRef, Call.noConfusion, rfl⟩
  | signal signalId version rulesSha treeHash =>
    exact ⟨content "scan" signalId (toString version) rulesSha treeHash, Call.noConfusion, rfl⟩
  | discover project treeHash contextDigest identityRegistryVersion promptSha modelId =>
    refine ⟨content "discover" project treeHash contextDigest
      (joinWith "|" [toString identityRegistryVersion, promptSha, modelId]), Call.noConfusion, ?_⟩
    simp [payload, fields, joinWith, String.intercalate_cons_cons, String.append_assoc]
  | risk project treeHash mapDigest rulesSha promptSha modelId =>
    refine ⟨content "risk" project treeHash mapDigest (joinWith "|" [rulesSha, promptSha, modelId]),
      Call.noConfusion, ?_⟩
    simp [payload, fields, joinWith, String.intercalate_cons_cons, String.append_assoc]

theorem eq_of_apart {c : Call} (h : c.Apart) {d : Call} (hsame : d.payload = c.payload) :
    d = c := by
  cases c with
  | content stage inputJson promptSha modelId upstreamRecallRef =>
    obtain ⟨hbar, hscan⟩ := h
    have hstretches : d.fields.flatMap (Kroker.stretches '|') =
        [stage, inputJson, promptSha, modelId, upstreamRecallRef].flatMap (Kroker.stretches '|') :=
      (payload_eq_iff _ _).mp hsame
    have hlength : d.fields.length ≤ 5 := by
      refine (length_le_flatMap_stretches '|' d.fields).trans ?_
      rw [hstretches, flatMap_stretches_of_notMem hbar]
      exact Nat.le_refl 5
    have hfields : d.fields.length = 5 →
        d.fields = [stage, inputJson, promptSha, modelId, upstreamRecallRef] := fun hfive =>
      eq_of_flatMap_stretches hbar hfive hstretches
    cases d with
    | content stage' inputJson' promptSha' modelId' upstreamRecallRef' =>
      have hsame := hfields rfl
      simp only [fields, List.cons.injEq, and_true] at hsame
      obtain ⟨rfl, rfl, rfl, rfl, rfl⟩ := hsame
      rfl
    | signal signalId version rulesSha treeHash =>
      have hsame := hfields rfl
      simp only [fields, List.cons.injEq, and_true] at hsame
      exact absurd ⟨hsame.1.symm, version, hsame.2.2.1.symm⟩ hscan
    | discover => exact absurd hlength (show ¬7 ≤ 5 by decide)
    | risk => exact absurd hlength (show ¬7 ≤ 5 by decide)
  | signal => exact h.elim
  | discover => exact h.elim
  | risk => exact h.elim

end Call

/-! ## 3.  What the keys tell -/

section Digests

variable {sha256 : String → String} (hsha : (Set.range Call.payload).InjOn sha256)

include hsha

theorem payload_eq_of_key_eq {c d : Call} (h : c.key sha256 = d.key sha256) :
    c.payload = d.payload := by
  rw [Call.key_eq, Call.key_eq] at h
  exact hsha ⟨c, rfl⟩ ⟨d, rfl⟩ h

/-- **Two calls have one key** exactly where they have the same stretches. -/
theorem key_eq_iff (c d : Call) : c.key sha256 = d.key sha256 ↔ c.stretches = d.stretches := by
  rw [← Call.payload_eq_iff]
  refine ⟨payload_eq_of_key_eq hsha, fun h => ?_⟩
  rw [Call.key_eq, Call.key_eq, h]

/-- **A call has its key to itself** exactly where it is apart. -/
theorem own_key_iff (c : Call) : (∀ d : Call, c.key sha256 = d.key sha256 → c = d) ↔ c.Apart := by
  constructor
  · intro hown
    by_contra hapart
    obtain ⟨d, hne, hsame⟩ := Call.exists_other_of_not_apart hapart
    refine hne (hown d ?_).symm
    rw [Call.key_eq, Call.key_eq, hsame]
  · exact fun hapart d h => (Call.eq_of_apart hapart (payload_eq_of_key_eq hsha h).symm).symm

/-- **What the keys tell**: two calls, where they are the same or have other stretches; and a call
from every other, where it is apart. -/
theorem keys_apart_iff (c d : Call) :
    ((c.key sha256 = d.key sha256 → c = d) ↔ c = d ∨ c.stretches ≠ d.stretches) ∧
      ((∀ e : Call, c.key sha256 = e.key sha256 → c = e) ↔ c.Apart) := by
  refine ⟨?_, own_key_iff hsha c⟩
  rw [key_eq_iff hsha]
  exact imp_iff_or_not

end Digests

/-- A stage named like the tag of `signal_key`, and a project whose name holds a bar. -/
theorem keys_collide :
    ¬(∀ c d : Call, c.key id = d.key id → c = d) ∧
      (∀ sha256, contentKey sha256 "scan" "files" "1" "rules" "tree" =
        signalKey sha256 "files" 1 "rules" "tree") ∧
      ∀ sha256, riskKey sha256 "a|b" "c" "map" "rules" "prompt" "model" =
        riskKey sha256 "a" "b|c" "map" "rules" "prompt" "model" := by
  refine ⟨fun h => ?_, fun sha256 => congrArg sha256 (by decide +kernel),
    fun sha256 => congrArg sha256 (by decide +kernel)⟩
  exact Call.noConfusion
    (h (.content "scan" "files" "1" "rules" "tree") (.signal "files" 1 "rules" "tree")
      (by decide +kernel))

/-- A plan is told from a signal, and, as its input holds no bar, from every other call. -/
theorem keys_apart_iff_sample :
    (Call.content "plan" "[]" "p" "m" "none").key id ≠ (Call.signal "plan" 1 "p" "m").key id ∧
      ∀ e : Call, (Call.content "plan" "[]" "p" "m" "none").key id = e.key id →
        Call.content "plan" "[]" "p" "m" "none" = e := by
  obtain ⟨hpair, hown⟩ := keys_apart_iff Function.injective_id.injOn
    (.content "plan" "[]" "p" "m" "none") (.signal "plan" 1 "p" "m")
  refine ⟨fun h => Call.noConfusion (hpair.mpr (.inr (by decide +kernel)) h), hown.mpr ⟨?_, ?_⟩⟩
  · decide
  · exact fun h => absurd h.1 (by decide)

/-! ## 4.  What is served -/

/-- The files of the cache by their keys; what cannot be read of an entry is `none`. -/
abbrev Cache := Dict (Option String)

namespace Cache

/-- `get`: an entry that cannot be read is a miss. -/
def get (cache : Cache) (key : String) : Option String := cache[key]?.join

def put (cache : Cache) (key payloadJson : String) : Cache := cache.insert key (some payloadJson)

/-- What happens to the cache: an artifact is kept for a call, or an entry is spoilt. -/
inductive Event
  | put (c : Call) (artifact : String)
  | spoil (key : String)

def Event.key (sha256 : String → String) : Event → String
  | .put c _ => c.key sha256
  | .spoil key => key

def after (sha256 : String → String) (cache : Cache) : Event → Cache
  | .put c artifact => cache.put (c.key sha256) artifact
  | .spoil key => cache.insert key none

end Cache

section Serving

variable {sha256 : String → String}

theorem get_after_iff {cache : Cache} {event : Cache.Event} {key artifact : String} :
    (cache.after sha256 event).get key = some artifact ↔
      (∃ d, event = .put d artifact ∧ d.key sha256 = key) ∨
        event.key sha256 ≠ key ∧ cache.get key = some artifact := by
  cases event with
  | put c payloadJson =>
    rw [Cache.after, Cache.put, Cache.get, Dict.get?_insert, Cache.Event.key]
    by_cases hkey : c.key sha256 = key <;> simp [hkey, Cache.get]
  | spoil spoilt =>
    rw [Cache.after, Cache.get, Dict.get?_insert, Cache.Event.key]
    by_cases hkey : spoilt = key <;> simp [hkey, Cache.get]

theorem get_foldl_after_iff {events : List Cache.Event} {key artifact : String} :
    (events.foldl (Cache.after sha256) ∅).get key = some artifact ↔
      ∃ before d later, events = before ++ .put d artifact :: later ∧ d.key sha256 = key ∧
        ∀ e ∈ later, e.key sha256 ≠ key := by
  induction events using List.reverseRecOn with
  | nil => simp [Cache.get]
  | append_singleton events event ih =>
    rw [List.foldl_append, List.foldl_cons, List.foldl_nil, get_after_iff, ih]
    constructor
    · rintro (⟨d, rfl, hkey⟩ | ⟨hother, before, d, later, rfl, hkey, hlater⟩)
      · exact ⟨events, d, [], rfl, hkey, nofun⟩
      · refine ⟨before, d, later ++ [event], by simp, hkey, fun e he => ?_⟩
        rcases List.mem_append.mp he with he | he
        · exact hlater e he
        · exact List.mem_singleton.mp he ▸ hother
    · rintro ⟨before, d, later, hevents, hkey, hlater⟩
      rcases List.eq_nil_or_concat later with rfl | ⟨later, last, rfl⟩
      · obtain ⟨-, rfl⟩ := List.append_singleton_inj.mp hevents
        exact .inl ⟨d, rfl, hkey⟩
      · rw [List.concat_eq_append, ← List.cons_append, ← List.append_assoc] at hevents
        obtain ⟨rfl, rfl⟩ := List.append_singleton_inj.mp hevents
        exact .inr ⟨hlater event (by simp), before, d, later, rfl, hkey,
          fun e he => hlater e (by simp [he])⟩

/-- **What is served to a call**, whatever has happened to the cache, is what was last kept for a
call with the same stretches, unless its entry was spoilt since; a call that is apart is served what
was kept for it. -/
theorem served_last_iff (hsha : (Set.range Call.payload).InjOn sha256) {events : List Cache.Event}
    {c : Call} {artifact : String} :
    (events.foldl (Cache.after sha256) ∅).get (c.key sha256) = some artifact ↔
      ∃ before d later, events = before ++ .put d artifact :: later ∧
        d.stretches = c.stretches ∧ (c.Apart → d = c) ∧
        ∀ e ∈ later, e.key sha256 ≠ c.key sha256 := by
  rw [get_foldl_after_iff]
  refine exists_congr fun before => exists_congr fun d => exists_congr fun later =>
    and_congr_right fun _ => ?_
  rw [key_eq_iff hsha d c, ← and_assoc]
  refine and_congr_left fun _ => ⟨fun h => ⟨h, fun hc => ?_⟩, fun h => h.1⟩
  exact ((own_key_iff hsha c).mpr hc d ((key_eq_iff hsha c d).mpr h.symm)).symm

/-- Of two plans for one call the later is served, though an entry of another call was spoilt. -/
theorem served_last_iff_sample :
    (([.put (.content "plan" "[]" "p" "m" "none") "old",
      .put (.content "plan" "[]" "p" "m" "none") "new", .spoil "another"] :
        List Cache.Event).foldl (Cache.after id) ∅).get
      ((Call.content "plan" "[]" "p" "m" "none").key id) = some "new" :=
  (served_last_iff Function.injective_id.injOn).mpr
    ⟨[_], _, [_], rfl, rfl, fun _ => rfl, by simp; decide +kernel⟩

end Serving

end Kroker.Memoization
