import Kroker.Capability.Matching
import Mathlib.Algebra.Order.Group.Unbundled.Int

/-!
# Near ties

`_maybe_ambiguous` of `capability/matcher.py` warns of a capability whose runner-up scored about as
well as the candidate it was attached to.  It subtracts the best score of the other eligible
candidates from the winner's.  The winner of a one-to-one assignment need not be the best, and then
the difference is negative; and a candidate below the threshold is no runner-up.

## 1.  The advisory

`raised_iff` says when the advisory is raised: there is a runner-up that scored no more than epsilon
below the winner, however far above.
-/

namespace Kroker.Matcher

variable {σ : Type} [LinearOrder σ]

/-! ## 1.  The advisory -/

/-- What is documented of a difference: it falls as what is taken away grows. -/
def NearMonotone (S : Scoring σ) : Prop :=
  ∀ winner r r', r ≤ r' → S.near winner r = true → S.near winner r' = true

/-- The absolute difference is below epsilon: so is the difference, either way. -/
def Within (S : Scoring σ) (a b : σ) : Prop := S.near a b = true ∧ S.near b a = true

def Chosen (S : Scoring σ) (proposed : List ProposedCapability) (registry : List CapabilityIdentity)
    (key : String) (s : Scored σ) : Prop :=
  assignedTo (assignedIn S proposed registry) key = some s.bcId ∧
    (scoreAll S (candidatesOf registry) proposed).find? (key, s.bcId) = some s

/-- Another candidate of the capability. -/
def Other (S : Scoring σ) (proposed : List ProposedCapability) (registry : List CapabilityIdentity)
    (key bcId : String) (t : Scored σ) : Prop :=
  t ∈ scoresIn S proposed registry ∧ t.localKey = key ∧ t.bcId ≠ bcId

/-- The advisory is among those of the result. -/
def Raised (result : ResolutionResult σ) (key : String) : Prop :=
  ∃ adv ∈ result.advisories, adv.kind = .ambiguousMatch ∧ adv.localKey = key

def Close (S : Scoring σ) (proposed : List ProposedCapability) (registry : List CapabilityIdentity)
    (counts : Scored σ → Prop) (key bcId : String) (winner : σ) : Prop :=
  ∃ t, Other S proposed registry key bcId t ∧ counts t ∧ Within S winner t.total

/-- **A near tie**: the capability is attached to an existing identity, and another candidate of it
scored within epsilon of that one.  Which of the scores count is a parameter. -/
def NearTie (S : Scoring σ) (proposed : List ProposedCapability)
    (registry : List CapabilityIdentity) (counts : Scored σ → Prop) (result : ResolutionResult σ)
    (key : String) : Prop :=
  ∃ a ∈ result.attachments, a.localKey = key ∧ ∃ winner contributions,
    a.method = .matched winner contributions ∧
      Close S proposed registry counts key a.bcId winner

/-- **What keeps the advisory right**, where the capability is assigned a candidate: if an eligible
other scored above it by epsilon or more, another is within epsilon; and if one below the threshold
counts and is within epsilon, an eligible other scored less than epsilon below. -/
def Clear (S : Scoring σ) (proposed : List ProposedCapability) (registry : List CapabilityIdentity)
    (counts : Scored σ → Prop) (key : String) : Prop :=
  ∀ s, Chosen S proposed registry key s →
    (∀ t, Other S proposed registry key s.bcId t → S.tMatch ≤ t.total →
      S.near s.total t.total = true → S.near t.total s.total = false →
        Close S proposed registry counts key s.bcId s.total) ∧
    ∀ t, Other S proposed registry key s.bcId t → counts t → t.total < S.tMatch →
      Within S s.total t.total →
        ∃ u, Other S proposed registry key s.bcId u ∧ S.tMatch ≤ u.total ∧
          S.near s.total u.total = true

variable {S : Scoring σ} {proposed : List ProposedCapability} {registry : List CapabilityIdentity}
  {answers : List String} {result : ResolutionResult σ} {counts : Scored σ → Prop}

theorem head?_insertionSort_ge {l : List σ} {r : σ} (h : (l.insertionSort (· ≥ ·)).head? = some r) :
    r ∈ l ∧ ∀ t ∈ l, t ≤ r := by
  cases hl : l.insertionSort (· ≥ ·) with
  | nil =>
    rw [hl] at h
    cases h
  | cons a rest =>
    rw [hl] at h
    cases h
    have hsorted : (l.insertionSort (· ≥ ·)).Pairwise (· ≥ ·) := List.pairwise_insertionSort _ _
    have hmem : ∀ t, t ∈ l ↔ t ∈ r :: rest := fun t => by
      rw [← hl, List.mem_insertionSort]
    rw [hl] at hsorted
    refine ⟨(hmem r).mpr List.mem_cons_self, fun t ht => ?_⟩
    rcases List.mem_cons.mp ((hmem t).mp ht) with rfl | ht
    · exact le_rfl
    · exact List.rel_of_pairwise_cons hsorted ht

/-- **A runner-up no more than epsilon below the winner** is what `_maybe_ambiguous` reports. -/
theorem maybeAmbiguous_ne_nil_iff (hmono : NearMonotone S) {key bcId : String} {winner : σ}
    {eligible : List (Scored σ)} :
    (∃ adv ∈ maybeAmbiguous S key bcId winner eligible,
        adv.kind = .ambiguousMatch ∧ adv.localKey = key) ↔
      ∃ t ∈ eligible, t.localKey = key ∧ t.bcId ≠ bcId ∧ S.near winner t.total = true := by
  unfold maybeAmbiguous
  have hrunners : ∀ r,
      r ∈ (eligible.filter fun p => p.localKey = key ∧ p.bcId ≠ bcId).map (·.total) ↔
        ∃ t ∈ eligible, t.localKey = key ∧ t.bcId ≠ bcId ∧ t.total = r := by
    intro r
    simp [and_assoc]
  split
  · rename_i hnone
    refine iff_of_false (fun ⟨_, hadv, _⟩ => nomatch hadv) ?_
    rintro ⟨t, ht, hkey, hid, -⟩
    have hmem := (hrunners t.total).mpr ⟨t, ht, hkey, hid, rfl⟩
    rw [List.head?_eq_none_iff, ← List.length_eq_zero_iff, List.length_insertionSort,
      List.length_eq_zero_iff] at hnone
    rw [hnone] at hmem
    cases hmem
  · rename_i runner hrunner
    obtain ⟨hmem, hmax⟩ := head?_insertionSort_ge hrunner
    obtain ⟨t, ht, hkey, hid, rfl⟩ := (hrunners runner).mp hmem
    constructor
    · rintro ⟨adv, hadv, -⟩
      split_ifs at hadv with hnear
      · exact ⟨t, ht, hkey, hid, hnear⟩
      · cases hadv
    · rintro ⟨u, hu, hukey, huid, hnear⟩
      rw [if_pos (hmono winner _ _ (hmax _ ((hrunners _).mpr ⟨u, hu, hukey, huid, rfl⟩)) hnear)]
      exact ⟨_, List.mem_singleton_self _, rfl, rfl⟩

variable {p : ProposedCapability}

theorem kind_of_discoveryAdvisory {scored : Scores σ} {uncomputable claimedIds : List String}
    {candidates : List CapabilityIdentity} {newId : String} {adv : Advisory σ}
    (h : adv ∈ discoveryAdvisory S scored uncomputable claimedIds candidates p newId) :
    adv.kind ≠ .ambiguousMatch := by
  unfold discoveryAdvisory at h
  split at h
  · cases List.mem_singleton.mp h
    exact AdvisoryKind.noConfusion
  · split at h
    · cases List.mem_singleton.mp h
      exact AdvisoryKind.noConfusion
    · split at h
      · cases List.mem_singleton.mp h
        exact AdvisoryKind.noConfusion
      · cases h

theorem localKey_of_maybeAmbiguous {key bcId : String} {winner : σ} {eligible : List (Scored σ)}
    {adv : Advisory σ} (h : adv ∈ maybeAmbiguous S key bcId winner eligible) :
    adv.localKey = key := by
  unfold maybeAmbiguous at h
  split at h
  · cases h
  · split_ifs at h
    · cases List.mem_singleton.mp h
      rfl
    · cases h

theorem attach_cases {minted : List (String × String)}
    {r : IdentityAttachment σ × List (Advisory σ)}
    (h : attachIn S proposed registry minted p = .ok r) :
    (∃ s, Chosen S proposed registry p.localKey s ∧
      r = (⟨p.localKey, s.bcId, .matched s.total s.contributions⟩,
        maybeAmbiguous S p.localKey s.bcId s.total (eligibleIn S proposed registry))) ∨
    (assignedTo (assignedIn S proposed registry) p.localKey = none ∧
      r.1.method = .firstDiscovery ∧ ∀ adv ∈ r.2, adv.kind ≠ .ambiguousMatch) := by
  unfold attachIn attach at h
  split at h
  · rename_i bcId hassigned
    split at h
    · rename_i s hs
      obtain rfl := Except.ok.inj h
      have hid : s.bcId = bcId := (Prod.mk.inj (Table.find?_eq_some_iff.mp hs).2).2
      subst hid
      exact .inl ⟨s, ⟨hassigned, hs⟩, rfl⟩
    · exact nomatch h
  · rename_i hnone
    split at h
    · obtain rfl := Except.ok.inj h
      exact .inr ⟨hnone, rfl, fun adv hadv => kind_of_discoveryAdvisory hadv⟩
    · exact nomatch h

/-- **When the advisory is raised.** -/
theorem raised_iff (hmono : NearMonotone S) (h : resolve S proposed registry answers = .ok result)
    (hp : p ∈ proposed) :
    Raised result p.localKey ↔ ∃ s, Chosen S proposed registry p.localKey s ∧
      ∃ t, Other S proposed registry p.localKey s.bcId t ∧ S.tMatch ≤ t.total ∧
        S.near s.total t.total = true := by
  obtain ⟨-, minted, -, attached, hattached, rfl⟩ := resolve_eq_ok_iff.mp h
  have hrunner : ∀ s : Scored σ, (∃ t ∈ eligibleIn S proposed registry, t.localKey = p.localKey ∧
        t.bcId ≠ s.bcId ∧ S.near s.total t.total = true) ↔
      ∃ t, Other S proposed registry p.localKey s.bcId t ∧ S.tMatch ≤ t.total ∧
        S.near s.total t.total = true := by
    intro s
    refine exists_congr fun t => ?_
    rw [eligibleIn, List.mem_filter, decide_eq_true_eq, Other]
    constructor
    · rintro ⟨⟨hmem, hmatch⟩, hkey, hid, hnear⟩
      exact ⟨⟨hmem, hkey, hid⟩, hmatch, hnear⟩
    · rintro ⟨⟨hmem, hkey, hid⟩, hmatch, hnear⟩
      exact ⟨⟨hmem, hmatch⟩, hkey, hid, hnear⟩
  unfold Raised
  constructor
  · rintro ⟨adv, hadv, hkind, hkey⟩
    obtain ⟨r, hr, hadv⟩ := List.mem_flatMap.mp hadv
    obtain ⟨q, -, hq⟩ := (exists_of_mapM_eq_ok hattached).1 r hr
    rcases attach_cases hq with ⟨s, hchosen, rfl⟩ | ⟨-, -, hnone⟩
    · have hsame : q.localKey = p.localKey := (localKey_of_maybeAmbiguous hadv).symm.trans hkey
      rw [hsame] at hchosen hadv
      exact ⟨s, hchosen,
        (hrunner s).mp ((maybeAmbiguous_ne_nil_iff hmono).mp ⟨adv, hadv, hkind, hkey⟩)⟩
    · exact absurd hkind (hnone adv hadv)
  · rintro ⟨s, hchosen, hother⟩
    obtain ⟨adv, hadv, hkind⟩ := (maybeAmbiguous_ne_nil_iff hmono).mpr ((hrunner s).mpr hother)
    obtain ⟨r, hr, hattach⟩ := (exists_of_mapM_eq_ok hattached).2 p hp
    rcases attach_cases hattach with ⟨s', hchosen', rfl⟩ | ⟨hnone, -⟩
    · have hid : s'.bcId = s.bcId := Option.some.inj (hchosen'.1.symm.trans hchosen.1)
      have hs : s' = s := Option.some.inj ((hid ▸ hchosen'.2).symm.trans hchosen.2)
      exact ⟨adv, List.mem_flatMap.mpr ⟨_, hr, hs ▸ hadv⟩, hkind⟩
    · exact nomatch hnone.symm.trans hchosen.1

theorem nearTie_iff (h : resolve S proposed registry answers = .ok result) (hp : p ∈ proposed) :
    NearTie S proposed registry counts result p.localKey ↔
      ∃ s, Chosen S proposed registry p.localKey s ∧
        Close S proposed registry counts p.localKey s.bcId s.total := by
  obtain ⟨-, minted, -, attached, hattached, rfl⟩ := resolve_eq_ok_iff.mp h
  unfold NearTie
  constructor
  · rintro ⟨a, ha, hkey, winner, contributions, hmethod, hother⟩
    obtain ⟨r, hr, rfl⟩ := List.mem_map.mp ha
    obtain ⟨q, -, hq⟩ := (exists_of_mapM_eq_ok hattached).1 r hr
    rcases attach_cases hq with ⟨s, hchosen, rfl⟩ | ⟨-, hdiscovery, -⟩
    · obtain ⟨rfl, -⟩ := AttachMethod.matched.inj hmethod
      exact ⟨s, hkey ▸ hchosen, hother⟩
    · exact nomatch hmethod.symm.trans hdiscovery
  · rintro ⟨s, hchosen, hother⟩
    obtain ⟨r, hr, hattach⟩ := (exists_of_mapM_eq_ok hattached).2 p hp
    rcases attach_cases hattach with ⟨s', hchosen', rfl⟩ | ⟨hnone, -⟩
    · have hid : s'.bcId = s.bcId := Option.some.inj (hchosen'.1.symm.trans hchosen.1)
      have hs : s' = s := Option.some.inj ((hid ▸ hchosen'.2).symm.trans hchosen.2)
      subst hs
      exact ⟨_, List.mem_map_of_mem hr, rfl, _, _, rfl, hother⟩
    · exact nomatch hnone.symm.trans hchosen.1

/-! ## 2.  When it tells of a near tie -/

/-- **The advisory is raised for near ties only, and for each**, exactly if the capability is clear.
This holds of all its scores, of the eligible ones, and of whatever counts between the two. -/
theorem raised_iff_nearTie_iff (hmono : NearMonotone S) (proposed : List ProposedCapability)
    (registry : List CapabilityIdentity) (answers : List String) (result : ResolutionResult σ)
    (h : resolve S proposed registry answers = .ok result) (counts : Scored σ → Prop)
    (hcounts : ∀ t, S.tMatch ≤ t.total → counts t) (p : ProposedCapability) (hp : p ∈ proposed) :
    (Raised result p.localKey ↔ NearTie S proposed registry counts result p.localKey) ↔
      Clear S proposed registry counts p.localKey := by
  rw [raised_iff hmono h hp, nearTie_iff h hp]
  have hunique : ∀ s s', Chosen S proposed registry p.localKey s →
      Chosen S proposed registry p.localKey s' → s' = s := by
    intro s s' hs hs'
    have hid : s'.bcId = s.bcId := Option.some.inj (hs'.1.symm.trans hs.1)
    exact Option.some.inj ((hid ▸ hs'.2).symm.trans hs.2)
  constructor
  · intro hiff s hs
    refine ⟨fun t ht hmatch hnear _ => ?_, fun t ht hcount _ hwithin => ?_⟩
    · obtain ⟨s', hs', hclose⟩ := hiff.mp ⟨s, hs, t, ht, hmatch, hnear⟩
      obtain rfl := hunique s s' hs hs'
      exact hclose
    · obtain ⟨s', hs', u, hu, hmatch, hnear⟩ := hiff.mpr ⟨s, hs, t, ht, hcount, hwithin⟩
      obtain rfl := hunique s s' hs hs'
      exact ⟨u, hu, hmatch, hnear⟩
  · intro hclear
    constructor
    · rintro ⟨s, hs, t, ht, hmatch, hnear⟩
      by_cases hback : S.near t.total s.total = true
      · exact ⟨s, hs, t, ht, hcounts t hmatch, hnear, hback⟩
      · exact ⟨s, hs, (hclear s hs).1 t ht hmatch hnear (Bool.not_eq_true _ ▸ hback)⟩
    · rintro ⟨s, hs, t, ht, hcount, hwithin⟩
      by_cases hmatch : S.tMatch ≤ t.total
      · exact ⟨s, hs, t, ht, hmatch, hwithin.1⟩
      · obtain ⟨u, hu, hmatch', hnear⟩ := (hclear s hs).2 t ht hcount (not_le.mp hmatch) hwithin
        exact ⟨s, hs, u, hu, hmatch', hnear⟩

/-- Scores that are looked up: the stronger capability takes what the weaker scored best for. -/
def lookedUpScoring : Scoring ℤ where
  score := fun a b =>
    match a.tiers .contract, b.tiers .contract with
    | ["a"], ["1"] => some (90, [])
    | ["b"], ["1"] => some (80, [])
    | ["b"], ["2"] => some (60, [])
    | _, _ => none
  tMatch := 55
  near := fun winner r => winner - r < 5
  fixed := toString
  tMatchText := "55"
  epsilonText := "5"

theorem nearMonotone_lookedUpScoring : NearMonotone lookedUpScoring := by
  intro winner r r' hle hnear
  have hlt : winner - r < 5 := of_decide_eq_true hnear
  exact decide_eq_true (by omega)

def sampleCapability (localKey : String) : ProposedCapability :=
  ⟨localKey, .of (fun _ => [localKey]) .measured⟩

/-- Two stored capabilities, with what they were found by. -/
def sampleRegistry : List CapabilityIdentity :=
  [("BC-001", "1"), ("BC-002", "2")].map fun e =>
    { bcId := e.1, project := "shop", firstSeenRun := "run",
      fingerprint := .of (fun _ => [e.2]) .measured }

def sampleResult : ResolutionResult ℤ :=
  match resolve lookedUpScoring [sampleCapability "a", sampleCapability "b"] sampleRegistry [] with
  | .ok result => result
  | .error _ => {}

theorem resolve_sample : resolve lookedUpScoring [sampleCapability "a", sampleCapability "b"]
    sampleRegistry [] = .ok sampleResult := by
  have hok : (resolve lookedUpScoring [sampleCapability "a", sampleCapability "b"]
    sampleRegistry []).toOption.isSome = true := by decide +kernel
  unfold sampleResult
  split
  · assumption
  · rename_i herror
    rw [herror] at hok
    cases hok

theorem raised_iff_nearTie_iff_sample :
    (sampleResult.attachments.map fun a => (a.localKey, a.bcId)) =
      [("a", "BC-001"), ("b", "BC-002")] ∧
    ((Raised sampleResult "a" ↔ NearTie lookedUpScoring [sampleCapability "a", sampleCapability "b"]
        sampleRegistry (fun _ => True) sampleResult "a") ↔
      Clear lookedUpScoring [sampleCapability "a", sampleCapability "b"] sampleRegistry
        (fun _ => True) "a") := by
  refine ⟨by decide +kernel, ?_⟩
  exact raised_iff_nearTie_iff nearMonotone_lookedUpScoring _ _ _ _ resolve_sample (fun _ => True)
    (fun _ _ => trivial) (sampleCapability "a") List.mem_cons_self

/-- The second capability scored sixty for what it is attached to, and eighty for what the first was
given. -/
theorem claimed_runner_up :
    resolve lookedUpScoring [sampleCapability "a", sampleCapability "b"] sampleRegistry [] =
      .ok sampleResult ∧
    Raised sampleResult "b" ∧
    ¬ NearTie lookedUpScoring [sampleCapability "a", sampleCapability "b"] sampleRegistry
      (fun _ => True) sampleResult "b" := by
  refine ⟨resolve_sample, by unfold Raised; decide +kernel, ?_⟩
  have hb : sampleCapability "b" ∈ [sampleCapability "a", sampleCapability "b"] :=
    List.mem_cons_of_mem _ List.mem_cons_self
  intro htie
  obtain ⟨s, ⟨hassigned, hs⟩, t, ⟨ht, hkey, hid⟩, -, hwithin⟩ :=
    (nearTie_iff resolve_sample hb).mp htie
  have hid' : s.bcId = "BC-002" := Option.some.inj (hassigned.symm.trans (by decide +kernel))
  rw [hid'] at hs hid
  have htable : ((scoreAll lookedUpScoring (candidatesOf sampleRegistry) [sampleCapability "a",
      sampleCapability "b"]).find? ("b", "BC-002")).map (·.total) = some 60 := by decide +kernel
  have htotal : s.total = 60 := by
    have hfound := congrArg (Option.map Scored.total) hs
    exact Option.some.inj (hfound.symm.trans htable)
  have hfar : ∀ t ∈ scoresIn lookedUpScoring [sampleCapability "a", sampleCapability "b"]
      sampleRegistry, t.localKey = "b" → t.bcId ≠ "BC-002" → ¬ t.total - 60 < 5 := by
    decide +kernel
  exact hfar t ht hkey hid (of_decide_eq_true (htotal ▸ hwithin.2))

end Kroker.Matcher
