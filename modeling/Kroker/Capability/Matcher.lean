import Kroker.Capability.Store
import Kroker.Library.Except

/-!
# Resolving proposed capabilities to identities

`resolve` of `capability/matcher.py`: a greedy one-to-one assignment of stored identities, and a
minted id for every capability it leaves without one.

Scores are floating-point numbers, which the model does not embed: their type is a linear order, and
the four things the matcher does with them besides comparing them are the fields of `Scoring`.  The
injected `allocate` appears as the list of the answers its calls return, in order: other callers may
be served between two of them.  A call that raises ends the list, and `resolve` with it.

`firstDiscoveries` are the ids a result says were minted; `firstDiscoveries_nodup` is that they are
answers of distinct calls.
-/

namespace Kroker

/-- What the matcher does with scores. -/
structure Scoring (σ : Type) where
  /-- `score`, with the weights it is given. -/
  score : CapabilityFingerprint → CapabilityFingerprint → Option (σ × List (SignalTier × σ))
  /-- `t_match`. -/
  tMatch : σ
  /-- `winner - runner_up < epsilon`. -/
  near : σ → σ → Bool
  /-- A score in the format `.3f`. -/
  fixed : σ → String
  /-- `t_match` and `epsilon` in the advisories. -/
  tMatchText : String
  epsilonText : String

namespace Matcher

variable {σ : Type}

/-- An entry of `scored`. -/
structure Scored (σ : Type) where
  localKey : String
  bcId : String
  total : σ
  contributions : List (SignalTier × σ)

def Scored.primaryKey (s : Scored σ) : String × String := (s.localKey, s.bcId)

/-- The dictionary `scored`. -/
abbrev Scores (σ : Type) := Table (Scored.primaryKey (σ := σ))

/-- `scored[(local_key, bc_id)] = got`. -/
def setScore (scored : Scores σ) (s : Scored σ) : Scores σ :=
  (scored.modify s.primaryKey (fun _ => s) fun _ _ => rfl).insertNew s

def isMeasured (p : ProposedCapability) : Bool := p.fingerprint.collected = .measured

/-! ## 1. Scoring -/

def candidatesOf (registry : List CapabilityIdentity) : List CapabilityIdentity :=
  registry.filter (·.status ≠ .merged)

def scoresOf (S : Scoring σ) (candidates : List CapabilityIdentity) (p : ProposedCapability) :
    List (Scored σ) :=
  candidates.filterMap fun c =>
    (S.score p.fingerprint c.fingerprint).map fun got => ⟨p.localKey, c.bcId, got.1, got.2⟩

/-- `scored`. -/
def scoreAll (S : Scoring σ) (candidates : List CapabilityIdentity)
    (proposed : List ProposedCapability) : Scores σ :=
  (proposed.flatMap (scoresOf S candidates)).foldl setScore ∅

/-- `uncomputable`. -/
def uncomputableOf (S : Scoring σ) (candidates : List CapabilityIdentity)
    (proposed : List ProposedCapability) : List String :=
  (proposed.filter fun p => (scoresOf S candidates p).isEmpty && !isMeasured p).map (·.localKey)

def firstDuplicate : List String → List String → Option String
  | _, [] => none
  | seen, key :: keys => if key ∈ seen then some key else firstDuplicate (key :: seen) keys

/-! ## 2. Assigning -/

variable [LinearOrder σ]

/-- The order of `assign`: by falling score, then id, then key. -/
def before (a b : Scored σ) : Prop :=
  b.total < a.total ∨
    b.total = a.total ∧ (a.bcId < b.bcId ∨ a.bcId = b.bcId ∧ a.localKey ≤ b.localKey)

instance (a b : Scored σ) : Decidable (before a b) := by
  unfold before
  infer_instance

/-- One round of the loop of `assign`, with `out`: a claim is refused where either side is taken. -/
def assignStep (out : List (String × String)) (p : Scored σ) : List (String × String) :=
  if p.bcId ∈ out.map (·.2) ∨ p.localKey ∈ out.map (·.1) then out
  else out ++ [(p.localKey, p.bcId)]

/-- `assign`: from local keys to ids. -/
def assign (pairs : List (Scored σ)) : List (String × String) :=
  (pairs.insertionSort before).foldl assignStep []

def assignedTo (assigned : List (String × String)) (localKey : String) : Option String :=
  (assigned.find? (·.1 = localKey)).map (·.2)

/-! ## 3. Minting -/

/-- The keys `resolve` mints ids for, in the order it does. -/
def unassignedKeys (assigned : List (String × String)) (proposed : List ProposedCapability) :
    List String :=
  ((proposed.map (·.localKey)).filter fun k => assignedTo assigned k = none).insertionSort (· ≤ ·)

/-- `minted`: each key with the answer of its call of `allocate`; none where a call raised. -/
def mint : List String → List String → Option (List (String × String))
  | [], _ => some []
  | _ :: _, [] => none
  | key :: keys, answer :: answers => (mint keys answers).map ((key, answer) :: ·)

/-! ## 4. Advisories -/

/-- The first of `sorted(..., key=lambda m: (-m[1], m[0]))`. -/
def best (entries : List (String × σ)) : Option (String × σ) :=
  (entries.insertionSort fun a b => b.2 < a.2 ∨ b.2 = a.2 ∧ a.1 ≤ b.1).head?

def bestNearMiss (localKey : String) (scored : Scores σ) : Option (String × σ) :=
  best ((scored.rows.filter (·.localKey = localKey)).map fun s => (s.bcId, s.total))

def lostAboveThreshold (S : Scoring σ) (localKey : String) (scored : Scores σ)
    (claimedIds : List String) : Option String :=
  (best ((scored.rows.filter fun s =>
    s.localKey = localKey ∧ S.tMatch ≤ s.total ∧ s.bcId ∈ claimedIds).map fun s =>
      (s.bcId, s.total))).map (·.1)

def absorbedBy (S : Scoring σ) (bcId : String) (scored : Scores σ)
    (assigned : List (String × String)) : Option String :=
  (best ((scored.rows.filter fun s =>
    s.bcId = bcId ∧ S.tMatch ≤ s.total ∧ assignedTo assigned s.localKey ≠ none).map fun s =>
      (s.localKey, s.total))).bind fun winner => assignedTo assigned winner.1

def maybeAmbiguous (S : Scoring σ) (localKey bcId : String) (winner : σ)
    (eligible : List (Scored σ)) : List (Advisory σ) :=
  match (((eligible.filter fun p => p.localKey = localKey ∧ p.bcId ≠ bcId).map
      (·.total)).insertionSort (· ≥ ·)).head? with
  | none => []
  | some runner =>
    if S.near winner runner then
      [{ kind := .ambiguousMatch, localKey, relatedBcId := some bcId, score := some winner,
         detail := "runner-up scored " ++ S.fixed runner ++ " against winner " ++
           S.fixed winner ++ ", within epsilon=" ++ S.epsilonText ++
           "; decided deterministically and reversible by correction" }]
    else []

def discoveryAdvisory (S : Scoring σ) (scored : Scores σ) (uncomputable claimedIds : List String)
    (candidates : List CapabilityIdentity) (p : ProposedCapability) (newId : String) :
    List (Advisory σ) :=
  if p.localKey ∈ uncomputable then
    [{ kind := .identityNotAssessed, localKey := p.localKey,
       detail := "fingerprint not collected (" ++ p.fingerprint.collected.reason ++
         "); identity was not assessed and " ++ newId ++ " was minted" }]
  else
    match lostAboveThreshold S p.localKey scored claimedIds with
    | some lostTo =>
      [{ kind := .split, localKey := p.localKey, relatedBcId := some lostTo,
         score := (scored.find? (p.localKey, lostTo)).map (·.total),
         detail := lostTo ++ " also matched this capability above threshold but was claimed by a " ++
           "stronger match; " ++ newId ++ " minted as a split of " ++ lostTo }]
    | none =>
      match if candidates = [] then none else bestNearMiss p.localKey scored with
      | some (nearId, nearScore) =>
        [{ kind := .possibleRename, localKey := p.localKey, relatedBcId := some nearId,
           score := some nearScore,
           detail := "closest stored capability " ++ nearId ++ " scored " ++ S.fixed nearScore ++
             ", below t_match=" ++ S.tMatchText ++ "; " ++ newId ++ " minted" }]
      | none => []

/-! ## 5. Resolving -/

/-- One round of the attachment loop: the capability's attachment and its advisories. -/
def attach (S : Scoring σ) (scored : Scores σ) (eligible : List (Scored σ))
    (uncomputable : List String) (candidates : List CapabilityIdentity)
    (assigned minted : List (String × String)) (p : ProposedCapability) :
    Except CapabilityError (IdentityAttachment σ × List (Advisory σ)) :=
  match assignedTo assigned p.localKey with
  | some bcId =>
    match scored.find? (p.localKey, bcId) with
    | some s =>
      .ok (⟨p.localKey, bcId, .matched s.total s.contributions⟩,
        maybeAmbiguous S p.localKey bcId s.total eligible)
    | none => .error (.key p.localKey)
  | none =>
    match assignedTo minted p.localKey with
    | some newId =>
      .ok (⟨p.localKey, newId, .firstDiscovery⟩,
        discoveryAdvisory S scored uncomputable (assigned.map (·.2)) candidates p newId)
    | none => .error (.key p.localKey)

def resolve (S : Scoring σ) (proposed : List ProposedCapability)
    (registry : List CapabilityIdentity) (answers : List String) :
    Except CapabilityError (ResolutionResult σ) := do
  let candidates := candidatesOf registry
  if let some key := firstDuplicate [] (proposed.map (·.localKey)) then
    throw (.value ("duplicate local_key '" ++ key ++ "' in proposed; local_key is the caller's " ++
      "per-assessment handle and must be unique across one resolve() call"))
  let scored := scoreAll S candidates proposed
  let uncomputable := uncomputableOf S candidates proposed
  let eligible := scored.rows.filter (S.tMatch ≤ ·.total)
  let assigned := assign eligible
  let some minted := mint (unassignedKeys assigned proposed) answers |
    throw (.value "allocate")
  let attached ← proposed.mapM
    (attach S scored eligible uncomputable candidates assigned minted)
  let unclaimed := candidates.filter (·.bcId ∉ assigned.map (·.2))
  return {
    attachments := attached.map (·.1)
    advisories := attached.flatMap (·.2)
    merged := Dict.ofItems (unclaimed.filterMap fun c =>
      (absorbedBy S c.bcId scored assigned).map fun winner => (c.bcId, winner))
    retired := ((unclaimed.filter fun c =>
      absorbedBy S c.bcId scored assigned = none ∧ c.status = .active).map
        (·.bcId)).insertionSort (· ≤ ·) }

/-! ## 6. What a result minted -/

def discovered (a : IdentityAttachment σ) : Option String :=
  match a.method with
  | .firstDiscovery => some a.bcId
  | _ => none

omit [LinearOrder σ] in
theorem discovered_eq_some {a : IdentityAttachment σ} {id : String} :
    discovered a = some id ↔ a.method = .firstDiscovery ∧ a.bcId = id := by
  unfold discovered
  split
  · rename_i hmethod
    exact ⟨fun h => ⟨hmethod, Option.some.inj h⟩, fun h => congrArg some h.2⟩
  · rename_i hmethod
    exact ⟨fun h => (nomatch h), fun h => absurd h.1 hmethod⟩

def firstDiscoveries (result : ResolutionResult σ) : List String :=
  result.attachments.filterMap discovered

theorem nodup_of_firstDuplicate {seen keys : List String} (h : firstDuplicate seen keys = none) :
    keys.Nodup ∧ ∀ k ∈ keys, k ∉ seen := by
  induction keys generalizing seen with
  | nil => exact ⟨List.nodup_nil, nofun⟩
  | cons key keys ih =>
    rw [firstDuplicate] at h
    split at h
    · exact nomatch h
    · rename_i hkey
      obtain ⟨hnodup, hnew⟩ := ih h
      refine ⟨List.nodup_cons.mpr ⟨fun hk => hnew key hk List.mem_cons_self, hnodup⟩, ?_⟩
      intro k hk
      rcases List.mem_cons.mp hk with rfl | hk
      · exact hkey
      · exact fun hseen => hnew k hk (List.mem_cons_of_mem _ hseen)

theorem mint_sublist {keys answers : List String} {minted : List (String × String)}
    (h : mint keys answers = some minted) : (minted.map (·.2)).Sublist answers := by
  induction keys generalizing answers minted with
  | nil =>
    rw [mint, Option.some.injEq] at h
    exact h ▸ List.nil_sublist _
  | cons key keys ih =>
    cases answers with
    | nil => exact nomatch h
    | cons answer answers =>
      rw [mint, Option.map_eq_some_iff] at h
      obtain ⟨rest, hrest, rfl⟩ := h
      exact (ih hrest).cons_cons answer

theorem mem_of_assignedTo {entries : List (String × String)} {key id : String}
    (h : assignedTo entries key = some id) : (key, id) ∈ entries := by
  rw [assignedTo, Option.map_eq_some_iff] at h
  obtain ⟨e, he, rfl⟩ := h
  have hkey := List.find?_some he
  rw [decide_eq_true_eq] at hkey
  exact hkey ▸ List.mem_of_find?_eq_some he

theorem attach_spec {S : Scoring σ} {scored : Scores σ} {eligible : List (Scored σ)}
    {uncomputable : List String} {candidates : List CapabilityIdentity}
    {assigned minted : List (String × String)} {p : ProposedCapability}
    {r : IdentityAttachment σ × List (Advisory σ)}
    (h : attach S scored eligible uncomputable candidates assigned minted p = .ok r) :
    r.1.localKey = p.localKey ∧
      (r.1.method = .firstDiscovery → assignedTo minted r.1.localKey = some r.1.bcId) := by
  unfold attach at h
  split at h
  · split at h
    · obtain rfl := Except.ok.inj h
      exact ⟨rfl, fun hmethod => nomatch hmethod⟩
    · exact nomatch h
  · split at h
    · rename_i newId hnew
      obtain rfl := Except.ok.inj h
      exact ⟨rfl, fun _ => hnew⟩
    · exact nomatch h

theorem exists_of_resolve {S : Scoring σ} {proposed : List ProposedCapability}
    {registry : List CapabilityIdentity} {answers : List String} {result : ResolutionResult σ}
    (h : resolve S proposed registry answers = .ok result) :
    (proposed.map (·.localKey)).Nodup ∧
      result.attachments.map (·.localKey) = proposed.map (·.localKey) ∧
      ∃ keys minted, mint keys answers = some minted ∧ ∀ a ∈ result.attachments,
        a.method = .firstDiscovery → assignedTo minted a.localKey = some a.bcId := by
  unfold resolve at h
  simp only at h
  split at h
  · exact nomatch h
  · rename_i hduplicate
    have hnodup := (nodup_of_firstDuplicate
      (Option.eq_none_iff_forall_ne_some.mpr hduplicate)).1
    split at h
    · rename_i minted hminted
      obtain ⟨attached, hattached, hresult⟩ := bind_eq_ok.mp h
      obtain rfl := Except.ok.inj hresult
      refine ⟨hnodup, ?_, _, minted, hminted, ?_⟩
      · rw [List.map_map, ← List.forall₂_eq_eq_eq, List.forall₂_map_left_iff,
          List.forall₂_map_right_iff]
        exact (forall₂_of_mapM_eq_ok hattached).flip.imp fun r p hr => (attach_spec hr).1
      · intro a ha
        obtain ⟨r, hr, rfl⟩ := List.mem_map.mp ha
        exact forall_mem_of_mapM_eq_ok hattached (fun p r hr => (attach_spec hr).2) r hr
    · exact nomatch h

/-- **The first discoveries of a result are answers of distinct calls of `allocate`.** -/
theorem firstDiscoveries_nodup {S : Scoring σ} {proposed : List ProposedCapability}
    {registry : List CapabilityIdentity} {answers : List String} {result : ResolutionResult σ}
    (h : resolve S proposed registry answers = .ok result) (hanswers : answers.Nodup) :
    (firstDiscoveries result).Nodup ∧ ∀ id ∈ firstDiscoveries result, id ∈ answers := by
  obtain ⟨hnodup, hlocal, keys, minted, hminted, hfirst⟩ := exists_of_resolve h
  have hids : (minted.map (·.2)).Nodup := hanswers.sublist (mint_sublist hminted)
  have hentry : ∀ a ∈ result.attachments, a.method = .firstDiscovery →
      (a.localKey, a.bcId) ∈ minted := fun a ha hmethod => mem_of_assignedTo (hfirst a ha hmethod)
  refine ⟨?_, ?_⟩
  · rw [firstDiscoveries, List.Nodup, List.pairwise_filterMap]
    rw [← hlocal, List.Nodup, List.pairwise_map] at hnodup
    refine hnodup.imp_of_mem fun {a b} ha hb hne id hid id' hid' hsame => hne ?_
    obtain ⟨hmethod, rfl⟩ := discovered_eq_some.mp hid
    obtain ⟨hmethod', rfl⟩ := discovered_eq_some.mp hid'
    -- One id is the answer of one call, and so was minted for one key.
    exact congrArg Prod.fst (List.inj_on_of_nodup_map hids (hentry a ha hmethod)
      (hentry b hb hmethod') hsame)
  · intro id hid
    obtain ⟨a, ha, hid⟩ := List.mem_filterMap.mp hid
    obtain ⟨hmethod, rfl⟩ := discovered_eq_some.mp hid
    exact (mint_sublist hminted).subset (List.mem_map_of_mem (hentry a ha hmethod))

end Matcher

end Kroker
