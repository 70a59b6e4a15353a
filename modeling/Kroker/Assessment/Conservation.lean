import Kroker.Assessment.Discover
import Kroker.Library.Except
import Mathlib.Data.List.Pairwise

/-!
# Discovery conserves members

The proposer may say anything: two verdicts for one candidate, none for another, merges in a circle,
splits that overlap, candidates that do not exist.  `stamp` demotes what does not stand, in several
passes, and `apply` takes what it leaves.

## 1.  What `stamp` leaves

`Settled`: one disposition for each candidate, every merge into a candidate that is confirmed, and
every split into parts with distinct names and disjoint values of the candidate's own.  A single
verdict stands only where its own check passed (`stampOne_cases`); the second pass changes no
disposition but a merge, so what was confirmed stays so (`confirmed_secondPass`), and one such pass
settles chains and circles too.

## 2.  What `apply` makes of it

The keys of a candidate's boundaries begin with its id (`owner_of_mem_keysOf`), so ids without `#`
keep the keys of different candidates apart.  Every lookup of `apply` then succeeds, and a boundary
holds exactly the members that some disposition puts under its key.
-/

namespace Kroker.Discover

variable {errorText : String → String} {context : DiscoverContext}

/-! ## 1.  What `stamp` leaves -/

theorem baseline_candidateId (c : CandidateContext) : (baseline c).candidateId = c.candidateId := by
  unfold baseline
  split
  · rfl
  · split <;> rfl

theorem baseline_action (c : CandidateContext) :
    (baseline c).action = .confirm ∨ (baseline c).action ∈ rejectingActions := by
  unfold baseline
  split
  · exact .inr (by simp [rejectingActions])
  · split
    · exact .inr (by simp [rejectingActions])
    · exact .inl rfl

variable {c : CandidateContext} {d : CandidateDisposition}

/-- **How a disposition comes out of the first pass.**  It is refused, or it is the verdict of the
only row, whose own check passed. -/
theorem stampOne_cases {rows : List ProposedDisposition}
    {known : Table CandidateContext.candidateId} {refusal : Option (String × String)}
    (h : stampOne errorText c rows known refusal = d) :
    d.candidateId = c.candidateId ∧
      (d.action = .flag ∨ ∃ proposed, rows = [proposed] ∧ refusal = none ∧
        d.action = proposed.action ∧ d.mergeInto = proposed.mergeInto ∧
        d.partitions = proposed.partitions ∧
        (d.action = .split → splitRefusal c proposed = "") ∧
        (d.action = .merge → mergeRefusal c proposed known = "")) := by
  unfold stampOne at h
  split at h
  · subst h
    exact ⟨rfl, .inl rfl⟩
  · rename_i hone
    split at h
    · subst h
      exact ⟨rfl, .inl rfl⟩
    · subst h
      exact ⟨rfl, .inl rfl⟩
    · rename_i proposed rest
      have hrest : rest = [] := by
        rw [totalEmitted, List.length_cons] at hone
        exact List.eq_nil_of_length_eq_zero (by omega)
      split at h
      · subst h
        exact ⟨rfl, .inl rfl⟩
      · rename_i hsplit
        split at h
        · subst h
          exact ⟨rfl, .inl rfl⟩
        · rename_i hmerge
          split at h
          · rename_i r hr
            subst h
            have hfields := CandidateDisposition.of_eq_ok hr
            have haction : r.action = proposed.action := by rw [hfields]
            refine ⟨by rw [hfields], .inr ⟨proposed, by rw [hrest], rfl, haction, by rw [hfields],
              by rw [hfields], ?_, ?_⟩⟩
            · intro hr
              by_contra hne
              exact hsplit ⟨haction ▸ hr, hne⟩
            · intro hr
              by_contra hne
              exact hmerge ⟨haction ▸ hr, hne⟩
          · subst h
            exact ⟨rfl, .inl rfl⟩

/-! ### Splits and merges that stand -/

structure Parts (c : CandidateContext) (parts : List SplitPartition) : Prop where
  names : (parts.map (·.name)).Nodup
  own : ∀ p ∈ parts, p.memberValues ≠ [] ∧ p.memberValues ⊆ c.members.map (·.value)
  disjoint : parts.Pairwise fun p q => ∀ v ∈ p.memberValues, v ∉ q.memberValues

theorem partsRefusal_eq_empty {own seen : List String} {parts : List SplitPartition}
    (h : partsRefusal own seen parts = "") :
    (∀ p ∈ parts, p.memberValues ≠ [] ∧ p.memberValues ⊆ own) ∧
      (∀ p ∈ parts, ∀ v ∈ p.memberValues, v ∉ seen) ∧
      parts.Pairwise fun p q => ∀ v ∈ p.memberValues, v ∉ q.memberValues := by
  induction parts generalizing seen with
  | nil => simp
  | cons part parts ih =>
    rw [partsRefusal] at h
    split at h
    · exact absurd h (by decide)
    · rename_i hmembers
      split at h
      · exact absurd h (by decide)
      · rename_i hoverlap
        obtain ⟨hown, hseen, hpairs⟩ := ih h
        rw [not_or, not_not] at hmembers
        refine ⟨List.forall_mem_cons.mpr ⟨hmembers, hown⟩, List.forall_mem_cons.mpr ⟨?_, ?_⟩,
          List.pairwise_cons.mpr ⟨?_, hpairs⟩⟩
        · exact fun v hv hin => hoverlap ⟨v, hv, hin⟩
        · exact fun p hp v hv hin => hseen p hp v hv (List.mem_append_left _ hin)
        · exact fun q hq v hv hin => hseen q hq v hin (List.mem_append_right _ hv)

theorem parts_of_splitRefusal {proposed : ProposedDisposition} (h : splitRefusal c proposed = "") :
    Parts c proposed.partitions := by
  unfold splitRefusal at h
  split at h
  · exact absurd h (by decide)
  · split at h
    · exact absurd h (by decide)
    · rename_i hnames
      obtain ⟨hown, -, hpairs⟩ := partsRefusal_eq_empty h
      exact ⟨not_not.mp hnames, hown, hpairs⟩

theorem ne_of_mergeRefusal {proposed : ProposedDisposition}
    {known : Table CandidateContext.candidateId} (h : mergeRefusal c proposed known = "")
    {target : String} (htarget : proposed.mergeInto = some target) : target ≠ c.candidateId := by
  unfold mergeRefusal at h
  rw [htarget] at h
  simp only at h
  intro heq
  rw [if_pos heq] at h
  exact absurd h (by decide)

/-! ### The second pass -/

theorem mem_confirmed_iff {ds : List CandidateDisposition} {id : String} :
    id ∈ confirmed ds ↔ ∃ d ∈ ds, d.action = .confirm ∧ d.candidateId = id := by
  simp only [confirmed, List.mem_map, List.mem_filter, decide_eq_true_eq, and_assoc]

theorem demote_candidateId (first : List CandidateDisposition) (d : CandidateDisposition) :
    (demote first d).candidateId = d.candidateId := by
  unfold demote
  split <;> rfl

theorem demote_cases (first : List CandidateDisposition) (d : CandidateDisposition) :
    (demote first d).action = .flag ∨
      demote first d = d ∧ (d.action = .merge → ∃ t ∈ confirmed first, d.mergeInto = some t) := by
  unfold demote
  split
  · exact .inl rfl
  · rename_i h
    refine .inr ⟨rfl, fun hmerge => ?_⟩
    by_contra hnone
    exact h ⟨hmerge, hnone⟩

theorem demote_of_ne_merge {first : List CandidateDisposition} (h : d.action ≠ .merge) :
    demote first d = d := by
  unfold demote
  rw [if_neg fun hmerge => h hmerge.1]

/-- **What was confirmed stays so**, and nothing else becomes so. -/
theorem confirmed_secondPass (first : List CandidateDisposition) {id : String} :
    id ∈ confirmed (secondPass first) ↔ id ∈ confirmed first := by
  rw [mem_confirmed_iff, mem_confirmed_iff, secondPass]
  constructor
  · rintro ⟨d, hd, hconfirm, rfl⟩
    obtain ⟨e, he, rfl⟩ := List.mem_map.mp hd
    rcases demote_cases first e with hflag | ⟨hsame, -⟩
    · rw [hflag] at hconfirm
      cases hconfirm
    · exact ⟨e, he, hsame ▸ hconfirm, (demote_candidateId first e).symm⟩
  · rintro ⟨d, hd, hconfirm, rfl⟩
    have hsame : demote first d = d := demote_of_ne_merge (by rw [hconfirm]; decide)
    exact ⟨d, List.mem_map.mpr ⟨d, hd, hsame⟩, hconfirm, rfl⟩

/-! ### Settled dispositions -/

/-- One disposition for each candidate, merges into confirmed candidates only, and splits that
stand. -/
structure Settled (context : DiscoverContext) (ds : List CandidateDisposition) : Prop where
  ids : ds.map (·.candidateId) = context.ids
  merges : ∀ d ∈ ds, d.action = .merge →
    ∃ t ∈ ds, t.action = .confirm ∧ d.mergeInto = some t.candidateId ∧
      t.candidateId ≠ d.candidateId
  splits : ∀ d ∈ ds, d.action = .split →
    ∃ c ∈ context.candidates, c.candidateId = d.candidateId ∧ Parts c d.partitions

theorem settled_baseline (context : DiscoverContext) :
    Settled context (baselineDispositions context) := by
  have haction : ∀ d ∈ baselineDispositions context, d.action ≠ .merge ∧ d.action ≠ .split := by
    intro d hd
    obtain ⟨c, -, rfl⟩ := List.mem_map.mp hd
    rcases baseline_action c with h | h
    · rw [h]
      decide
    · revert h
      generalize (baseline c).action = action
      cases action <;> decide
  refine ⟨?_, fun d hd h => absurd h (haction d hd).1, fun d hd h => absurd h (haction d hd).2⟩
  rw [baselineDispositions, List.map_map]
  exact List.map_congr_left fun c _ => baseline_candidateId c

/-- **The two passes settle every proposal.** -/
theorem settled_secondPass (context : DiscoverContext) (rows : List ProposedDisposition)
    (refusals : Dict (String × String)) :
    Settled context (secondPass (firstPass errorText context rows refusals)) := by
  have hfirst : ∀ d ∈ firstPass errorText context rows refusals, ∃ c ∈ context.candidates,
      stampOne errorText c (rowsFor rows c.candidateId) context.byId refusals[c.candidateId]? =
        d := fun d hd => List.mem_map.mp hd
  have hkept : ∀ d ∈ secondPass (firstPass errorText context rows refusals), d.action ≠ .flag →
      d ∈ firstPass errorText context rows refusals ∧
        (d.action = .merge →
          ∃ t ∈ confirmed (firstPass errorText context rows refusals), d.mergeInto = some t) := by
    intro d hd hflag
    obtain ⟨e, he, rfl⟩ := List.mem_map.mp hd
    rcases demote_cases (firstPass errorText context rows refusals) e with h | ⟨hsame, htarget⟩
    · exact absurd h hflag
    · rw [hsame]
      exact ⟨he, htarget⟩
  constructor
  · rw [secondPass, firstPass, List.map_map, List.map_map]
    refine List.map_congr_left fun c _ => ?_
    exact (demote_candidateId _ _).trans (stampOne_cases rfl).1
  · intro d hd hmerge
    obtain ⟨hin, htarget⟩ := hkept d hd (by rw [hmerge]; decide)
    obtain ⟨t, ht, hinto⟩ := htarget hmerge
    obtain ⟨e, he, hconfirm, rfl⟩ := mem_confirmed_iff.mp ((confirmed_secondPass _).mpr ht)
    refine ⟨e, he, hconfirm, hinto, ?_⟩
    obtain ⟨c, -, hstamp⟩ := hfirst d hin
    obtain ⟨hid, hflag | ⟨proposed, -, -, -, hmergeInto, -, -, hcheck⟩⟩ := stampOne_cases hstamp
    · rw [hmerge] at hflag
      cases hflag
    · rw [hid]
      exact ne_of_mergeRefusal (hcheck hmerge) (hmergeInto ▸ hinto)
  · intro d hd hsplit
    obtain ⟨hin, -⟩ := hkept d hd (by rw [hsplit]; decide)
    obtain ⟨c, hc, hstamp⟩ := hfirst d hin
    obtain ⟨hid, hflag | ⟨proposed, -, -, -, -, hpartitions, hcheck, -⟩⟩ := stampOne_cases hstamp
    · rw [hsplit] at hflag
      cases hflag
    · exact ⟨c, hc, hid.symm, hpartitions ▸ parts_of_splitRefusal (hcheck hsplit)⟩

theorem StampedProposal.of_eq_ok {ds : List CandidateDisposition} {unknown : List String}
    {dropped : ℕ} {stamped : StampedProposal}
    (h : StampedProposal.of ds unknown dropped = .ok stamped) : stamped.dispositions = ds := by
  unfold StampedProposal.of at h
  split at h
  · split at h
    · split at h
      · cases h
        rfl
      · cases h
    · cases h
  · cases h

theorem StampedProposal.exists_of_iff {ds : List CandidateDisposition} {unknown : List String}
    (hunknown : unknown.Pairwise (· < ·)) :
    (∃ stamped, StampedProposal.of ds unknown (droppedCount ds) = .ok stamped) ↔
      (ds.map (·.candidateId)).Pairwise (· < ·) := by
  constructor
  · rintro ⟨stamped, h⟩
    rw [← StampedProposal.of_eq_ok h]
    exact stamped.one_row_per_candidate
  · intro hrows
    unfold StampedProposal.of
    rw [dif_pos rfl, dif_pos hrows, dif_pos hunknown]
    exact ⟨_, rfl⟩

theorem droppedCount_baseline (context : DiscoverContext) :
    droppedCount (baselineDispositions context) = 0 := by
  rw [droppedCount, List.countP_eq_zero]
  intro d hd
  obtain ⟨c, -, rfl⟩ := List.mem_map.mp hd
  unfold baseline
  split
  · simp
  · split <;> simp

theorem pairwise_unknownIds (context : DiscoverContext) (rows : List ProposedDisposition)
    (refusals : Dict (String × String)) : (unknownIds context rows refusals).Pairwise (· < ·) :=
  (lists_sortedSet _).1

/-- **`stamp` accepts exactly the contexts whose candidates are listed by distinct ids.** -/
theorem exists_stamp_iff (context : DiscoverContext) (proposal : Option (List ProposedDisposition))
    (refusals : Dict (String × String)) :
    (∃ stamped, stamp errorText context proposal refusals = .ok stamped) ↔
      context.ids.Pairwise (· < ·) := by
  cases proposal with
  | none =>
    rw [stamp, ← droppedCount_baseline context, StampedProposal.exists_of_iff List.Pairwise.nil,
      (settled_baseline context).ids]
  | some rows =>
    rw [stamp, StampedProposal.exists_of_iff (pairwise_unknownIds context rows refusals),
      (settled_secondPass context rows refusals).ids]

/-- **What `stamp` leaves is settled.** -/
theorem settled_stamp {proposal : Option (List ProposedDisposition)}
    {refusals : Dict (String × String)} {stamped : StampedProposal}
    (h : stamp errorText context proposal refusals = .ok stamped) :
    Settled context stamped.dispositions := by
  cases proposal with
  | none =>
    rw [StampedProposal.of_eq_ok h]
    exact settled_baseline context
  | some rows =>
    rw [StampedProposal.of_eq_ok h]
    exact settled_secondPass context rows refusals

/-! ## 2.  What `apply` makes of it -/

def CandidateDisposition.Puts (d : CandidateDisposition) (m : CandidateMember) (key : String) :
    Prop :=
  match d.action with
  | .confirm => key = d.candidateId
  | .merge => d.mergeInto = some key
  | .split => ∃ p ∈ d.partitions, m.value ∈ p.memberValues ∧ key = d.candidateId ++ "#" ++ p.name
  | .deScope => False
  | .flag => False

variable {m : CandidateMember}

theorem puts_of_confirm (h : d.action = .confirm) {key : String} :
    d.Puts m key ↔ key = d.candidateId := by
  rw [CandidateDisposition.Puts, h]

theorem puts_of_merge (h : d.action = .merge) {key : String} :
    d.Puts m key ↔ d.mergeInto = some key := by
  rw [CandidateDisposition.Puts, h]

theorem puts_of_split (h : d.action = .split) {key : String} : d.Puts m key ↔
      ∃ p ∈ d.partitions, m.value ∈ p.memberValues ∧ key = d.candidateId ++ "#" ++ p.name := by
  rw [CandidateDisposition.Puts, h]

/-! ### The boundaries of one candidate -/

theorem mem_members_lockedPart {p : SplitPartition} :
    m ∈ (lockedPart c d p).members ↔ m ∈ c.members ∧ m.value ∈ p.memberValues := by
  rw [lockedPart, List.mem_filter, decide_eq_true_eq]

theorem lockedWhole_members (c : CandidateContext) (d : CandidateDisposition)
    (taken : List CandidateContext) : (lockedWhole c d taken).members =
      sortedBy CandidateMember.sortKey (c.members ++ taken.flatMap (·.members)).dedup := by
  unfold lockedWhole
  simp only
  split <;> rfl

theorem mem_members_lockedWhole {taken : List CandidateContext} :
    m ∈ (lockedWhole c d taken).members ↔ m ∈ c.members ∨ ∃ a ∈ taken, m ∈ a.members := by
  rw [lockedWhole_members, mem_sortedBy, List.mem_dedup, List.mem_append, List.mem_flatMap]

theorem lockedWhole_localKey (c : CandidateContext) (d : CandidateDisposition)
    (taken : List CandidateContext) : (lockedWhole c d taken).localKey = c.candidateId := by
  unfold lockedWhole
  simp only
  split <;> rfl

theorem lockedWhole_disposition (c : CandidateContext) (d : CandidateDisposition)
    (taken : List CandidateContext) : (lockedWhole c d taken).disposition = d := by
  unfold lockedWhole
  simp only
  split <;> rfl

theorem mem_boundaries_iff {taken : List CandidateContext} {b : LockedCandidate} :
    b ∈ boundaries c d taken ↔
      d.action = .confirm ∧ b = lockedWhole c d taken ∨
        d.action = .split ∧ ∃ p ∈ d.partitions, b = lockedPart c d p := by
  unfold boundaries
  cases haction : d.action with
  | confirm => simp [rejectingActions]
  | split => simp [rejectingActions, eq_comm]
  | merge => simp [rejectingActions]
  | deScope => simp [rejectingActions]
  | flag => simp [rejectingActions]

/-- The text before the first `#`. -/
def ownerOf (key : String) : List Char := key.toList.takeWhile (· ≠ '#')

theorem ownerOf_of_notMem {s : String} (h : '#' ∉ s.toList) : ownerOf s = s.toList := by
  rw [ownerOf, List.takeWhile_eq_self_iff]
  intro a ha
  rw [decide_eq_true_eq]
  exact fun heq => h (heq ▸ ha)

theorem ownerOf_append {s : String} (h : '#' ∉ s.toList) (name : String) :
    ownerOf (s ++ "#" ++ name) = s.toList := by
  have hsplit : (s ++ "#" ++ name).toList = s.toList ++ '#' :: name.toList := by
    rw [String.toList_append, String.toList_append, List.append_assoc]
    rfl
  rw [ownerOf, hsplit, List.takeWhile_append_of_pos, List.takeWhile_cons_of_neg, List.append_nil]
  · simp
  · intro a ha
    rw [decide_eq_true_eq]
    exact fun heq => h (heq ▸ ha)

/-- **The key of a boundary begins with the id of its candidate.** -/
theorem owner_of_mem_boundaries {taken : List CandidateContext} {b : LockedCandidate}
    (hhash : '#' ∉ c.candidateId.toList) (h : b ∈ boundaries c d taken) :
    ownerOf b.localKey = c.candidateId.toList := by
  rcases mem_boundaries_iff.mp h with ⟨-, rfl⟩ | ⟨-, p, -, rfl⟩
  · rw [lockedWhole_localKey, ownerOf_of_notMem hhash]
  · exact ownerOf_append hhash p.name

theorem nodup_keys_boundaries (taken : List CandidateContext)
    (hparts : d.action = .split → Parts c d.partitions) :
    ((boundaries c d taken).map (·.localKey)).Nodup := by
  unfold boundaries
  split
  · exact List.nodup_nil
  · split
    · rename_i hsplit
      have hkeys : (d.partitions.map (lockedPart c d)).map (·.localKey) =
          (d.partitions.map (·.name)).map fun name => c.candidateId ++ "#" ++ name := by
        rw [List.map_map, List.map_map]
        rfl
      rw [hkeys]
      refine (hparts hsplit).names.map fun name name' h => ?_
      have hlist := congrArg String.toList h
      simp only [String.toList_append] at hlist
      exact String.toList_inj.mp (List.append_cancel_left hlist)
    · exact List.nodup_singleton _

/-! ### The lookups succeed -/

section Apply

variable {stamped : StampedProposal}

theorem lookup_eq_ok_iff {α : Type} {key : α → String} {l : List α} (hnodup : (l.map key).Nodup)
    {k : String} {a : α} : lookup (Table.ofRows key l) k = .ok a ↔ a ∈ l ∧ key a = k := by
  rw [← Table.find?_ofRows_eq_some_iff hnodup, lookup]
  cases (Table.ofRows key l).find? k with
  | none => simp
  | some b => simp

theorem mem_merges_iff {target id : String} : (target, id) ∈ merges stamped ↔
    ∃ d ∈ stamped.dispositions, d.action = .merge ∧ d.mergeInto = some target ∧
      d.candidateId = id := by
  rw [merges, List.mem_filterMap]
  refine exists_congr fun d => and_congr_right fun _ => ?_
  by_cases hmerge : d.action = .merge
  · rw [if_pos hmerge, Option.map_eq_some_iff]
    constructor
    · rintro ⟨t, ht, hpair⟩
      obtain ⟨rfl, rfl⟩ := Prod.mk.inj hpair
      exact ⟨hmerge, ht, rfl⟩
    · rintro ⟨-, ht, rfl⟩
      exact ⟨target, ht, rfl⟩
  · rw [if_neg hmerge]
    exact iff_of_false (by simp) fun h => hmerge h.1

theorem Settled.exists_candidate (h : Settled context stamped.dispositions)
    {d : CandidateDisposition} (hd : d ∈ stamped.dispositions) :
    ∃ c ∈ context.candidates, c.candidateId = d.candidateId := by
  have hin : d.candidateId ∈ context.ids := h.ids ▸ List.mem_map_of_mem hd
  exact List.mem_map.mp hin

theorem Settled.exists_disposition (h : Settled context stamped.dispositions)
    {c : CandidateContext} (hc : c ∈ context.candidates) :
    ∃ d ∈ stamped.dispositions, d.candidateId = c.candidateId := by
  have hin : c.candidateId ∈ stamped.dispositions.map (·.candidateId) := by
    rw [h.ids]
    exact List.mem_map_of_mem hc
  exact List.mem_map.mp hin

theorem Settled.nodup (h : Settled context stamped.dispositions) :
    (context.candidates.map (·.candidateId)).Nodup := by
  have hstrict := stamped.one_row_per_candidate
  rw [h.ids] at hstrict
  exact nodup_of_strict hstrict

theorem exists_absorbed (h : Settled context stamped.dispositions) :
    ∃ rows, absorbed context stamped = .ok rows ∧ ∀ target a, (target, a) ∈ rows ↔
      ∃ d ∈ stamped.dispositions, d.action = .merge ∧ d.mergeInto = some target ∧
        a ∈ context.candidates ∧ a.candidateId = d.candidateId := by
  have hlookup : ∀ id a, lookup context.byId id = .ok a ↔
      a ∈ context.candidates ∧ a.candidateId = id := fun id a => lookup_eq_ok_iff h.nodup
  have hok : (absorbed context stamped).isOk = true := by
    refine isOk_mapM_iff.mpr fun m hm => ?_
    obtain ⟨d, hd, -, -, hid⟩ := mem_merges_iff.mp hm
    obtain ⟨c, hc, hcid⟩ := h.exists_candidate hd
    rw [isOk_map, (hlookup m.2 c).mpr ⟨hc, hcid.trans hid⟩]
    rfl
  cases hrows : absorbed context stamped with
  | error e =>
    rw [hrows] at hok
    cases hok
  | ok rows =>
    refine ⟨rows, rfl, fun target a => ?_⟩
    obtain ⟨hfrom, hto⟩ := exists_of_mapM_eq_ok hrows
    constructor
    · intro hin
      obtain ⟨⟨t, id⟩, hm, hmap⟩ := hfrom _ hin
      obtain ⟨c, hc, hpair⟩ := map_eq_ok.mp hmap
      obtain ⟨rfl, rfl⟩ := Prod.mk.inj hpair
      obtain ⟨d, hd, hmerge, hinto, rfl⟩ := mem_merges_iff.mp hm
      exact ⟨d, hd, hmerge, hinto, (hlookup _ _).mp hc⟩
    · rintro ⟨d, hd, hmerge, hinto, ha, hid⟩
      obtain ⟨r, hr, hmap⟩ := hto (target, d.candidateId)
        (mem_merges_iff.mpr ⟨d, hd, hmerge, hinto, rfl⟩)
      obtain ⟨c, hc, hpair⟩ := map_eq_ok.mp hmap
      obtain ⟨hcin, hcid⟩ := (hlookup _ _).mp hc
      have hsame : c = a := List.inj_on_of_nodup_map h.nodup hcin ha (hcid.trans hid.symm)
      rw [← hsame]
      exact hpair ▸ hr

theorem mem_takenBy_iff {rows : List (String × CandidateContext)} {id : String}
    {a : CandidateContext} : a ∈ takenBy rows id ↔ (id, a) ∈ rows := by
  rw [takenBy, List.mem_map]
  constructor
  · rintro ⟨⟨t, b⟩, hin, rfl⟩
    rw [List.mem_filter, decide_eq_true_eq] at hin
    exact hin.2 ▸ hin.1
  · exact fun hin => ⟨(id, a), List.mem_filter.mpr ⟨hin, decide_eq_true rfl⟩, rfl⟩

/-- **`apply` does not raise on what is settled**, and its boundaries are those of the
candidates. -/
theorem exists_apply (h : Settled context stamped.dispositions)
    (hhash : ∀ c ∈ context.candidates, '#' ∉ c.candidateId.toList)
    {rows : List (String × CandidateContext)} (hrows : absorbed context stamped = .ok rows) :
    ∃ applied, apply context stamped = .ok applied ∧ ∀ b, b ∈ applied.locked ↔
      ∃ c ∈ context.candidates, ∃ d ∈ stamped.dispositions, d.candidateId = c.candidateId ∧
        b ∈ boundaries c d (takenBy rows c.candidateId) := by
  -- The disposition of a candidate, and the boundaries it gives.
  let table : Table fun d : CandidateDisposition => d.candidateId :=
    Table.ofRows _ stamped.dispositions
  have hnodup : (stamped.dispositions.map (·.candidateId)).Nodup :=
    nodup_of_strict stamped.one_row_per_candidate
  have hfind : ∀ c ∈ context.candidates, ∃ d, d ∈ stamped.dispositions ∧
      d.candidateId = c.candidateId ∧ lookup table c.candidateId = .ok d := by
    intro c hc
    obtain ⟨d, hd, hid⟩ := h.exists_disposition hc
    exact ⟨d, hd, hid, (lookup_eq_ok_iff hnodup).mpr ⟨hd, hid⟩⟩
  have hinhabited : Nonempty CandidateDisposition := ⟨droppedDisposition "" "" ""⟩
  choose! dispositionOf hin hid hlookup using hfind
  let boundariesOf : CandidateContext → List LockedCandidate := fun c =>
    boundaries c (dispositionOf c) (takenBy rows c.candidateId)
  have hmap : (context.candidates.mapM fun c => (lookup table c.candidateId).map fun d =>
      boundaries c d (takenBy rows c.candidateId)) = .ok (context.candidates.map boundariesOf) := by
    refine mapM_eq_ok_map fun c hc => ?_
    rw [hlookup c hc]
    rfl
  have hkeys : ((context.candidates.map boundariesOf).flatten.map (·.localKey)).Nodup := by
    rw [List.map_flatten, List.map_map, ← List.flatMap_def, List.nodup_flatMap]
    constructor
    · intro c hc
      refine nodup_keys_boundaries _ fun hsplit => ?_
      obtain ⟨c', hc', hid', hparts⟩ := h.splits _ (hin c hc) hsplit
      have hsame : c' = c :=
        List.inj_on_of_nodup_map h.nodup hc' hc (hid'.trans (hid c hc))
      exact hsame ▸ hparts
    · refine (List.pairwise_map.mp h.nodup).imp_of_mem fun {c c'} hc hc' hne => ?_
      intro key hkey hkey'
      obtain ⟨b, hb, rfl⟩ := List.mem_map.mp hkey
      obtain ⟨b', hb', heq⟩ := List.mem_map.mp hkey'
      have howner := owner_of_mem_boundaries (hhash c hc) hb
      have howner' := owner_of_mem_boundaries (hhash c' hc') hb'
      have heq : b'.localKey = b.localKey := heq
      rw [heq, howner] at howner'
      exact hne (String.toList_inj.mp howner')
  refine ⟨⟨sortedBy (·.localKey) (context.candidates.map boundariesOf).flatten, stamped,
    sortedBy_strict hkeys⟩, ?_, ?_⟩
  · unfold apply
    rw [hrows]
    show Except.bind (context.candidates.mapM _) _ = _
    rw [show (context.candidates.mapM fun c => (lookup table c.candidateId).map fun d =>
      boundaries c d (takenBy rows c.candidateId)) = _ from hmap]
    show ApplyResult.of _ _ = _
    rw [ApplyResult.of, dif_pos (sortedBy_strict hkeys)]
  · intro b
    show b ∈ sortedBy _ _ ↔ _
    rw [mem_sortedBy, ← List.flatMap_def, List.mem_flatMap]
    refine exists_congr fun c => and_congr_right fun hc => ?_
    constructor
    · exact fun hb => ⟨dispositionOf c, hin c hc, hid c hc, hb⟩
    · rintro ⟨d, hd, hdid, hb⟩
      have hsame : d = dispositionOf c :=
        List.inj_on_of_nodup_map hnodup hd (hin c hc) (hdid.trans (hid c hc).symm)
      rw [hsame] at hb
      exact hb

/-! ## 3.  Conservation -/

structure Conserved (context : DiscoverContext) (stamped : StampedProposal)
    (applied : ApplyResult) : Prop where
  /-- Exactly one disposition for each candidate. -/
  one_each : stamped.dispositions.map (·.candidateId) = context.ids ∧ context.ids.Nodup
  /-- A merge is into another candidate, which is confirmed: no chains, no merge into itself. -/
  merges : ∀ d ∈ stamped.dispositions, d.action = .merge →
    ∃ t ∈ stamped.dispositions, t.action = .confirm ∧ d.mergeInto = some t.candidateId ∧
      t.candidateId ≠ d.candidateId
  /-- A boundary holds the members that some disposition puts under its key, and a member that a
  disposition puts somewhere is there. -/
  members : ∀ key m, (∃ b ∈ applied.locked, b.localKey = key ∧ m ∈ b.members) ↔
    ∃ c ∈ context.candidates, ∃ d ∈ stamped.dispositions, d.candidateId = c.candidateId ∧
      m ∈ c.members ∧ d.Puts m key
  /-- A member of a confirmed or merged candidate is put into exactly one boundary. -/
  whole : ∀ c ∈ context.candidates, ∀ d ∈ stamped.dispositions, d.candidateId = c.candidateId →
    d.action = .confirm ∨ d.action = .merge → ∀ m ∈ c.members,
      ∃! b, b ∈ applied.locked ∧ d.Puts m b.localKey ∧ m ∈ b.members
  /-- A member of a split candidate is in at most one of its parts. -/
  parts : ∀ d ∈ stamped.dispositions, d.action = .split → ∀ m, ∀ b ∈ applied.locked,
    ∀ b' ∈ applied.locked, b.disposition = d → b'.disposition = d → m ∈ b.members →
      m ∈ b'.members → b = b'
  /-- The local keys are unique. -/
  keys : (applied.locked.map (·.localKey)).Nodup

theorem eq_of_puts {d : CandidateDisposition} (h : d.action = .confirm ∨ d.action = .merge)
    {m : CandidateMember} {key key' : String} (hputs : d.Puts m key) (hputs' : d.Puts m key') :
    key = key' := by
  rcases h with h | h
  · exact ((puts_of_confirm h).mp hputs).trans ((puts_of_confirm h).mp hputs').symm
  · have hinto := (puts_of_merge h).mp hputs
    rw [(puts_of_merge h).mp hputs'] at hinto
    exact (Option.some.inj hinto).symm

/-- **What is settled is conserved.** -/
theorem exists_conserved (h : Settled context stamped.dispositions)
    (hhash : ∀ c ∈ context.candidates, '#' ∉ c.candidateId.toList) :
    ∃ applied, apply context stamped = .ok applied ∧ Conserved context stamped applied := by
  obtain ⟨rows, hrows, habsorbed⟩ := exists_absorbed h
  obtain ⟨applied, happly, hlocked⟩ := exists_apply h hhash hrows
  have hkeys : (applied.locked.map (·.localKey)).Nodup :=
    nodup_of_strict applied.local_keys_are_unique_and_sorted
  have hmembers : ∀ key m, (∃ b ∈ applied.locked, b.localKey = key ∧ m ∈ b.members) ↔
      ∃ c ∈ context.candidates, ∃ d ∈ stamped.dispositions, d.candidateId = c.candidateId ∧
        m ∈ c.members ∧ d.Puts m key := by
    intro key m
    constructor
    · rintro ⟨b, hb, rfl, hm⟩
      obtain ⟨c, hc, d, hd, hid, hin⟩ := (hlocked b).mp hb
      rcases mem_boundaries_iff.mp hin with ⟨hconfirm, rfl⟩ | ⟨hsplit, p, hp, rfl⟩
      · rw [lockedWhole_localKey]
        rcases mem_members_lockedWhole.mp hm with hm | ⟨a, ha, hm⟩
        · exact ⟨c, hc, d, hd, hid, hm, (puts_of_confirm hconfirm).mpr hid.symm⟩
        · obtain ⟨e, he, hmerge, hinto, hain, haid⟩ := (habsorbed _ _).mp (mem_takenBy_iff.mp ha)
          exact ⟨a, hain, e, he, haid.symm, hm, (puts_of_merge hmerge).mpr hinto⟩
      · obtain ⟨hm, hvalue⟩ := mem_members_lockedPart.mp hm
        exact ⟨c, hc, d, hd, hid, hm, (puts_of_split hsplit).mpr ⟨p, hp, hvalue, by rw [hid]; rfl⟩⟩
    · rintro ⟨c, hc, d, hd, hid, hm, hputs⟩
      cases haction : d.action with
      | confirm =>
        obtain rfl := (puts_of_confirm haction).mp hputs
        refine ⟨lockedWhole c d (takenBy rows c.candidateId), (hlocked _).mpr
          ⟨c, hc, d, hd, hid, mem_boundaries_iff.mpr (.inl ⟨haction, rfl⟩)⟩, ?_,
          mem_members_lockedWhole.mpr (.inl hm)⟩
        rw [lockedWhole_localKey, hid]
      | merge =>
        have hinto := (puts_of_merge haction).mp hputs
        obtain ⟨t, ht, hconfirm, htarget, -⟩ := h.merges d hd haction
        obtain rfl : key = t.candidateId := Option.some.inj (hinto.symm.trans htarget)
        obtain ⟨w, hw, hwid⟩ := h.exists_candidate ht
        refine ⟨lockedWhole w t (takenBy rows w.candidateId), (hlocked _).mpr
          ⟨w, hw, t, ht, hwid.symm, mem_boundaries_iff.mpr (.inl ⟨hconfirm, rfl⟩)⟩, ?_,
          mem_members_lockedWhole.mpr (.inr ⟨c, mem_takenBy_iff.mpr ?_, hm⟩)⟩
        · rw [lockedWhole_localKey, hwid]
        · rw [hwid]
          exact (habsorbed _ _).mpr ⟨d, hd, haction, hinto, hc, hid.symm⟩
      | split =>
        obtain ⟨p, hp, hvalue, rfl⟩ := (puts_of_split haction).mp hputs
        exact ⟨lockedPart c d p, (hlocked _).mpr
          ⟨c, hc, d, hd, hid, mem_boundaries_iff.mpr (.inr ⟨haction, p, hp, rfl⟩)⟩,
          by rw [hid]; rfl, mem_members_lockedPart.mpr ⟨hm, hvalue⟩⟩
      | deScope =>
        rw [CandidateDisposition.Puts, haction] at hputs
        exact hputs.elim
      | flag =>
        rw [CandidateDisposition.Puts, haction] at hputs
        exact hputs.elim
  refine ⟨applied, happly, ⟨h.ids, h.nodup⟩, h.merges, hmembers, ?_, ?_, hkeys⟩
  · intro c hc d hd hid haction m hm
    have hkey : ∃ key, d.Puts m key := by
      rcases haction with h | h
      · exact ⟨_, (puts_of_confirm h).mpr rfl⟩
      · obtain ⟨t, ht⟩ := d.exists_target h
        exact ⟨t, (puts_of_merge h).mpr ht⟩
    obtain ⟨key, hputs⟩ := hkey
    obtain ⟨b, hb, rfl, hmb⟩ := (hmembers key m).mpr ⟨c, hc, d, hd, hid, hm, hputs⟩
    refine ⟨b, ⟨hb, hputs, hmb⟩, fun b' ⟨hb', hputs', _⟩ => ?_⟩
    exact List.inj_on_of_nodup_map hkeys hb' hb (eq_of_puts haction hputs' hputs)
  · intro d hd hsplit m b hb b' hb' hbd hbd' hm hm'
    have hpart : ∀ x ∈ applied.locked, x.disposition = d → ∃ c ∈ context.candidates,
        c.candidateId = d.candidateId ∧ ∃ p ∈ d.partitions, x = lockedPart c d p := by
      intro x hx hxd
      obtain ⟨c, hc, e, -, hid, hin⟩ := (hlocked x).mp hx
      rcases mem_boundaries_iff.mp hin with ⟨hconfirm, rfl⟩ | ⟨-, p, hp, rfl⟩
      · rw [lockedWhole_disposition] at hxd
        rw [← hxd, hconfirm] at hsplit
        cases hsplit
      · obtain rfl : e = d := hxd
        exact ⟨c, hc, hid.symm, p, hp, rfl⟩
    obtain ⟨c, hc, hcid, p, hp, rfl⟩ := hpart b hb hbd
    obtain ⟨c', hc', hcid', p', hp', rfl⟩ := hpart b' hb' hbd'
    obtain rfl : c = c' := List.inj_on_of_nodup_map h.nodup hc hc' (hcid.trans hcid'.symm)
    obtain ⟨w, hw, hwid, hparts⟩ := h.splits d hd hsplit
    by_contra hne
    have hpp : p ≠ p' := fun heq => hne (heq ▸ rfl)
    have hsymm : Std.Symm fun p q : SplitPartition => ∀ v ∈ p.memberValues, v ∉ q.memberValues :=
      ⟨fun p q hpq v hv hin => hpq v hin hv⟩
    exact hparts.disjoint.forall hp hp' hpp m.value (mem_members_lockedPart.mp hm).2
      (mem_members_lockedPart.mp hm').2

end Apply

/-- **Discovery conserves members.**  In a context whose candidate ids have no `#`, `stamp` accepts
every proposal and every set of refusals as soon as the candidates are listed by distinct ids, and
what it returns `apply` turns into boundaries without raising, with everything conserved. -/
theorem discovery_conserves (errorText : String → String) (context : DiscoverContext)
    (hhash : ∀ c ∈ context.candidates, '#' ∉ c.candidateId.toList)
    (proposal : Option (List ProposedDisposition)) (refusals : Dict (String × String)) :
    ((∃ stamped, stamp errorText context proposal refusals = .ok stamped) ↔
        context.ids.Pairwise (· < ·)) ∧
      ∀ stamped, stamp errorText context proposal refusals = .ok stamped →
        ∃ applied, apply context stamped = .ok applied ∧ Conserved context stamped applied :=
  ⟨exists_stamp_iff context proposal refusals, fun _ h => exists_conserved (settled_stamp h) hhash⟩

/-- Four candidates; the proposer merges the second into the first and the third into the second,
and splits the fourth. -/
def sampleContext : DiscoverContext :=
  ⟨[{ candidateId := "C-01", name := "payments", confidence := .high,
      members := [{ kind := .httpRoute, value := "POST /pay", path := "pay.py" }] },
    { candidateId := "C-02", name := "billing", confidence := .medium,
      members := [{ kind := .dbTable, value := "invoices", path := "billing.py" }] },
    { candidateId := "C-03", name := "invoices", confidence := .low,
      members := [{ kind := .filePath, value := "invoice.py", path := "invoice.py" }] },
    { candidateId := "C-04", name := "users", confidence := .high,
      members := [{ kind := .httpRoute, value := "GET /users", path := "users.py" },
        { kind := .dbTable, value := "users", path := "users.py" }] }]⟩

def sampleProposal : List ProposedDisposition :=
  [{ candidateId := "C-01", action := .confirm, rationale := "one boundary" },
    { candidateId := "C-02", action := .merge, rationale := "the same flow",
      mergeInto := some "C-01" },
    { candidateId := "C-03", action := .merge, rationale := "the same table",
      mergeInto := some "C-02" },
    { candidateId := "C-04", action := .split, rationale := "two concerns",
      partitions := [⟨"api", ["GET /users"], by decide⟩, ⟨"store", ["users"], by decide⟩] }]

theorem discovery_conserves_sample :
    (∀ c ∈ sampleContext.candidates, '#' ∉ c.candidateId.toList) ∧
      ∃ stamped applied, stamp id sampleContext (some sampleProposal) ∅ = .ok stamped ∧
        apply sampleContext stamped = .ok applied ∧ Conserved sampleContext stamped applied := by
  have hhash : ∀ c ∈ sampleContext.candidates, '#' ∉ c.candidateId.toList := by decide
  have hsorted : sampleContext.ids.Pairwise (· < ·) := by decide
  obtain ⟨haccepts, hconserves⟩ :=
    discovery_conserves id sampleContext hhash (some sampleProposal) ∅
  obtain ⟨stamped, hstamped⟩ := haccepts.mpr hsorted
  obtain ⟨applied, happlied, hconserved⟩ := hconserves stamped hstamped
  exact ⟨hhash, stamped, applied, hstamped, happlied, hconserved⟩

/-! ### The contexts of the program -/

/-- `f"C-{i:02d}"`: the id S5 gives its candidate at index `i - 1`. -/
def mintedId (i : ℕ) : String := "C-" ++ (if i < 10 then "0" ++ toString i else toString i)

theorem mintedId_injective : Function.Injective mintedId := by
  intro i j h
  have hdigits : (if i < 10 then "0" ++ toString i else toString i) =
      if j < 10 then "0" ++ toString j else toString j := by
    have hlist := congrArg String.toList h
    rw [mintedId, mintedId, String.toList_append, String.toList_append] at hlist
    exact String.toList_inj.mp (List.append_cancel_left hlist)
  have hvalue : ∀ n : ℕ, intOf (if n < 10 then "0" ++ toString n else toString n) = n := by
    intro n
    split
    · have hzero : intOf ("0" ++ toString n) = intOf (toString n) := by
        rw [intOf, intOf, String.toList_append]
        rfl
      rw [hzero, intOf_toString]
    · exact intOf_toString n
  rw [← hvalue i, hdigits, hvalue j]

theorem notMem_mintedId (i : ℕ) : '#' ∉ (mintedId i).toList := by
  rw [mintedId, String.toList_append, List.mem_append, not_or]
  refine ⟨by decide, ?_⟩
  split
  · rw [String.toList_append, List.mem_append, not_or]
    exact ⟨by decide, notMem_toString (by decide) i⟩
  · exact notMem_toString (by decide) i

/-- `build_context`: the candidates of a scan, listed by their ids. -/
def buildContext (candidates : List CandidateContext) : DiscoverContext :=
  ⟨sortedBy (·.candidateId) candidates⟩

section Built

variable {candidates : List CandidateContext} (h : candidates.map (·.candidateId) =
  (List.range candidates.length).map fun i => mintedId (i + 1))

include h

theorem pairwise_buildContext : (buildContext candidates).ids.Pairwise (· < ·) := by
  refine sortedBy_strict ?_
  rw [h]
  exact List.nodup_range.map fun i j hij => Nat.succ_injective (mintedId_injective hij)

theorem notMem_buildContext {c : CandidateContext} (hc : c ∈ (buildContext candidates).candidates) :
    '#' ∉ c.candidateId.toList := by
  have hid : c.candidateId ∈ candidates.map (·.candidateId) :=
    List.mem_map_of_mem (mem_sortedBy.mp hc)
  rw [h] at hid
  obtain ⟨i, -, hi⟩ := List.mem_map.mp hid
  exact hi ▸ notMem_mintedId (i + 1)

/-- **Discovery runs through on every context the program builds**, whatever is proposed and
refused, and conserves the members: S5 numbers the candidates, and `build_context` sorts them. -/
theorem discovery_runs_through (errorText : String → String)
    (proposal : Option (List ProposedDisposition)) (refusals : Dict (String × String)) :
    ∃ stamped applied, stamp errorText (buildContext candidates) proposal refusals = .ok stamped ∧
      apply (buildContext candidates) stamped = .ok applied ∧
      Conserved (buildContext candidates) stamped applied := by
  obtain ⟨stamped, hstamped⟩ :=
    (exists_stamp_iff (buildContext candidates) proposal refusals).mpr (pairwise_buildContext h)
  obtain ⟨applied, happlied, hconserved⟩ :=
    exists_conserved (settled_stamp hstamped) fun c hc => notMem_buildContext h hc
  exact ⟨stamped, applied, hstamped, happlied, hconserved⟩

end Built

theorem discovery_runs_through_sample : ∃ stamped applied,
    stamp id (buildContext sampleContext.candidates) (some sampleProposal) ∅ = .ok stamped ∧
      apply (buildContext sampleContext.candidates) stamped = .ok applied ∧
      Conserved (buildContext sampleContext.candidates) stamped applied :=
  discovery_runs_through (by decide +kernel) id (some sampleProposal) ∅

end Kroker.Discover
