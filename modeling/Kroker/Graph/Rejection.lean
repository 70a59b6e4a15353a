import Kroker.Graph.RouterSafety

/-!
# What `advance` rejects

An emission is impossible where its id was never issued, its port is not an out-port of the node, or
its activation has finished otherwise (`Impossible`).  The router should raise `RouterError` on
these and on nothing else, and raise nothing else.

The router reads the round back from the id with `int`, after `isdigit`, and the two do not agree: a
superscript is a digit to `isdigit`, and `int` refuses it, as it refuses a numeral of more than 4300
digits.  `advanceOrRaise` is `advance` with the exceptions told apart; it returns the steps that
`advance` returns (`advance_of_advanceOrRaise`).
-/

namespace Kroker

namespace GraphRouter

/-- What `advance` raises: a `RouterError`, or the `ValueError` of `int`. -/
inductive AdvanceError where
  | router (message : String)
  | value (message : String)
  deriving DecidableEq

variable (D : UnicodeDigits) (t : Topology)

/-- `_issued_node`, with what it raises. -/
def issuedNodeOrRaise (w : RouterState) (activationId : String) : Except AdvanceError String :=
  let (nodeId, sep, k) := rpartition activationId '#'
  if sep = "#" && nodeId ∈ w.nodes && D.isDigits k then
    match D.intOf k with
    | .error message => .error (.value message)
    | .ok round =>
      if 1 ≤ round && round ≤ (w.node nodeId).round then .ok nodeId
      else .error (.router s!"{quoted activationId} was never issued")
  else .error (.router s!"{quoted activationId} was never issued")

/-- `advance` on an emission, with what it raises. -/
def advanceOrRaise (w : RouterState) (event : Emitted) : Except AdvanceError Step :=
  (issuedNodeOrRaise D w event.activationId).bind fun nodeId =>
    (applyEmitted t w event nodeId).mapError .router

/-- An emission that no handler of an issued activation can have made. -/
def Impossible (w : RouterState) (e : Emitted) : Prop :=
  (∀ n ∈ t.nodeIds, ∀ k, 1 ≤ k → k ≤ (w.node n).round → e.activationId ≠ gateKey n k) ∨
    e.port ∉ t.outPortsOf (nodeOf e.activationId) ∨
    ∃ applied ∈ w.emissions, applied.activationId = e.activationId ∧
      (applied.port, applied.payloadRef) ≠ (e.port, e.payloadRef)

/-- `int` reads the round of an id: it is not asked to, or has decimal digits only, and few
enough. -/
def Legible (w : RouterState) (activationId : String) : Prop :=
  let (nodeId, sep, k) := rpartition activationId '#'
  sep = "#" → nodeId ∈ w.nodes → D.isDigits k = true →
    k.length ≤ 4300 ∧ ∀ c ∈ k.toList, (D.value c).isSome = true

def Finished (w : RouterState) (activationId : String) : Prop :=
  ∃ e ∈ w.emissions, e.activationId = activationId

/-- The id is in exactly one of the three places. -/
structure IssuedOnce (w : RouterState) (activationId : String) : Prop where
  somewhere : activationId ∈ w.live ∨ activationId ∈ w.retired ∨ Finished w activationId
  live_retired : ¬(activationId ∈ w.live ∧ activationId ∈ w.retired)
  live_finished : ¬(activationId ∈ w.live ∧ Finished w activationId)
  retired_finished : ¬(activationId ∈ w.retired ∧ Finished w activationId)

/-- What the router should do with an emission. -/
structure RejectsImpossible (w : RouterState) (e : Emitted) : Prop where
  returns_or_rejects : (∃ s, advanceOrRaise D t w e = .ok s) ∨
    ∃ message, advanceOrRaise D t w e = .error (.router message)
  rejects_iff : (∃ message, advanceOrRaise D t w e = .error (.router message)) ↔ Impossible t w e
  issued_once : ∀ n ∈ t.nodeIds, ∀ k, 1 ≤ k → k ≤ (w.node n).round → IssuedOnce w (gateKey n k)

variable {D t}

variable {w : RouterState}

/-- **The id of every issued activation is in one of the three places, and only in one.** -/
theorem issued_once (h : Accounted t w) {n : String} (hn : n ∈ t.nodeIds) {k : ℕ} (h1 : 1 ≤ k)
    (hk : k ≤ (w.node n).round) : IssuedOnce w (gateKey n k) where
  somewhere := h.issued n hn k h1 hk
  live_retired := fun ⟨hlive, hretired⟩ => (h.retired _ hretired).1 hlive
  live_finished := by
    rintro ⟨hlive, e, he, hid⟩
    exact (h.emitted e he).1 (hid ▸ hlive)
  retired_finished := by
    rintro ⟨hretired, e, he, hid⟩
    exact (h.emitted e he).2.1 (hid ▸ hretired)

/-! ## Reading an id -/

theorem issuedNode_illegible {activationId : String} (h : ¬Legible D w activationId) :
    ∃ message, issuedNodeOrRaise D w activationId = .error (.value message) := by
  unfold Legible at h
  unfold issuedNodeOrRaise
  dsimp only at h ⊢
  push Not at h
  obtain ⟨hsep, hnode, hdigits, hlong⟩ := h
  rw [if_pos (by simp [hsep, hnode, hdigits])]
  cases hint : D.intOf (rpartition activationId '#').2.2 with
  | error message => exact ⟨message, rfl⟩
  | ok round =>
    obtain ⟨hshort, hvalues⟩ := D.exists_intOf_iff.mp ⟨round, hint⟩
    obtain ⟨c, hc, hnone⟩ := hlong hshort
    exact absurd (hvalues c hc) hnone

theorem issuedNode_legible {activationId : String} (h : Legible D w activationId) :
    issuedNodeOrRaise D w activationId = .ok (nodeOf activationId) ∨
      ∃ message, issuedNodeOrRaise D w activationId = .error (.router message) := by
  unfold Legible at h
  unfold issuedNodeOrRaise
  dsimp only at h ⊢
  split
  · rename_i hread
    simp only [Bool.and_eq_true, decide_eq_true_eq] at hread
    obtain ⟨round, hround⟩ := D.exists_intOf_iff.mpr (h hread.1.1 hread.1.2 hread.2)
    rw [hround]
    dsimp only
    split
    · exact Or.inl rfl
    · exact Or.inr ⟨_, rfl⟩
  · exact Or.inr ⟨_, rfl⟩

theorem issuedNode_gateKey_legible {n : String} {k : ℕ} (hn : n ∈ w.nodes) (h1 : 1 ≤ k)
    (hk : k ≤ (w.node n).round) (h : Legible D w (gateKey n k)) :
    issuedNodeOrRaise D w (gateKey n k) = .ok n := by
  have hascii : ∀ c ∈ (toString k).toList, c.isDigit = true := by
    have hdigits := isDigits_toString k
    rw [isDigits, Bool.and_eq_true, List.all_eq_true] at hdigits
    exact hdigits.2
  have hdigits : D.isDigits (toString k) = true := by
    have hnonempty := isDigits_toString k
    rw [isDigits, Bool.and_eq_true] at hnonempty
    rw [UnicodeDigits.isDigits, Bool.and_eq_true, List.all_eq_true]
    exact ⟨hnonempty.1, fun c hc => D.isDigit_ascii c (hascii c hc)⟩
  unfold Legible at h
  rw [rpartition_gateKey] at h
  obtain ⟨hshort, -⟩ := h rfl hn hdigits
  have hint : D.intOf (toString k) = .ok k := by
    rw [UnicodeDigits.intOf, if_neg (Nat.not_lt.mpr hshort), D.valueOf_of_isDigit hascii]
    exact congrArg Except.ok (intOf_toString k)
  unfold issuedNodeOrRaise
  rw [rpartition_gateKey]
  dsimp only
  rw [hdigits, Bool.and_true, if_pos (by simp [hn]), hint]
  dsimp only
  rw [if_pos (by simp [h1, hk])]

/-! ## What is raised -/

theorem impossible_gateKey_iff {e : Emitted} {n : String} {k : ℕ} (hn : n ∈ t.nodeIds) (h1 : 1 ≤ k)
    (hk : k ≤ (w.node n).round) (hid : e.activationId = gateKey n k) :
    Impossible t w e ↔ e.port ∉ t.outPortsOf n ∨
      ∃ applied ∈ w.emissions, applied.activationId = e.activationId ∧
        (applied.port, applied.payloadRef) ≠ (e.port, e.payloadRef) := by
  unfold Impossible
  rw [or_iff_right fun hnever => hnever n hn k h1 hk hid]
  rw [hid, nodeOf_gateKey]

/-- What becomes of an emission whose id names a node. -/
theorem applyEmitted_cases (e : Emitted) (n : String) :
    (e.port ∉ t.outPortsOf n ∧ ∃ message, applyEmitted t w e n = .error message) ∨
    (e.port ∈ t.outPortsOf n ∧ (e.activationId ∈ w.live ∨ e.activationId ∈ w.retired) ∧
      ∃ s, applyEmitted t w e n = .ok s) ∨
    (e.port ∈ t.outPortsOf n ∧ e.activationId ∉ w.live ∧ e.activationId ∉ w.retired ∧
      ((¬Finished w e.activationId ∧ ∃ message, applyEmitted t w e n = .error message) ∨
        ∃ applied ∈ w.emissions, applied.activationId = e.activationId ∧
          if applied.port = e.port ∧ applied.payloadRef = e.payloadRef then
            ∃ s, applyEmitted t w e n = .ok s
          else ∃ message, applyEmitted t w e n = .error message)) := by
  unfold applyEmitted
  cases hport : (t.outPortsOf n)[e.port]? with
  | none => exact Or.inl ⟨(Dict.notMem_iff_get? _ _).mpr hport, _, rfl⟩
  | some edges =>
    have hmem : e.port ∈ t.outPortsOf n := (Dict.mem_iff_get? _ _).mpr ⟨edges, hport⟩
    right
    dsimp only
    cases hlive : w.live[e.activationId]? with
    | some l =>
      refine Or.inl ⟨hmem, Or.inl ((Dict.mem_iff_get? _ _).mpr ⟨l, hlive⟩), ?_⟩
      dsimp only
      split
      · exact ⟨_, rfl⟩
      · exact ⟨_, rfl⟩
    | none =>
      dsimp only
      unfold notLive
      by_cases hretired : e.activationId ∈ w.retired
      · refine Or.inl ⟨hmem, Or.inr hretired, ?_⟩
        rw [if_pos hretired]
        exact ⟨_, rfl⟩
      · refine Or.inr ⟨hmem, (Dict.notMem_iff_get? _ _).mpr hlive, hretired, ?_⟩
        rw [if_neg hretired]
        cases hfind : w.emissions.find? fun x => x.activationId = e.activationId with
        | none =>
          refine Or.inl ⟨?_, _, rfl⟩
          rintro ⟨x, hx, hid⟩
          exact List.find?_eq_none.mp hfind x hx (decide_eq_true hid)
        | some applied =>
          have hid := List.find?_some hfind
          rw [decide_eq_true_eq] at hid
          refine Or.inr ⟨applied, List.mem_of_find?_eq_some hfind, hid, ?_⟩
          dsimp only
          split
          · exact ⟨_, rfl⟩
          · exact ⟨_, rfl⟩

theorem advanceOrRaise_issued (hinv : Inv t w) {e : Emitted} {n : String} (hn : n ∈ t.nodeIds)
    {k : ℕ} (h1 : 1 ≤ k) (hk : k ≤ (w.node n).round) (hid : e.activationId = gateKey n k)
    (h : Legible D w e.activationId) :
    advanceOrRaise D t w e = (applyEmitted t w e n).mapError .router := by
  have hnode := (hinv.consistent.keys n).mpr hn
  rw [hid] at h
  rw [advanceOrRaise, hid, issuedNode_gateKey_legible hnode h1 hk h]
  rfl

/-- **A legible emission is rejected exactly when it is impossible**, and else a step is
returned. -/
theorem advance_legible (hinv : Inv t w) {e : Emitted} (h : Legible D w e.activationId) :
    (Impossible t w e ∧ ∃ message, advanceOrRaise D t w e = .error (.router message)) ∨
      (¬Impossible t w e ∧ ∃ s, advanceOrRaise D t w e = .ok s) := by
  by_cases hissued : ∃ n ∈ t.nodeIds, ∃ k, 1 ≤ k ∧ k ≤ (w.node n).round ∧
      e.activationId = gateKey n k
  · obtain ⟨n, hn, k, h1, hk, hid⟩ := hissued
    rw [impossible_gateKey_iff hn h1 hk hid, advanceOrRaise_issued hinv hn h1 hk hid h]
    have honce := issued_once hinv.accounted hn h1 hk
    rw [← hid] at honce
    rcases applyEmitted_cases (t := t) (w := w) e n with ⟨hport, message, hraise⟩ |
      ⟨hport, hkept, s, hstep⟩ | ⟨hport, hlive, hretired, ⟨hfinished, -⟩ | ⟨x, hx, hxid, hresult⟩⟩
    · rw [hraise]
      exact Or.inl ⟨Or.inl hport, message, rfl⟩
    · rw [hstep]
      refine Or.inr ⟨?_, s, rfl⟩
      rintro (hnot | ⟨x, hx, hxid, -⟩)
      · exact hnot hport
      · rcases hkept with hlive | hretired
        · exact honce.live_finished ⟨hlive, x, hx, hxid⟩
        · exact honce.retired_finished ⟨hretired, x, hx, hxid⟩
    · rcases honce.somewhere with hmem | hmem | hmem
      · exact absurd hmem hlive
      · exact absurd hmem hretired
      · exact absurd hmem hfinished
    · split at hresult
      · rename_i hsame
        obtain ⟨s, hstep⟩ := hresult
        rw [hstep]
        refine Or.inr ⟨?_, s, rfl⟩
        rintro (hnot | ⟨y, hy, hyid, hdiffers⟩)
        · exact hnot hport
        · -- The activation has finished only once.
          obtain rfl := List.inj_on_of_nodup_map hinv.accounted.emitted_once hx hy
            (hxid.trans hyid.symm)
          exact hdiffers (Prod.ext hsame.1 hsame.2)
      · rename_i hdiffers
        obtain ⟨message, hraise⟩ := hresult
        rw [hraise]
        refine Or.inl ⟨Or.inr ⟨x, hx, hxid, fun heq => hdiffers ?_⟩, message, rfl⟩
        exact Prod.mk.inj heq
  · have hnever : ∀ n ∈ t.nodeIds, ∀ k, 1 ≤ k → k ≤ (w.node n).round →
        e.activationId ≠ gateKey n k :=
      fun n hn k h1 hk hid => hissued ⟨n, hn, k, h1, hk, hid⟩
    refine Or.inl ⟨Or.inl hnever, ?_⟩
    rcases issuedNode_legible h with hread | ⟨message, hread⟩
    · rw [advanceOrRaise, hread]
      show ∃ message, (applyEmitted t w e (nodeOf e.activationId)).mapError AdvanceError.router =
        .error (.router message)
      rcases applyEmitted_cases (t := t) (w := w) e (nodeOf e.activationId) with
        ⟨-, message, hraise⟩ | ⟨-, hkept, -⟩ | ⟨-, -, -, ⟨-, message, hraise⟩ | ⟨x, hx, hxid, -⟩⟩
      · exact ⟨message, by rw [hraise]; rfl⟩
      · exfalso
        rcases hkept with hlive | hretired
        · obtain ⟨n, hn, k, hid, h1, hk⟩ := hinv.accounted.live _ hlive
          exact hnever n hn k h1 hk hid
        · obtain ⟨-, n, hn, k, hid, h1, hk⟩ := hinv.accounted.retired _ hretired
          exact hnever n hn k h1 hk hid
      · exact ⟨message, by rw [hraise]; rfl⟩
      · obtain ⟨-, -, n, hn, k, hid, h1, hk⟩ := hinv.accounted.emitted x hx
        exact absurd (hxid.symm.trans hid) (hnever n hn k h1 hk)
    · exact ⟨message, by rw [advanceOrRaise, hread]; rfl⟩

variable {proposer_model_error : String → String → Option String} {graph : PipelineGraph}
  {registry : Registry} {roles : Dict RoleConfig}

/-- What is returned is what `advance` returns. -/
theorem advance_of_advanceOrRaise {w : RouterState} (hinv : Inv t w) {e : Emitted} {s : Step}
    (h : advanceOrRaise D t w e = .ok s) : advance t w (.emitted e) = .ok s := by
  have hlegible : Legible D w e.activationId := by
    by_contra hillegible
    obtain ⟨message, hread⟩ := issuedNode_illegible hillegible
    rw [advanceOrRaise, hread] at h
    cases h
  have hpossible : ¬Impossible t w e := by
    rcases advance_legible hinv hlegible with ⟨-, message, hraise⟩ | ⟨hpossible, -⟩
    · rw [h] at hraise
      cases hraise
    · exact hpossible
  have hissued : ∃ n ∈ t.nodeIds, ∃ k, 1 ≤ k ∧ k ≤ (w.node n).round ∧
      e.activationId = gateKey n k := by
    by_contra hnever
    exact hpossible (Or.inl fun n hn k h1 hk hid => hnever ⟨n, hn, k, h1, hk, hid⟩)
  obtain ⟨n, hn, k, h1, hk, hid⟩ := hissued
  have hadvance : advance t w (.emitted e) = applyEmitted t w e n := by
    rw [advance, hid, issuedNode_ok ((hinv.consistent.keys n).mpr hn) h1 hk]
    rfl
  rw [advanceOrRaise_issued hinv hn h1 hk hid hlegible] at h
  rw [hadvance]
  cases hstep : applyEmitted t w e n with
  | error message =>
    rw [hstep] at h
    cases h
  | ok s' =>
    rw [hstep] at h
    exact congrArg Except.ok (Except.ok.inj h)

/-- The router of the code: a run ends where `advance` raises. -/
def nextOrRaise (D : UnicodeDigits) (t : Topology) (s : Step) : Event → Option Step
  | .emitted e => (advanceOrRaise D t s.state e).toOption
  | .halt halt => next t s (.halt halt)

/-- **A run of the router of the code is a run of the router**, with the same steps, whatever the
ids of the emissions are and whatever counts as a digit. -/
theorem run_of_nextOrRaise (hlegal : t.Legal) {log : List (Transition Step Event)} {s : Step}
    (run : Run (start t) (nextOrRaise D t) log s) : RouterRun t log s := by
  refine Run.induct (P := RouterRun t) .start ?_ run
  intro log s event s' _ hrun haccepted
  refine hrun.step ?_
  cases event with
  | halt halt => exact haccepted
  | emitted e =>
    rw [nextOrRaise] at haccepted
    cases hadvance : advanceOrRaise D t s.state e with
    | error error =>
      rw [hadvance] at haccepted
      cases haccepted
    | ok s'' =>
      rw [hadvance] at haccepted
      obtain rfl : s'' = s' := Option.some.inj haccepted
      have hinv := inv_of_reachableState hlegal ⟨s, ⟨log, hrun⟩, rfl⟩
      rw [next, advance_of_advanceOrRaise hinv hadvance]
      rfl

/-- **On a legal graph, in every reachable state, the router rejects exactly the impossible
emissions, and raises nothing but `RouterError`, exactly when** `int` reads the round of the id. -/
theorem rejects_impossible_iff (hval : validate proposer_model_error graph registry roles =
      { problems := [], topology := some t })
    {w : RouterState} (hw : ReachableState t w) (e : Emitted) :
    RejectsImpossible D t w e ↔ Legible D w e.activationId := by
  have hinv := inv_of_reachableState (legal_of_report hval) hw
  constructor
  · intro hrejects
    by_contra hillegible
    obtain ⟨message, hread⟩ := issuedNode_illegible hillegible
    have hraise : advanceOrRaise D t w e = .error (.value message) := by
      rw [advanceOrRaise, hread]
      rfl
    rcases hrejects.returns_or_rejects with ⟨s, hs⟩ | ⟨other, hother⟩
    · rw [hraise] at hs
      cases hs
    · rw [hraise] at hother
      cases hother
  · intro hlegible
    have honce : ∀ n ∈ t.nodeIds, ∀ k, 1 ≤ k → k ≤ (w.node n).round → IssuedOnce w (gateKey n k) :=
      fun n hn k => issued_once hinv.accounted hn
    rcases advance_legible hinv hlegible with ⟨himpossible, hraise⟩ | ⟨hpossible, s, hs⟩
    · exact ⟨Or.inr hraise, iff_of_true hraise himpossible, honce⟩
    · refine ⟨Or.inl ⟨s, hs⟩, iff_of_false ?_ hpossible, honce⟩
      rintro ⟨message, hraise⟩
      rw [hs] at hraise
      cases hraise

/-- The digits of Latin-1: the superscripts are digits to `isdigit`, and have no decimal value. -/
def latinDigits : UnicodeDigits where
  isDigit := fun c => c.isDigit || c ∈ ['²', '³', '¹']
  value := fun c => if c.isDigit then some (c.toNat - '0'.toNat) else none
  isDigit_ascii := fun c h => by rw [h, Bool.true_or]
  value_ascii := fun _ h => if_pos h

theorem run_of_nextOrRaise_sample : ∃ log, log.length = 4 ∧ RouterRun sampleTopology log sampleStep := by
  have hscript : (runScript (nextOrRaise latinDigits sampleTopology) ([], start sampleTopology)
      (sampleScript.map .emitted)).map (fun q => (q.1.length, q.2)) = some (4, sampleStep) := by
    decide +kernel
  obtain ⟨log, s, run, hview⟩ := Run.exists_of_runScript hscript
  obtain ⟨hlength, rfl⟩ := Prod.mk.inj hview
  exact ⟨log, hlength, run_of_nextOrRaise (legal_of_report validate_sampleGraph) run⟩

/-- The emission of an activation of the sample graph is applied, and one it cannot make
rejected. -/
theorem rejects_impossible_iff_sample :
    RejectsImpossible latinDigits sampleTopology sampleStep.state ⟨"left#2", "ok", "l"⟩ ∧
    RejectsImpossible latinDigits sampleTopology sampleStep.state ⟨"left#3", "ok", "l"⟩ := by
  have hreach : ReachableState sampleTopology sampleStep.state := ⟨_, reachable_sampleStep, rfl⟩
  refine ⟨(rejects_impossible_iff validate_sampleGraph hreach _).mpr ?_,
    (rejects_impossible_iff validate_sampleGraph hreach _).mpr ?_⟩
  · exact fun _ _ _ => by decide +kernel
  · exact fun _ _ _ => by decide +kernel

/-- **The id `plan#²` is not rejected but raises `ValueError`.** -/
theorem superscript_escapes : ReachableState sampleTopology sampleStep.state ∧
    advanceOrRaise latinDigits sampleTopology sampleStep.state ⟨"plan#²", "ok", "p"⟩ =
      .error (.value "invalid literal for int() with base 10: '²'") ∧
    ¬RejectsImpossible latinDigits sampleTopology sampleStep.state ⟨"plan#²", "ok", "p"⟩ := by
  have hraise : advanceOrRaise latinDigits sampleTopology sampleStep.state ⟨"plan#²", "ok", "p"⟩ =
      .error (.value "invalid literal for int() with base 10: '²'") := by
    decide +kernel
  refine ⟨⟨_, reachable_sampleStep, rfl⟩, hraise, fun hrejects => ?_⟩
  rcases hrejects.returns_or_rejects with ⟨s, hs⟩ | ⟨message, hother⟩
  · rw [hraise] at hs
    cases hs
  · rw [hraise] at hother
    cases hother

end GraphRouter

end Kroker
