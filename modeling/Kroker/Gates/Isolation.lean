import Kroker.Gates.Callers

/-!
# Whether a decision resolves one gate only

The gates of a whole workflow: a host, and the executions of the steps that open gates on it, in any
order and interleaved in any way.  This covers the sequential, the wave and the graph mode, which
differ only in which executions overlap.

`Separate` is the condition on one transition: a step starts only next to steps it is compatible
with, and opens a round of `tool_approval` only when no other step has opened that round.  In a
sequential or wave run the first part always holds, by `compatible_pipeline`.  `Accounted` is the
invariant that carries the result: every gate opened is one its caller's counter has counted.
-/

namespace Kroker

structure Execution where
  kind : StepKind
  opened : Dict ℕ := ∅

structure WorkflowGates where
  host : GateHost
  executions : List Execution := []

inductive WorkflowEvent where
  | started (kind : StepKind)
  /-- Execution `i` opens a gate; the round is its counter's. -/
  | opens (i : ℕ) (q : GateRequest)
  /-- Anything else that happens on the host. -/
  | host (e : GateEvent)

def GateEvent.opensGate : GateEvent → Bool
  | .opened _ => true
  | _ => false

/-- Where a gate that awaits its decision stands. -/
def Phase.isOpen : Phase → Bool
  | .deciding _ => false
  | .returned _ => false
  | _ => true

def Phase.recorded? : Phase → Option GateDecision
  | .deciding (.recorded d) => some d
  | .returned (.recorded d) => some d
  | _ => none

namespace WorkflowGates

def count (x : Execution) (name : String) : ℕ := x.opened.getD name 0

def nextRound (x : Execution) (name : String) : Option ℕ := x.kind.nextRound name (count x name)

def next (s : WorkflowGates) : WorkflowEvent → Option WorkflowGates
  | .started kind => some { s with executions := s.executions ++ [{ kind }] }
  | .opens i q => s.executions[i]?.bind fun x => (nextRound x q.name).map fun round =>
    { host := s.host.openGate { q with round }
      executions := s.executions.set i
        { x with opened := x.opened.insert q.name (count x q.name + 1) } }
  | .host e => if e.opensGate then none else (s.host.next e).map fun host => { s with host }

abbrev WorkflowRun (t : ℤ) := Run { host := { now := t } : WorkflowGates } next

/-- A step starts next to steps it is compatible with, and a round of `tool_approval` is opened by
one step only. -/
def Separate : Transition WorkflowGates WorkflowEvent → Prop
  | ⟨s, .started kind, _⟩ => ∀ x ∈ s.executions, x.kind.Compatible kind
  | ⟨s, .opens i q, _⟩ => q.name = "tool_approval" →
      ∀ x ∈ s.executions[i]?, ∀ y ∈ s.executions.zipIdx, y.2 ≠ i →
        ∀ n < count y.1 "tool_approval",
          y.1.kind.nextRound "tool_approval" n ≠ nextRound x "tool_approval"
  | ⟨_, .host _, _⟩ => True

instance (x : Transition WorkflowGates WorkflowEvent) : Decidable (Separate x) :=
  match x with
  | ⟨_, .started _, _⟩ => inferInstanceAs (Decidable (∀ _ ∈ _, StepKind.Compatible _ _))
  | ⟨_, .opens _ _, _⟩ => inferInstanceAs (Decidable (_ → _))
  | ⟨_, .host _, _⟩ => inferInstanceAs (Decidable True)

/-- No two gates share a key, so no recorded decision resolves two; and a gate that awaits its
decision is shown as pending until that decision is recorded. -/
structure Unshared (s : WorkflowGates) : Prop where
  distinct : (s.host.openings.map fun o => o.request.key).Nodup
  once : ∀ (i j : ℕ) (o o' : Opening), s.host.openings[i]? = some o → s.host.openings[j]? = some o' →
    o.phase.recorded?.isSome → o'.phase.recorded?.isSome → o.request.key = o'.request.key → i = j
  shown : ∀ o ∈ s.host.openings, o.phase.isOpen = true →
    o.request.key ∈ s.host.pending ∨ o.request.key ∈ s.host.decisions

structure Accounted (s : WorkflowGates) : Prop where
  compatible : (s.executions.map Execution.kind).Pairwise StepKind.Compatible
  counted : ∀ o ∈ s.host.openings, ∃ (i : ℕ) (x : Execution) (n : ℕ), s.executions[i]? = some x ∧
    n < count x o.request.name ∧ x.kind.nextRound o.request.name n = some o.request.round
  distinct : (s.host.openings.map fun o => o.request.key).Nodup
  shown : ∀ o ∈ s.host.openings, o.phase.isOpen = true →
    o.request.key ∈ s.host.pending ∨ o.request.key ∈ s.host.decisions

/-! ## 1. What one event does -/

variable {s s' : WorkflowGates}

theorem opens_eq_some {i : ℕ} {q : GateRequest} (h : next s (.opens i q) = some s') :
    ∃ x round, s.executions[i]? = some x ∧ nextRound x q.name = some round ∧
      s' = { host := s.host.openGate { q with round }
             executions := s.executions.set i
               { x with opened := x.opened.insert q.name (count x q.name + 1) } } := by
  obtain ⟨x, hx, h⟩ := Option.bind_eq_some_iff.mp h
  obtain ⟨round, hround, rfl⟩ := Option.map_eq_some_iff.mp h
  exact ⟨x, round, hx, hround, rfl⟩

theorem host_eq_some {e : GateEvent} (h : next s (.host e) = some s') :
    s'.executions = s.executions ∧ s.host.next e = some s'.host ∧ ∀ q, e ≠ .opened q := by
  simp only [next] at h
  split at h
  · exact absurd h (by simp)
  · rename_i hopens
    obtain ⟨host, hhost, rfl⟩ := Option.map_eq_some_iff.mp h
    refine ⟨rfl, hhost, ?_⟩
    rintro q rfl
    exact hopens rfl

theorem requests_of_host {h h' : GateHost} {e : GateEvent} (he : h.next e = some h')
    (hne : ∀ q, e ≠ .opened q) :
    h'.openings.map Opening.request = h.openings.map Opening.request := by
  cases e with
  | opened q => exact absurd rfl (hne q)
  | signal d =>
    obtain rfl := Option.some.inj he
    rfl
  | tick elapsed =>
    obtain rfl := Option.some.inj he
    rfl
  | resumed i =>
    obtain ⟨o, p, ho, -, rfl⟩ := GateHost.resume_eq_some he
    obtain ⟨hi, rfl⟩ := List.getElem?_eq_some_iff.mp ho
    show (h.openings.set i _).map _ = _
    rw [List.map_set]
    refine List.ext_getElem? fun j => ?_
    rw [List.getElem?_set, List.length_map]
    split
    · rename_i hij
      subst hij
      rw [List.getElem?_map, List.getElem?_eq_getElem hi]
      rfl
    · rfl

/-! ## 2. The invariant -/

theorem count_insert (x : Execution) (name other : String) :
    count { x with opened := x.opened.insert name (count x name + 1) } other =
      if name = other then count x name + 1 else count x other :=
  Dict.getD_insert x.opened name other _ _

theorem counted_set {i : ℕ} {x : Execution} (hx : s.executions[i]? = some x) (name : String) {j : ℕ}
    {y : Execution} (hy : s.executions[j]? = some y) {other : String} {n : ℕ}
    (hn : n < count y other) :
    ∃ z, (s.executions.set i { x with opened := x.opened.insert name (count x name + 1) })[j]? =
      some z ∧ z.kind = y.kind ∧ n < count z other := by
  rw [List.getElem?_set]
  by_cases hij : i = j
  · subst hij
    rw [hx, Option.some.injEq] at hy
    subst hy
    rw [if_pos rfl, if_pos (List.getElem?_eq_some_iff.mp hx).1]
    refine ⟨_, rfl, rfl, ?_⟩
    rw [count_insert]
    split
    · rename_i hname
      subst hname
      omega
    · exact hn
  · rw [if_neg hij]
    exact ⟨y, hy, rfl, hn⟩

theorem key_fresh {i : ℕ} {q : GateRequest} (hs : Accounted s) (hsep : Separate ⟨s, .opens i q, s'⟩)
    {x : Execution} {round : ℕ} (hx : s.executions[i]? = some x)
    (hround : nextRound x q.name = some round) {o : Opening} (ho : o ∈ s.host.openings) :
    o.request.key ≠ gateKey q.name round := by
  intro hkey
  obtain ⟨hname, hr⟩ := gateKey_injective hkey
  obtain ⟨j, y, n, hy, hn, hcounted⟩ := hs.counted o ho
  rw [hname] at hn
  rw [hname, hr] at hcounted
  by_cases hij : j = i
  · -- the same execution: its counter has moved past that round
    subst hij
    rw [hx, Option.some.injEq] at hy
    subst hy
    have := StepKind.nextRound_injective hcounted hround
    omega
  · by_cases htool : q.name = "tool_approval"
    · refine hsep htool x hx (y, j) (List.mem_zipIdx_iff_getElem?.mpr hy) hij n (htool ▸ hn) ?_
      rw [← htool, hcounted, hround]
    · have hpair := List.pairwise_iff_getElem.mp hs.compatible
      obtain ⟨hi', rfl⟩ := List.getElem?_eq_some_iff.mp hx
      obtain ⟨hj', rfl⟩ := List.getElem?_eq_some_iff.mp hy
      rcases Nat.lt_or_gt_of_ne hij with hlt | hlt
      · have hcomp := hpair j i (by simpa using hj') (by simpa using hi') hlt
        rw [List.getElem_map, List.getElem_map] at hcomp
        exact hcomp.nextRound_ne htool hcounted hround
      · have hcomp := hpair i j (by simpa using hi') (by simpa using hj') hlt
        rw [List.getElem_map, List.getElem_map] at hcomp
        exact hcomp.nextRound_ne htool hround hcounted

theorem index_eq_of_key {l : List Opening} (h : (l.map fun o => o.request.key).Nodup) {i j : ℕ}
    {o o' : Opening} (ho : l[i]? = some o) (ho' : l[j]? = some o')
    (hkey : o.request.key = o'.request.key) : i = j := by
  obtain ⟨hi, rfl⟩ := List.getElem?_eq_some_iff.mp ho
  obtain ⟨hj, rfl⟩ := List.getElem?_eq_some_iff.mp ho'
  have hmap : (l.map fun o => o.request.key).get ⟨i, by simpa using hi⟩ =
      (l.map fun o => o.request.key).get ⟨j, by simpa using hj⟩ := by
    rw [List.get_eq_getElem, List.get_eq_getElem, List.getElem_map, List.getElem_map, hkey]
  exact Fin.mk.inj_iff.mp (h.get_inj_iff.mp hmap)

theorem accounted_started {kind : StepKind} (hs : Accounted s)
    (hsep : Separate ⟨s, .started kind, s'⟩) (he : next s (.started kind) = some s') :
    Accounted s' := by
  obtain rfl := Option.some.inj he
  refine ⟨?_, fun o ho => ?_, hs.distinct, hs.shown⟩
  · rw [List.map_append, List.pairwise_append]
    refine ⟨hs.compatible, List.pairwise_singleton _ _, fun k hk l hl => ?_⟩
    obtain ⟨x, hx, rfl⟩ := List.mem_map.mp hk
    rw [List.map_cons, List.map_nil, List.mem_singleton] at hl
    subst hl
    exact hsep x hx
  · obtain ⟨i, x, n, hx, hn, hr⟩ := hs.counted o ho
    refine ⟨i, x, n, ?_, hn, hr⟩
    rw [List.getElem?_append_left (List.getElem?_eq_some_iff.mp hx).1]
    exact hx

theorem accounted_opens {i : ℕ} {q : GateRequest} (hs : Accounted s)
    (hsep : Separate ⟨s, .opens i q, s'⟩) (he : next s (.opens i q) = some s') :
    Accounted s' := by
  obtain ⟨x, round, hx, hround, rfl⟩ := opens_eq_some he
  have hopen := GateHost.openings_openGate s.host { q with round }
  refine ⟨?_, fun o ho => ?_, ?_, fun o ho hopened => ?_⟩
  · -- the executions keep their kinds
    have hkinds : (s.executions.set i
        { x with opened := x.opened.insert q.name (count x q.name + 1) }).map Execution.kind =
        s.executions.map Execution.kind := by
      refine List.ext_getElem? fun j => ?_
      rw [List.getElem?_map, List.getElem?_map, List.getElem?_set]
      by_cases hij : i = j
      · subst hij
        rw [if_pos rfl, if_pos (List.getElem?_eq_some_iff.mp hx).1, hx]
        rfl
      · rw [if_neg hij]
    show ((s.executions.set i _).map Execution.kind).Pairwise _
    rw [hkinds]
    exact hs.compatible
  · change o ∈ (s.host.openGate { q with round }).openings at ho
    rw [hopen, List.mem_append, List.mem_singleton] at ho
    rcases ho with ho | rfl
    · obtain ⟨j, y, n, hy, hn, hr⟩ := hs.counted o ho
      obtain ⟨z, hz, hkind, hlt⟩ := counted_set hx q.name hy hn
      exact ⟨j, z, n, hz, hlt, by rw [hkind]; exact hr⟩
    · refine ⟨i, { x with opened := x.opened.insert q.name (count x q.name + 1) }, count x q.name,
        ?_, ?_, hround⟩
      · show (s.executions.set i _)[i]? = _
        rw [List.getElem?_set_self (List.getElem?_eq_some_iff.mp hx).1]
      · rw [count_insert, if_pos rfl]
        omega
  · change ((s.host.openGate { q with round }).openings.map fun o => o.request.key).Nodup
    rw [hopen, List.map_append, List.nodup_append]
    refine ⟨hs.distinct, by simp, fun k hk l hl => ?_⟩
    obtain ⟨o, ho, rfl⟩ := List.mem_map.mp hk
    rw [List.map_cons, List.map_nil, List.mem_singleton] at hl
    subst hl
    exact key_fresh hs hsep hx hround ho
  · change o ∈ (s.host.openGate { q with round }).openings at ho
    show o.request.key ∈ (s.host.openGate { q with round }).pending ∨
      o.request.key ∈ (s.host.openGate { q with round }).decisions
    rw [GateHost.decisions_openGate]
    rw [hopen, List.mem_append, List.mem_singleton] at ho
    unfold GateHost.openGate
    cases himmediate : ({ q with round } : GateRequest).immediate with
    | none =>
      rcases ho with ho | rfl
      · exact (hs.shown o ho hopened).imp_left fun hmem => (StrSet.mem_insert _ _ _).mpr (Or.inr hmem)
      · exact Or.inl ((StrSet.mem_insert _ _ _).mpr (Or.inl rfl))
    | some r =>
      rcases ho with ho | rfl
      · exact hs.shown o ho hopened
      · rw [himmediate] at hopened
        cases hopened

theorem isOpen_of_resume {q : GateRequest} {now : ℤ} {recorded : Option GateDecision} {p p' : Phase}
    (h : p.resume q now recorded = some p') (hp' : p'.isOpen = true) : p.isOpen = true := by
  cases p with
  | deciding r =>
    obtain rfl := Option.some.inj h
    cases hp'
  | returned r => exact absurd h (by simp [Phase.resume])
  | _ => rfl

theorem shown_host {h h' : GateHost} {e : GateEvent} (he : h.next e = some h')
    (hne : ∀ q, e ≠ .opened q) (hdistinct : (h.openings.map fun o => o.request.key).Nodup)
    (hs : ∀ o ∈ h.openings, o.phase.isOpen = true →
      o.request.key ∈ h.pending ∨ o.request.key ∈ h.decisions) :
    ∀ o ∈ h'.openings, o.phase.isOpen = true →
      o.request.key ∈ h'.pending ∨ o.request.key ∈ h'.decisions := by
  cases e with
  | opened q => exact absurd rfl (hne q)
  | tick elapsed =>
    obtain rfl := Option.some.inj he
    exact hs
  | signal d =>
    obtain rfl := Option.some.inj he
    intro o ho hopen
    rw [GateHost.mem_decisions_submit]
    by_cases hkey : gateKey d.gate d.round = o.request.key
    · exact Or.inr (Or.inr hkey)
    · refine (hs o ho hopen).imp (fun hmem => ?_) Or.inl
      exact (StrSet.mem_erase _ _ _).mpr ⟨hkey, hmem⟩
  | resumed i =>
    obtain ⟨o', p, ho', hp, rfl⟩ := GateHost.resume_eq_some he
    intro o ho hopen
    obtain ⟨j, hj⟩ := List.getElem?_of_mem ho
    rw [GateHost.getElem?_moveTo h p ho'] at hj
    by_cases hij : i = j
    · rw [if_pos hij, Option.some.injEq] at hj
      subst hj
      have hshown := hs o' (List.mem_of_getElem? ho') (isOpen_of_resume hp hopen)
      cases p with
      | deciding r => cases hopen
      | _ => exact hshown
    · rw [if_neg hij] at hj
      have hne' : o'.request.key ≠ o.request.key := fun hkey =>
        hij (index_eq_of_key hdistinct ho' hj hkey)
      refine (hs o (List.mem_of_getElem? hj) hopen).imp_left fun hmem => ?_
      cases p with
      | deciding r => exact (StrSet.mem_erase _ _ _).mpr ⟨hne', hmem⟩
      | _ => exact hmem

theorem accounted_host {e : GateEvent} (hs : Accounted s) (he : next s (.host e) = some s') :
    Accounted s' := by
  obtain ⟨hexec, hhost, hne⟩ := host_eq_some he
  have hreq := requests_of_host hhost hne
  have hkeys : s'.host.openings.map (fun o => o.request.key) =
      s.host.openings.map fun o => o.request.key := by
    have := congrArg (List.map GateRequest.key) hreq
    rwa [List.map_map, List.map_map] at this
  refine ⟨by rw [hexec]; exact hs.compatible, fun o ho => ?_, by rw [hkeys]; exact hs.distinct,
    shown_host hhost hne hs.distinct hs.shown⟩
  have hmem : o.request ∈ s.host.openings.map Opening.request := by
    rw [← hreq]
    exact List.mem_map_of_mem ho
  obtain ⟨o', ho', hrequest⟩ := List.mem_map.mp hmem
  rw [hexec, ← hrequest]
  exact hs.counted o' ho'

/-! ## 3. The run -/

/-- **In a run of separate steps no decision leaks between gates.**  No two gates have the same name
and round, so each recorded decision resolves at most one; and that one was shown as pending until
its decision was recorded. -/
theorem decisions_unshared {t : ℤ} {log : List (Transition WorkflowGates WorkflowEvent)}
    {s : WorkflowGates} (run : WorkflowRun t log s) (hlog : ∀ x ∈ log, Separate x) :
    Unshared s := by
  have haccounted : Accounted s := by
    refine run.induct (P := fun log s => (∀ x ∈ log, Separate x) → Accounted s) ?_ ?_ hlog
    · exact fun _ => ⟨by simp, by simp, by simp, by simp⟩
    · intro log s e s' run ih he hlog
      have hs := ih fun x hx => hlog x (List.mem_cons_of_mem _ hx)
      have hsep := hlog _ List.mem_cons_self
      cases e with
      | started kind => exact accounted_started hs hsep he
      | opens i q => exact accounted_opens hs hsep he
      | host e => exact accounted_host hs he
  refine ⟨haccounted.distinct, fun i j o o' ho ho' _ _ hkey => ?_, haccounted.shown⟩
  exact index_eq_of_key haccounted.distinct ho ho' hkey

/-- The gate of a tool call a task's agent was suspended at. -/
def toolApproval : GateRequest := { name := "tool_approval", defaultPolicy := some .hard }

def toolApproved : GateDecision :=
  { gate := "tool_approval", outcome := .approve, decidedBy := .human }

def oneTaskScript : List WorkflowEvent :=
  [.started (.code "t1"), .opens 0 toolApproval, .host (.resumed 0), .host (.resumed 0),
    .host (.signal toolApproved), .host (.resumed 0), .host (.resumed 0)]

def oneTaskRun : List (Transition WorkflowGates WorkflowEvent) × WorkflowGates :=
  (runScript next ([], { host := { now := 0 } }) oneTaskScript).get (by decide +kernel)

theorem decisions_unshared_sample : Unshared oneTaskRun.2 :=
  decisions_unshared
    (Run.start.of_runScript (Option.some_get _).symm : WorkflowRun 0 oneTaskRun.1 oneTaskRun.2)
    (by decide +kernel)

def twoTaskRun : List (Transition WorkflowGates WorkflowEvent) × WorkflowGates :=
  (runScript next oneTaskRun [.started (.code "t2"), .opens 1 toolApproval, .host (.resumed 1),
    .host (.resumed 1), .host (.resumed 1)]).get (by decide +kernel)

/-- **A decision can leak.**  The human's approval of the first task's tool call resolves the second
task's gate as well: both steps count their escalations from one, under one gate name. -/
theorem approval_leaks : ¬∀ log s, WorkflowRun 0 log s → Unshared s := by
  intro hall
  have run : WorkflowRun 0 twoTaskRun.1 twoTaskRun.2 :=
    Run.of_runScript (Run.start.of_runScript (Option.some_get _).symm :
      WorkflowRun 0 oneTaskRun.1 oneTaskRun.2) (Option.some_get _).symm
  have hfirst : twoTaskRun.2.host.openings[0]? = some ((twoTaskRun.2.host.openings[0]?).get
    (by decide +kernel)) := (Option.some_get _).symm
  have hsecond : twoTaskRun.2.host.openings[1]? = some ((twoTaskRun.2.host.openings[1]?).get
    (by decide +kernel)) := (Option.some_get _).symm
  have hsame := (hall _ _ run).once 0 1 _ _ hfirst hsecond (by decide +kernel) (by decide +kernel)
    (by decide +kernel)
  exact absurd hsame (by decide)

end WorkflowGates

end Kroker
