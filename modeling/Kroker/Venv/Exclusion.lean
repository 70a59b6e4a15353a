import Kroker.Venv.Lock
import Mathlib.Tactic.Linarith

/-!
# What the lock of the venv cache keeps apart

In a run whose holders refresh their heartbeats in time and whose removals are justified, at most
one live process is inside of a lock, no step of another changes the directory that it made, and no
collection touches an entry in use (`sound_of_justified`).

Nothing in the code sees to the removals.  Two waiters may both have judged the directory of a
crashed holder to be stale, and the second removes what the first has made by then; and `gc_cache`
looks at the time of the entry's directory, which a touch of the marker does not change
(`lock_lost`).
-/

namespace Kroker.VenvCache

variable {Fp : Type} [DecidableEq Fp] {s s' : Cache Fp}

/-! ## 1.  One step -/

theorem Orderly.operates_spares (h : Orderly s) (hpunctual : Punctual s) {i j : ℕ} {c : Caller Fp}
    (hc : s.callers[i]? = some c) (hjustified : c.Justified s) (hstep : Operates s i c s') {fp : Fp}
    {dir : ℕ} (hj : s.Inside j fp dir) (hne : i ≠ j) : s'.locks fp = s.locks fp := by
  obtain ⟨d, hd, -⟩ := h.inside j fp dir hj
  cases hstep with
  | go hinside htarget => rfl
  | acquire hfree =>
    refine Cache.mkdir_of_ne fun hfp => ?_
    rw [hfp, hfree] at hd
    cases hd
  | @write own hphase =>
    refine Cache.setLock_of_ne fun hfp => ?_
    have hi : s.Inside i c.fp own := inside_of_phase hc (by rw [hphase]; rfl)
    exact hne (h.exclusive i j c.fp own dir hi (hfp ▸ hj))
  | remove hphase hinside htarget =>
    have hremoves := h.caller_removes hpunctual (List.mem_of_getElem? hc) hjustified hphase
    by_cases hfp : fp = c.fp
    · subst hfp
      rcases hremoves.eq_or with hsame | ⟨d', hd', hdoomed⟩
      · exact Cache.setLock_self.trans hsame
      · exact absurd hdoomed (h.ne_of_doomed hj hd')
    · exact Cache.setLock_of_ne hfp

theorem Orderly.gcOperates_spares (h : Orderly s) (hpunctual : Punctual s) {k : ℕ}
    {g : Collector Fp} (hg : s.collectors[k]? = some g) (hjustified : g.Justified s)
    (hstep : GcOperates s k g s') {j : ℕ} {fp : Fp} {dir : ℕ} (hj : s.Inside j fp dir) :
    s'.locks fp = s.locks fp := by
  obtain ⟨d, hd, -⟩ := h.inside j fp dir hj
  cases hstep with
  | go htarget hmtime => rfl
  | make hphase hfree =>
    refine Cache.mkdir_of_ne fun hfp => ?_
    rw [hfp, hfree] at hd
    cases hd
  | clear hphase => rfl
  | drop hphase => rfl
  | @remove fp' own r todo phase hphase hmtime htarget =>
    have hremoves := h.collector_removes hpunctual (List.mem_of_getElem? hg) hjustified hphase
    by_cases hfp : fp = fp'
    · subst hfp
      rcases hremoves.eq_or with hsame | ⟨d', hd', hdoomed⟩
      · exact Cache.setLock_self.trans hsame
      · exact absurd hdoomed (h.ne_of_doomed hj hd')
    · exact Cache.setLock_of_ne hfp

/-- **A justified step of another spares the directory of a process inside.** -/
theorem Orderly.spares (h : Orderly s) (hpunctual : Punctual s) {e : Event Fp}
    (hjustified : Justified s e) (hstep : next s e = some s') : Spares s e s' := by
  intro j fp dir hj hnotStep hnotBeat
  cases e with
  | call fp timeout =>
    cases hstep
    rfl
  | tick dt =>
    obtain ⟨-, hstep⟩ := Option.ite_none_right_eq_some.mp hstep
    cases hstep
    rfl
  | step i =>
    obtain ⟨c, hc, hstep⟩ := Option.bind_eq_some_iff.mp hstep
    refine h.operates_spares hpunctual hc (hjustified c hc) (operates_of_advance hstep) hj ?_
    rintro rfl
    exact hnotStep rfl
  | beat i =>
    obtain ⟨c, hc, hstep⟩ := Option.bind_eq_some_iff.mp hstep
    have hne : i ≠ j := by
      rintro rfl
      exact hnotBeat rfl
    unfold Cache.beat at hstep
    split at hstep
    · rename_i own lastBeat hphase
      have hi : s.Inside i c.fp own := inside_of_phase hc (by rw [hphase]; rfl)
      split at hstep
      · cases hstep
        refine Cache.setLock_of_ne fun hfp => ?_
        exact hne (h.exclusive i j c.fp own dir hi (hfp ▸ hj))
      · cases hstep
        rfl
    · cases hstep
  | work i w =>
    obtain ⟨c, -, hstep⟩ := Option.bind_eq_some_iff.mp hstep
    unfold Cache.work at hstep
    split at hstep
    · cases hstep
      rfl
    · cases hstep
      rfl
    · cases hstep
      rfl
    · cases hstep
  | finish i =>
    obtain ⟨c, -, hstep⟩ := Option.bind_eq_some_iff.mp hstep
    unfold Cache.finish at hstep
    split at hstep
    · cases hstep
      rfl
    · cases hstep
  | read i first =>
    obtain ⟨c, -, hstep⟩ := Option.bind_eq_some_iff.mp hstep
    unfold Cache.read at hstep
    dsimp only at hstep
    split at hstep
    · split at hstep
      · split at hstep
        · cases hstep
          rfl
        · cases hstep
          rfl
      · cases hstep
    · cases hstep
  | crash i =>
    obtain ⟨c, -, rfl⟩ := Option.map_eq_some_iff.mp hstep
    rfl
  | collect keep todo =>
    obtain ⟨-, hstep⟩ := Option.ite_none_right_eq_some.mp hstep
    cases hstep
    rfl
  | gcStep k =>
    obtain ⟨g, hg, hstep⟩ := Option.bind_eq_some_iff.mp hstep
    exact h.gcOperates_spares hpunctual hg (hjustified g hg) (gcOperates_of_collect hstep) hj
  | gcCrash k =>
    obtain ⟨g, -, rfl⟩ := Option.map_eq_some_iff.mp hstep
    rfl

omit [DecidableEq Fp] in
/-- Nobody is inside of a lock that is a collection's own. -/
theorem Orderly.free_of_own (h : Orderly s) {g : Collector Fp} (hg : g ∈ s.collectors) {fp : Fp}
    {dir : ℕ} (htarget : g.phase.target = some dir) (hown : (s.locks fp).map (·.id) = some dir)
    (j dir' : ℕ) : ¬s.Inside j fp dir' := by
  intro hj
  obtain ⟨d, hd, rfl⟩ := Option.map_eq_some_iff.mp hown
  exact h.ne_of_doomed hj hd (h.collecting g hg d.id htarget)

/-- **A justified collection removes nothing in use.** -/
theorem Orderly.collects (h : Orderly s) {e : Event Fp} (hjustified : Justified s e)
    (hstep : next s e = some s') : Collects s e s' := by
  rintro k fp rfl hchanged
  obtain ⟨g, hg, hstep⟩ := Option.bind_eq_some_iff.mp hstep
  have hmem := List.mem_of_getElem? hg
  have hfound : g.Justified s := hjustified g hg
  cases gcOperates_of_collect hstep with
  | go htarget hmtime => exact absurd rfl hchanged
  | make hphase hfree => exact absurd rfl hchanged
  | remove hphase hmtime htarget => exact absurd rfl hchanged
  | @clear fp' mtime dir todo hphase =>
    by_cases hfp : fp = fp'
    · subst hfp
      rw [Collector.Justified, hphase] at hfound
      have htarget : g.phase.target = some dir := by rw [hphase]; rfl
      have hold := (h.aged g hmem).2 mtime (by rw [hphase]; rfl)
      have hnow := (h.aged g hmem).1
      cases hentry : s.entries fp with
      | none =>
        refine absurd ?_ hchanged
        refine Cache.setEntry_self.trans ?_
        rw [hentry]
        rfl
      | some entry =>
        obtain ⟨hown, hmarker⟩ := hfound entry hentry
        refine ⟨h.free_of_own hmem htarget hown, fun entry' t hentry' ht => ?_⟩
        obtain rfl := Option.some.inj hentry'
        have hle := hmarker t ht
        linarith
    · exact absurd (Cache.setEntry_of_ne hfp) hchanged
  | @drop fp' dir todo hphase =>
    by_cases hfp : fp = fp'
    · subst hfp
      rw [Collector.Justified, hphase] at hfound
      have htarget : g.phase.target = some dir := by rw [hphase]; rfl
      cases hentry : s.entries fp with
      | none =>
        refine absurd ?_ hchanged
        refine Cache.setEntry_self.trans ?_
        rw [hentry]
        rfl
      | some entry =>
        refine ⟨h.free_of_own hmem htarget (hfound entry hentry), fun entry' t hentry' ht => ?_⟩
        -- With a marker in it, the directory is not empty and stays.
        obtain rfl := Option.some.inj hentry'
        refine absurd ?_ hchanged
        refine Cache.setEntry_self.trans ?_
        rw [hentry, Option.filter_some, if_pos (by simp [ht])]
    · exact absurd (Cache.setEntry_of_ne hfp) hchanged

/-! ## 2.  Runs -/

omit [DecidableEq Fp] in
theorem orderly_init : Orderly ({} : Cache Fp) where
  made := nofun
  apart := nofun
  inside := by
    rintro i fp dir ⟨c, hc, -⟩
    cases hc
  unique := by
    rintro i j fp fp' dir ⟨c, hc, -⟩
    cases hc
  written := nofun
  leaving := nofun
  collecting := nofun
  aged := nofun

/-- **In a run whose removals are justified**, and whose holders are punctual, at most one live
process is inside of a lock, no step of another changes the directory of one that is inside, and no
collection removes anything of an entry in use. -/
theorem sound_of_justified {log : List (Transition (Cache Fp) (Event Fp))} {s : Cache Fp}
    (run : Run {} next log s) (hpunctual : ∀ x ∈ log, Punctual x.before)
    (hjustified : ∀ x ∈ log, Justified x.before x.event) :
    ∀ x ∈ log, Exclusive x.after ∧ Spares x.before x.event x.after ∧
      Collects x.before x.event x.after := by
  have hstep : ∀ (s : Cache Fp) (e : Event Fp) (s' : Cache Fp), Orderly s →
      Punctual s ∧ Justified s e → next s e = some s' →
        Orderly s' ∧ Spares s e s' ∧ Collects s e s' := by
    rintro s e s' horderly ⟨hpunctual, hjustified⟩ hnext
    exact ⟨horderly.of_next hpunctual hjustified hnext, horderly.spares hpunctual hjustified hnext,
      horderly.collects hjustified hnext⟩
  have hsound := run.forall_of_assumed orderly_init hstep
    fun x hx => ⟨hpunctual x hx, hjustified x hx⟩
  intro x hx
  obtain ⟨hafter, hspares, hcollects⟩ := hsound.2 x hx
  exact ⟨hafter.exclusive, hspares, hcollects⟩

/-! ## 3.  Samples -/

section Decidable

def Phase.lastBeat? : Phase → Option ℚ
  | .holding _ lastBeat _ => some lastBeat
  | _ => none

omit [DecidableEq Fp] in
theorem punctual_iff :
    Punctual s ↔ ∀ c ∈ s.callers, ∀ lastBeat ∈ c.phase.lastBeat?, s.now - lastBeat ≤ lockStaleS := by
  refine forall₂_congr fun c _ => ⟨fun h lastBeat hbeat => ?_, fun h dir lastBeat beating hphase => ?_⟩
  · cases hphase : c.phase with
    | holding dir t beating =>
      rw [hphase] at hbeat
      cases hbeat
      exact h dir lastBeat beating hphase
    | _ =>
      rw [hphase] at hbeat
      cases hbeat
  · exact h lastBeat (by rw [hphase]; rfl)

instance (s : Cache Fp) : Decidable (Punctual s) := decidable_of_iff _ punctual_iff.symm

instance (s : Cache Fp) (d : LockDir) : Decidable (s.Dead d) :=
  inferInstanceAs (Decidable (_ ∧ _))

instance (lock : Option LockDir) (may : LockDir → Prop) [DecidablePred may] :
    ∀ r : Rmtree, Decidable (r.Justified lock may)
  | .scan => inferInstanceAs (Decidable (∀ d ∈ lock, may d))
  | .unlink found [] => inferInstanceAs (Decidable (∀ d ∈ lock, d.files = [] → d.id = found))
  | .unlink _ (_ :: _) => .isTrue trivial

instance (s : Cache Fp) : ∀ c : Caller Fp, Decidable (c.Justified s)
  | ⟨fp, _, .removing .steal rmtree⟩ =>
    inferInstanceAs (Decidable (rmtree.Justified (s.locks fp) s.Dead))
  | ⟨fp, _, .removing (.release dir) rmtree⟩ =>
    inferInstanceAs (Decidable (rmtree.Justified (s.locks fp) (·.id = dir)))
  | ⟨_, _, .opening⟩ | ⟨_, _, .writing _⟩ | ⟨_, _, .holding _ _ _⟩ | ⟨_, _, .reading _⟩
  | ⟨_, _, .listing⟩ | ⟨_, _, .statting _⟩ | ⟨_, _, .measuring _ _⟩ | ⟨_, _, .judging _ _⟩
  | ⟨_, _, .waiting⟩ | ⟨_, _, .done⟩ | ⟨_, _, .timedOut⟩ | ⟨_, _, .failed⟩ | ⟨_, _, .crashed⟩ =>
    .isTrue trivial

instance (s : Cache Fp) : ∀ g : Collector Fp, Decidable (g.Justified s)
  | ⟨_, _, .clearing fp mtime dir _⟩ =>
    inferInstanceAs (Decidable (∀ entry ∈ s.entries fp,
      (s.locks fp).map (·.id) = some dir ∧ ∀ t ∈ entry.marker, t ≤ mtime))
  | ⟨_, _, .dropping fp dir _⟩ =>
    inferInstanceAs (Decidable (∀ _entry ∈ s.entries fp, (s.locks fp).map (·.id) = some dir))
  | ⟨_, _, .removing fp none rmtree _⟩ =>
    inferInstanceAs (Decidable (rmtree.Justified (s.locks fp) s.Dead))
  | ⟨_, _, .removing fp (some dir) rmtree _⟩ =>
    inferInstanceAs (Decidable (rmtree.Justified (s.locks fp) (·.id = dir)))
  | ⟨_, _, .next _⟩ | ⟨_, _, .locking _ _ _⟩ | ⟨_, _, .crashed⟩ => .isTrue trivial

instance (s : Cache Fp) : ∀ e : Event Fp, Decidable (Justified s e)
  | .step i => inferInstanceAs (Decidable (∀ c ∈ s.callers[i]?, c.Justified s))
  | .gcStep j => inferInstanceAs (Decidable (∀ g ∈ s.collectors[j]?, g.Justified s))
  | .call _ _ | .tick _ | .beat _ | .work _ _ | .finish _ | .read _ _ | .crash _ | .collect _ _
  | .gcCrash _ => .isTrue trivial

end Decidable

def steps (i count : ℕ) : List (Event Bool) := List.replicate count (.step i)

/-- A holder crashes, and 1000 seconds later its lock is stolen; the venv is made and the lock
released. When the entry is old, it is collected. -/
def oneThief : List (Event Bool) :=
  [.call false 600, .call false 600] ++ steps 0 2 ++ [.crash 0, .tick 1000] ++ steps 1 11 ++
    [.work 1 .makeVenv, .work 1 .writeMarker, .beat 1, .finish 1, .read 1 (some 1)] ++ steps 1 3 ++
    [.tick (cacheTtlS + 1), .collect true [.entry false]] ++ List.replicate 6 (.gcStep 0)

theorem sound_of_justified_sample :
    ∃ log s, Run ({} : Cache Bool) next log s ∧ s.made = 3 ∧ s.locks false = none ∧
      s.entries false = none ∧ ∀ x ∈ log, Exclusive x.after ∧ Spares x.before x.event x.after ∧
        Collects x.before x.event x.after := by
  have heval : (runScript next ([], ({} : Cache Bool)) oneThief).map (fun q =>
      (q.1.all fun x => Punctual x.before, q.1.all fun x => Justified x.before x.event,
        q.2.made, q.2.locks false, q.2.entries false)) = some (true, true, 3, none, none) := by
    decide +kernel
  obtain ⟨log, s, run, hview⟩ := Run.exists_of_runScript heval
  obtain ⟨hpunctual, hview⟩ := Prod.mk.inj hview
  obtain ⟨hjustified, hview⟩ := Prod.mk.inj hview
  obtain ⟨hmade, hview⟩ := Prod.mk.inj hview
  obtain ⟨hlock, hentry⟩ := Prod.mk.inj hview
  exact ⟨log, s, run, hmade, hlock, hentry, sound_of_justified run
    (fun x hx => of_decide_eq_true (List.all_eq_true.mp hpunctual x hx))
    fun x hx => of_decide_eq_true (List.all_eq_true.mp hjustified x hx)⟩

/-- A holder crashes, and two waiters find its lock stale. -/
def bothJudge : List (Event Bool) :=
  [.call false 600, .call false 600, .call false 600] ++ steps 0 2 ++ [.crash 0, .tick 1000] ++
    steps 1 6 ++ steps 2 6

/-- The one removes the lock and takes it, and the other has listed it since. -/
def robbed : List (Event Bool) := bothJudge ++ steps 1 5 ++ steps 2 1

/-- A venv is made, and used again 13 days later; 2 days after that it is collected. -/
def touched : List (Event Bool) :=
  [.call false 600] ++ steps 0 2 ++ [.work 0 .makeVenv, .work 0 .writeMarker, .finish 0,
    .read 0 (some 0)] ++ steps 0 3 ++ [.tick (13 * 24 * 3600), .call false 600] ++ steps 1 2 ++
    [.work 1 .touchMarker, .finish 1, .read 1 (some 1)] ++ steps 1 3 ++
    [.tick (2 * 24 * 3600), .collect true [.entry false]] ++ List.replicate 2 (.gcStep 0)

omit [DecidableEq Fp] in
theorem inside_iff {i : ℕ} {fp : Fp} {dir : ℕ} :
    s.Inside i fp dir ↔
      (s.callers.map fun c => (c.fp, c.phase.inside))[i]? = some (fp, some dir) := by
  rw [List.getElem?_map, Option.map_eq_some_iff]
  exact exists_congr fun c => and_congr_right fun _ => Prod.mk_inj.symm

/-- **A waiter removes the lock of another that has stolen it, and both are inside; a collection
clears an entry that was used two days before.** -/
theorem lock_lost :
    (∃ log s s', Run ({} : Cache Bool) next log s ∧ (∀ x ∈ log, Punctual x.before) ∧ Punctual s ∧
        next s (.step 2) = some s' ∧ ¬Spares s (.step 2) s') ∧
      (∃ log s, Run ({} : Cache Bool) next log s ∧ (∀ x ∈ log, Punctual x.before) ∧ Punctual s ∧
        ¬Exclusive s) ∧
      ∃ log s s', Run ({} : Cache Bool) next log s ∧ (∀ x ∈ log, Punctual x.before) ∧ Punctual s ∧
        next s (.gcStep 0) = some s' ∧ ¬Collects s (.gcStep 0) s' := by
  refine ⟨?_, ?_, ?_⟩
  · have heval : (runScript next ([], ({} : Cache Bool)) robbed).map (fun q =>
        ((q.1.all fun x => Punctual x.before) && Punctual q.2,
          q.2.callers.map (fun c => (c.fp, c.phase.inside)),
          (next q.2 (.step 2)).map fun s => decide (s.locks false = q.2.locks false))) =
        some (true, [(false, none), (false, some 1), (false, none)], some false) := by
      decide +kernel
    obtain ⟨log, s, run, hview⟩ := Run.exists_of_runScript heval
    obtain ⟨hpunctual, hview⟩ := Prod.mk.inj hview
    obtain ⟨hcallers, hafter⟩ := Prod.mk.inj hview
    obtain ⟨s', haccepted, hchanged⟩ := Option.map_eq_some_iff.mp hafter
    obtain ⟨hall, hnow⟩ := Bool.and_eq_true_iff.mp hpunctual
    refine ⟨log, s, s', run,
      fun x hx => of_decide_eq_true (List.all_eq_true.mp hall x hx), of_decide_eq_true hnow,
      haccepted, fun h => ?_⟩
    have hkept := h 1 false 1 (inside_iff.mpr (by rw [hcallers]; rfl)) nofun nofun
    exact of_decide_eq_false hchanged hkept
  · have heval : (runScript next ([], ({} : Cache Bool)) (robbed ++ steps 2 4)).map (fun q =>
        ((q.1.all fun x => Punctual x.before) && Punctual q.2,
          q.2.callers.map fun c => (c.fp, c.phase.inside))) =
        some (true, [(false, none), (false, some 1), (false, some 2)]) := by decide +kernel
    obtain ⟨log, s, run, hview⟩ := Run.exists_of_runScript heval
    obtain ⟨hpunctual, hcallers⟩ := Prod.mk.inj hview
    obtain ⟨hall, hnow⟩ := Bool.and_eq_true_iff.mp hpunctual
    refine ⟨log, s, run,
      fun x hx => of_decide_eq_true (List.all_eq_true.mp hall x hx), of_decide_eq_true hnow,
      fun h => ?_⟩
    have hsame := h 1 2 false 1 2 (inside_iff.mpr (by rw [hcallers]; rfl))
      (inside_iff.mpr (by rw [hcallers]; rfl))
    exact absurd hsame (by decide)
  · have heval : (runScript next ([], ({} : Cache Bool)) touched).map (fun q =>
        ((q.1.all fun x => Punctual x.before) && Punctual q.2, q.2.now, q.2.entries false,
          (next q.2 (.gcStep 0)).map (·.entries false))) =
        some (true, 15 * 24 * 3600, some ⟨0, some (13 * 24 * 3600)⟩,
          some (some ⟨15 * 24 * 3600, none⟩)) := by decide +kernel
    obtain ⟨log, s, run, hview⟩ := Run.exists_of_runScript heval
    obtain ⟨hpunctual, hview⟩ := Prod.mk.inj hview
    obtain ⟨hclock, hview⟩ := Prod.mk.inj hview
    obtain ⟨hentry, hafter⟩ := Prod.mk.inj hview
    obtain ⟨s', haccepted, hentry'⟩ := Option.map_eq_some_iff.mp hafter
    obtain ⟨hall, hnow⟩ := Bool.and_eq_true_iff.mp hpunctual
    refine ⟨log, s, s', run,
      fun x hx => of_decide_eq_true (List.all_eq_true.mp hall x hx), of_decide_eq_true hnow,
      haccepted, fun h => ?_⟩
    have hchanged : s'.entries false ≠ s.entries false := by
      rw [hentry, hentry']
      decide +kernel
    have hold := (h 0 false rfl hchanged).2 _ _ hentry rfl
    rw [hclock] at hold
    exact absurd hold (by decide +kernel)

end Kroker.VenvCache
