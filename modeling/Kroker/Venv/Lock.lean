import Kroker.Venv.Cache

/-!
# Who is inside a lock

Judging a lock to be stale and removing it are separate steps, and so are those of one removal.  A
removal is `Justified` where it is not overtaken: a lock removed as stale is stale when it is
listed, and is the one that was listed when the directory goes; a lock that is released is the one
that was made.

In a run whose removals are justified, and whose holders refresh their heartbeats in time, each
process that is inside of a lock made the directory that is there (`Orderly`), so that there is only
one (`Orderly.exclusive`).  This module is about what keeps the order: each operation on the file
system, and so each justified step (`Orderly.of_next`).
-/

namespace Kroker.VenvCache

/-! ## 1.  What holds of the lock -/

/-- The directory made by a process that is between acquiring and releasing the lock. -/
def Phase.inside : Phase → Option ℕ
  | .writing dir => some dir
  | .holding dir _ _ => some dir
  | _ => none

/-- The directory that a process on its way out may go on to remove. -/
def Phase.target : Phase → Option ℕ
  | .reading dir => some dir
  | .removing (.release dir) .scan => some dir
  | .removing _ (.unlink found _) => some found
  | _ => none

variable {Fp : Type}

def GcPhase.target : GcPhase Fp → Option ℕ
  | .clearing _ _ dir _ => some dir
  | .dropping _ dir _ => some dir
  | .removing _ (some dir) .scan _ => some dir
  | .removing _ _ (.unlink found _) _ => some found
  | _ => none

/-- The age that a collection has found an entry to have. -/
def GcPhase.mtime : GcPhase Fp → Option ℚ
  | .locking _ mtime _ => some mtime
  | .clearing _ mtime _ _ => some mtime
  | _ => none

/-- Process `i` is inside of a lock, with the directory it made. -/
def Cache.Inside (s : Cache Fp) (i : ℕ) (fp : Fp) (dir : ℕ) : Prop :=
  ∃ c, s.callers[i]? = some c ∧ c.fp = fp ∧ c.phase.inside = some dir

/-- **At most one live process is inside of a lock.** -/
def Exclusive (s : Cache Fp) : Prop :=
  ∀ i j fp dir dir', s.Inside i fp dir → s.Inside j fp dir' → i = j

/-- **No step of another process**, a steal, a release or any other, changes the lock directory of a
process that is inside. -/
def Spares (s : Cache Fp) (e : Event Fp) (s' : Cache Fp) : Prop :=
  ∀ j fp dir, s.Inside j fp dir → e ≠ .step j → e ≠ .beat j → s'.locks fp = s.locks fp

/-- **A collection removes nothing from an entry** whose lock is held, or whose marker was touched
within the TTL. -/
def Collects (s : Cache Fp) (e : Event Fp) (s' : Cache Fp) : Prop :=
  ∀ k fp, e = .gcStep k → s'.entries fp ≠ s.entries fp →
    (∀ j dir, ¬s.Inside j fp dir) ∧
      ∀ entry t, s.entries fp = some entry → entry.marker = some t → cacheTtlS < s.now - t

/-- A live holder refreshes its heartbeat more often than the stale limit. -/
def Punctual (s : Cache Fp) : Prop :=
  ∀ c ∈ s.callers, ∀ dir lastBeat beating, c.phase = .holding dir lastBeat beating →
    s.now - lastBeat ≤ lockStaleS

/-! ## 2.  What a removal has to find -/

/-- A directory is dead: it would be judged stale now, and its maker is not yet to write its holder
file. -/
def Cache.Dead (s : Cache Fp) (d : LockDir) : Prop :=
  d.live s.now = false ∧ ∀ c ∈ s.callers, c.phase ≠ .writing d.id

/-- An `rmtree` lists a directory it may remove, and what it finds empty at the end is the directory
it has listed. -/
def Rmtree.Justified (lock : Option LockDir) (may : LockDir → Prop) : Rmtree → Prop
  | .scan => ∀ d ∈ lock, may d
  | .unlink found [] => ∀ d ∈ lock, d.files = [] → d.id = found
  | .unlink _ (_ :: _) => True

/-- What a step of a call of `dir_lock` has to find: a steal a dead directory, a release the one it
made. -/
def Caller.Justified (s : Cache Fp) (c : Caller Fp) : Prop :=
  match c.phase with
  | .removing .steal rmtree => rmtree.Justified (s.locks c.fp) s.Dead
  | .removing (.release dir) rmtree => rmtree.Justified (s.locks c.fp) (·.id = dir)
  | _ => True

/-- What a step of a call of `gc_cache` has to find: an entry under the lock it made, its marker not
newer than the directory it looked at; and a lock directory as the other removals do. -/
def Collector.Justified (s : Cache Fp) (g : Collector Fp) : Prop :=
  match g.phase with
  | .clearing fp mtime dir _ => ∀ entry ∈ s.entries fp,
    (s.locks fp).map (·.id) = some dir ∧ ∀ t ∈ entry.marker, t ≤ mtime
  | .dropping fp dir _ => ∀ _entry ∈ s.entries fp, (s.locks fp).map (·.id) = some dir
  | .removing fp none rmtree _ => rmtree.Justified (s.locks fp) s.Dead
  | .removing fp (some dir) rmtree _ => rmtree.Justified (s.locks fp) (·.id = dir)
  | _ => True

/-- **What a step has to find.** -/
def Justified (s : Cache Fp) : Event Fp → Prop
  | .step i => ∀ c ∈ s.callers[i]?, c.Justified s
  | .gcStep j => ∀ g ∈ s.collectors[j]?, g.Justified s
  | _ => True

/-! ## 3.  The invariant -/

/-- No process is inside with this directory, and none will be. -/
def Doomed (s : Cache Fp) (dir : ℕ) : Prop := dir < s.made ∧ ∀ i fp, ¬s.Inside i fp dir

structure Orderly (s : Cache Fp) : Prop where
  /-- The directories that are there have been made, and are apart. -/
  made : ∀ fp d, s.locks fp = some d → d.id < s.made
  apart : ∀ fp fp' d d', s.locks fp = some d → s.locks fp' = some d' → d.id = d'.id → fp = fp'
  /-- Who is inside made the directory that is there, and each made its own. -/
  inside : ∀ i fp dir, s.Inside i fp dir → ∃ d, s.locks fp = some d ∧ d.id = dir
  unique : ∀ i j fp fp' dir, s.Inside i fp dir → s.Inside j fp' dir → i = j
  /-- The last heartbeat is in the directory. -/
  written : ∀ (i : ℕ) c dir lastBeat beating d, s.callers[i]? = some c →
    c.phase = .holding dir lastBeat beating → s.locks c.fp = some d → (i, lastBeat) ∈ d.files
  /-- Nobody is inside of what is to be removed. -/
  leaving : ∀ c ∈ s.callers, ∀ dir, c.phase.target = some dir → Doomed s dir
  collecting : ∀ g ∈ s.collectors, ∀ dir, g.phase.target = some dir → Doomed s dir
  /-- A collection looks at entries that had not changed for long when it began. -/
  aged : ∀ g ∈ s.collectors, g.now ≤ s.now ∧
    ∀ mtime, g.phase.mtime = some mtime → cacheTtlS < g.now - mtime

/-- **Exclusion**, of two with one directory. -/
theorem Orderly.exclusive {s : Cache Fp} (h : Orderly s) : Exclusive s := by
  intro i j fp dir dir' hi hj
  obtain ⟨d, hd, rfl⟩ := h.inside i fp dir hi
  obtain ⟨d', hd', rfl⟩ := h.inside j fp dir' hj
  obtain rfl := Option.some.inj (hd.symm.trans hd')
  exact h.unique i j fp fp d.id hi hj

theorem Orderly.inside_lt {s : Cache Fp} (h : Orderly s) {i dir : ℕ} {fp : Fp}
    (hi : s.Inside i fp dir) : dir < s.made := by
  obtain ⟨d, hd, rfl⟩ := h.inside i fp dir hi
  exact h.made fp d hd

theorem Orderly.ne_of_doomed {s : Cache Fp} (h : Orderly s) {i dir : ℕ} {fp : Fp} {d : LockDir}
    (hi : s.Inside i fp dir) (hd : s.locks fp = some d) : ¬Doomed s d.id := by
  intro hdoomed
  obtain ⟨d', hd', rfl⟩ := h.inside i fp dir hi
  obtain rfl := Option.some.inj (hd.symm.trans hd')
  exact hdoomed.2 i fp hi

/-! ## 4.  Changes of the phase of one process -/

section Phase

variable {s : Cache Fp} {i : ℕ} {c : Caller Fp} {phase : Phase}

theorem inside_setPhase (hc : s.callers[i]? = some c) {j : ℕ} {fp : Fp} {dir : ℕ} :
    (s.setPhase i c phase).Inside j fp dir ↔
      (j = i ∧ c.fp = fp ∧ phase.inside = some dir) ∨ (j ≠ i ∧ s.Inside j fp dir) := by
  have hlt : i < s.callers.length := (List.getElem?_eq_some_iff.mp hc).1
  by_cases hj : j = i
  · subst hj
    simp [Cache.Inside, Cache.setPhase, List.getElem?_set_self hlt]
  · simp [Cache.Inside, Cache.setPhase, List.getElem?_set_ne (Ne.symm hj), hj]

theorem inside_of_phase (hc : s.callers[i]? = some c) {dir : ℕ} (h : c.phase.inside = some dir) :
    s.Inside i c.fp dir := ⟨c, hc, rfl, h⟩

theorem getElem?_setPhase (hc : s.callers[i]? = some c) {j : ℕ} {x : Caller Fp}
    (hx : (s.setPhase i c phase).callers[j]? = some x) :
    (j = i ∧ x = { c with phase := phase }) ∨ (j ≠ i ∧ s.callers[j]? = some x) := by
  have hlt : i < s.callers.length := (List.getElem?_eq_some_iff.mp hc).1
  by_cases hj : j = i
  · subst hj
    exact .inl ⟨rfl, Option.some.inj (hx.symm.trans (List.getElem?_set_self hlt))⟩
  · exact .inr ⟨hj, (List.getElem?_set_ne (Ne.symm hj)).symm.trans hx⟩

theorem mem_setPhase {x : Caller Fp} (hx : x ∈ (s.setPhase i c phase).callers) :
    x = { c with phase := phase } ∨ x ∈ s.callers :=
  (List.mem_or_eq_of_mem_set hx).symm

/-- **A process leaves**, or is not inside: it goes on to remove what is doomed, or what it made. -/
theorem Orderly.leave (h : Orderly s) (hc : s.callers[i]? = some c) (hinside : phase.inside = none)
    (htarget : ∀ dir, phase.target = some dir → Doomed s dir ∨ c.phase.inside = some dir) :
    Orderly (s.setPhase i c phase) := by
  have hmono : ∀ j fp dir, (s.setPhase i c phase).Inside j fp dir → j ≠ i ∧ s.Inside j fp dir := by
    intro j fp dir hj
    rcases (inside_setPhase hc).mp hj with ⟨-, -, hdir⟩ | hj
    · rw [hinside] at hdir
      cases hdir
    · exact hj
  have hdoomed : ∀ dir, Doomed s dir → Doomed (s.setPhase i c phase) dir :=
    fun dir hdir => ⟨hdir.1, fun j fp hj => hdir.2 j fp (hmono j fp dir hj).2⟩
  refine
    { made := h.made
      apart := h.apart
      inside := fun j fp dir hj => h.inside j fp dir (hmono j fp dir hj).2
      unique := fun j k fp fp' dir hj hk =>
        h.unique j k fp fp' dir (hmono j fp dir hj).2 (hmono k fp' dir hk).2
      written := ?_
      leaving := ?_
      collecting := fun g hg dir hdir => hdoomed dir (h.collecting g hg dir hdir)
      aged := h.aged }
  · intro j x dir lastBeat beating d hx hphase hd
    rcases getElem?_setPhase hc hx with ⟨-, rfl⟩ | ⟨-, hx⟩
    · rw [show phase = .holding dir lastBeat beating from hphase] at hinside
      cases hinside
    · exact h.written j x dir lastBeat beating d hx hphase hd
  · intro x hx dir hdir
    rcases mem_setPhase hx with rfl | hx
    · rcases htarget dir hdir with hdir | hmade
      · exact hdoomed dir hdir
      · have hi := inside_of_phase hc hmade
        refine ⟨h.inside_lt hi, fun j fp hj => ?_⟩
        obtain ⟨hne, hj⟩ := hmono j fp dir hj
        exact hne (h.unique j i fp c.fp dir hj hi)
    · exact hdoomed dir (h.leaving x hx dir hdir)

end Phase

/-! ## 5.  The other processes, and time -/

section Processes

variable {s : Cache Fp}

theorem Orderly.setGc (h : Orderly s) {j : ℕ} {g : Collector Fp} {phase : GcPhase Fp}
    (hg : s.collectors[j]? = some g) (htarget : ∀ dir, phase.target = some dir → Doomed s dir)
    (hmtime : ∀ mtime, phase.mtime = some mtime → cacheTtlS < g.now - mtime) :
    Orderly (s.setGc j g phase) := by
  have hmem : ∀ x ∈ (s.setGc j g phase).collectors, x = { g with phase := phase } ∨ x ∈ s.collectors :=
    fun x hx => (List.mem_or_eq_of_mem_set hx).symm
  refine
    { made := h.made
      apart := h.apart
      inside := h.inside
      unique := h.unique
      written := h.written
      leaving := h.leaving
      collecting := fun x hx dir hdir => ?_
      aged := fun x hx => ?_ }
  · rcases hmem x hx with rfl | hx
    · exact htarget dir hdir
    · exact h.collecting x hx dir hdir
  · rcases hmem x hx with rfl | hx
    · exact ⟨(h.aged g (List.mem_of_getElem? hg)).1, hmtime⟩
    · exact h.aged x hx

theorem Orderly.tick (h : Orderly s) {dt : ℚ} (hdt : 0 < dt) :
    Orderly { s with now := s.now + dt } := by
  refine ⟨h.made, h.apart, h.inside, h.unique, h.written, h.leaving, h.collecting, fun g hg => ?_⟩
  obtain ⟨hnow, hmtime⟩ := h.aged g hg
  exact ⟨hnow.trans (le_add_of_nonneg_right hdt.le), hmtime⟩

theorem Orderly.collect (h : Orderly s) (keep : Fp) (todo : List (Name Fp)) :
    Orderly
      { s with collectors := s.collectors ++ [{ keep := keep, now := s.now, phase := .next todo }] } := by
  refine ⟨h.made, h.apart, h.inside, h.unique, h.written, h.leaving, fun g hg dir hdir => ?_,
    fun g hg => ?_⟩
  · rcases List.mem_append.mp hg with hg | hg
    · exact h.collecting g hg dir hdir
    · obtain rfl := List.mem_singleton.mp hg
      cases hdir
  · rcases List.mem_append.mp hg with hg | hg
    · exact h.aged g hg
    · obtain rfl := List.mem_singleton.mp hg
      exact ⟨le_refl _, nofun⟩

theorem Orderly.call (h : Orderly s) (c : Caller Fp) (hc : c.phase = .opening) :
    Orderly { s with callers := s.callers ++ [c] } := by
  have hold : ∀ {i : ℕ} {x : Caller Fp}, (s.callers ++ [c])[i]? = some x →
      s.callers[i]? = some x ∨ x = c := by
    intro i x hx
    by_cases hi : i < s.callers.length
    · rw [List.getElem?_append_left hi] at hx
      exact .inl hx
    · rw [List.getElem?_append_right (Nat.le_of_not_lt hi)] at hx
      exact .inr (List.mem_singleton.mp (List.mem_of_getElem? hx))
  have hsame : ∀ i fp dir, Cache.Inside { s with callers := s.callers ++ [c] } i fp dir →
      s.Inside i fp dir := by
    rintro i fp dir ⟨x, hx, hfp, hdir⟩
    rcases hold hx with hx | rfl
    · exact ⟨x, hx, hfp, hdir⟩
    · rw [hc] at hdir
      cases hdir
  have hdoomed : ∀ dir, Doomed s dir → Doomed { s with callers := s.callers ++ [c] } dir :=
    fun dir hdir => ⟨hdir.1, fun i fp hi => hdir.2 i fp (hsame i fp dir hi)⟩
  refine ⟨h.made, h.apart, fun i fp dir hi => h.inside i fp dir (hsame i fp dir hi),
    fun i j fp fp' dir hi hj => h.unique i j fp fp' dir (hsame i fp dir hi) (hsame j fp' dir hj),
    fun i x dir lastBeat beating d hx hphase hd => ?_, fun x hx dir hdir => ?_,
    fun g hg dir hdir => hdoomed dir (h.collecting g hg dir hdir), h.aged⟩
  · rcases hold hx with hx | rfl
    · exact h.written i x dir lastBeat beating d hx hphase hd
    · rw [hc] at hphase
      cases hphase
  · rcases List.mem_append.mp hx with hx | hx
    · exact hdoomed dir (h.leaving x hx dir hdir)
    · obtain rfl := List.mem_singleton.mp hx
      rw [hc] at hdir
      cases hdir

end Processes

/-! ## 6.  Changes of one lock directory -/

section Lock

variable [DecidableEq Fp] {s : Cache Fp} {fp : Fp}

/-- Only a doomed directory changes, and it stays the one it is. -/
theorem Orderly.setLock (h : Orderly s) {lock : Option LockDir}
    (hdoomed : ∀ d, s.locks fp = some d → lock ≠ some d → Doomed s d.id)
    (hid : ∀ d', lock = some d' → ∃ d, s.locks fp = some d ∧ d.id = d'.id) :
    Orderly (s.setLock fp lock) := by
  -- Each directory that is there now was there.
  have hold : ∀ fp' d', (s.setLock fp lock).locks fp' = some d' →
      ∃ d, s.locks fp' = some d ∧ d.id = d'.id := by
    intro fp' d' hd'
    by_cases hfp : fp' = fp
    · subst hfp
      rw [Cache.setLock_self] at hd'
      exact hid d' hd'
    · rw [Cache.setLock_of_ne hfp] at hd'
      exact ⟨d', hd', rfl⟩
  -- Each that somebody is inside of is as it was.
  have hkept : ∀ i fp' dir, s.Inside i fp' dir → (s.setLock fp lock).locks fp' = s.locks fp' := by
    intro i fp' dir hi
    by_cases hfp : fp' = fp
    · subst hfp
      obtain ⟨d, hd, -⟩ := h.inside i fp' dir hi
      rw [Cache.setLock_self, hd]
      by_contra hne
      exact h.ne_of_doomed hi hd (hdoomed d hd hne)
    · rw [Cache.setLock_of_ne hfp]
  refine
    { made := fun fp' d' hd' => ?_
      apart := fun fp' fp'' d' d'' hd' hd'' hsame => ?_
      inside := fun i fp' dir hi => ?_
      unique := h.unique
      written := fun i c dir lastBeat beating d hc hphase hd => ?_
      leaving := h.leaving
      collecting := h.collecting
      aged := h.aged }
  · obtain ⟨d, hd, hsame⟩ := hold fp' d' hd'
    exact hsame ▸ h.made fp' d hd
  · obtain ⟨d, hd, hsame'⟩ := hold fp' d' hd'
    obtain ⟨e, he, hsame''⟩ := hold fp'' d'' hd''
    exact h.apart fp' fp'' d e hd he (hsame'.trans (hsame.trans hsame''.symm))
  · rw [hkept i fp' dir hi]
    exact h.inside i fp' dir hi
  · have hi : s.Inside i c.fp dir := inside_of_phase hc (by rw [hphase]; rfl)
    rw [hkept i c.fp dir hi] at hd
    exact h.written i c dir lastBeat beating d hc hphase hd

theorem Orderly.mkdir (h : Orderly s) (hfree : s.locks fp = none) : Orderly (s.mkdir fp) := by
  have hold : ∀ fp' d', (s.mkdir fp).locks fp' = some d' →
      (fp' = fp ∧ d' = { id := s.made, mtime := s.now }) ∨ (fp' ≠ fp ∧ s.locks fp' = some d') := by
    intro fp' d' hd'
    by_cases hfp : fp' = fp
    · subst hfp
      rw [Cache.mkdir_self] at hd'
      exact .inl ⟨rfl, (Option.some.inj hd').symm⟩
    · rw [Cache.mkdir_of_ne hfp] at hd'
      exact .inr ⟨hfp, hd'⟩
  have hkept : ∀ fp' d', s.locks fp' = some d' → (s.mkdir fp).locks fp' = some d' := by
    intro fp' d' hd'
    have hfp : fp' ≠ fp := by
      rintro rfl
      rw [hfree] at hd'
      cases hd'
    rw [Cache.mkdir_of_ne hfp]
    exact hd'
  have hdoomed : ∀ dir, Doomed s dir → Doomed (s.mkdir fp) dir :=
    fun dir hdir => ⟨Nat.lt_succ_of_lt hdir.1, hdir.2⟩
  refine
    { made := fun fp' d' hd' => ?_
      apart := fun fp' fp'' d' d'' hd' hd'' hsame => ?_
      inside := fun i fp' dir hi => ?_
      unique := h.unique
      written := fun i c dir lastBeat beating d hc hphase hd => ?_
      leaving := fun c hc dir hdir => hdoomed dir (h.leaving c hc dir hdir)
      collecting := fun g hg dir hdir => hdoomed dir (h.collecting g hg dir hdir)
      aged := h.aged }
  · rcases hold fp' d' hd' with ⟨-, rfl⟩ | ⟨-, hd'⟩
    · exact Nat.lt_succ_self s.made
    · exact Nat.lt_succ_of_lt (h.made fp' d' hd')
  · rcases hold fp' d' hd' with ⟨rfl, rfl⟩ | ⟨-, hthere⟩
    · rcases hold fp'' d'' hd'' with ⟨rfl, -⟩ | ⟨-, hthere'⟩
      · rfl
      · exact absurd hsame (Nat.ne_of_gt (h.made fp'' d'' hthere'))
    · rcases hold fp'' d'' hd'' with ⟨rfl, rfl⟩ | ⟨-, hthere'⟩
      · exact absurd hsame (Nat.ne_of_lt (h.made fp' d' hthere))
      · exact h.apart fp' fp'' d' d'' hthere hthere' hsame
  · obtain ⟨d, hd, rfl⟩ := h.inside i fp' dir hi
    exact ⟨d, hkept fp' d hd, rfl⟩
  · rcases hold c.fp d hd with ⟨hfp, -⟩ | ⟨-, hd⟩
    · obtain ⟨d', hd', -⟩ := h.inside i c.fp dir (inside_of_phase hc (by rw [hphase]; rfl))
      rw [hfp, hfree] at hd'
      cases hd'
    · exact h.written i c dir lastBeat beating d hc hphase hd

theorem Orderly.doomed_made (h : Orderly s) : Doomed (s.mkdir fp) s.made :=
  ⟨Nat.lt_succ_self s.made, fun _ _ hi => Nat.lt_irrefl _ (h.inside_lt hi)⟩

/-- **A process acquires the lock**: it makes the directory where there is none. -/
theorem Orderly.acquire (h : Orderly s) {i : ℕ} {c : Caller Fp} (hc : s.callers[i]? = some c)
    (hfree : s.locks c.fp = none) :
    Orderly ((s.mkdir c.fp).setPhase i c (.writing s.made)) := by
  have hmade := h.mkdir hfree
  -- Who is inside now was inside before, or is this process, in the new directory.
  have hcases : ∀ j fp dir, ((s.mkdir c.fp).setPhase i c (.writing s.made)).Inside j fp dir →
      (j = i ∧ c.fp = fp ∧ dir = s.made) ∨ (j ≠ i ∧ s.Inside j fp dir) := by
    intro j fp dir hj
    rcases (inside_setPhase (s := s.mkdir c.fp) hc).mp hj with ⟨hi, hfp, hdir⟩ | hj
    · exact .inl ⟨hi, hfp, (Option.some.inj hdir).symm⟩
    · exact .inr hj
  have hdoomed : ∀ dir, Doomed s dir →
      Doomed ((s.mkdir c.fp).setPhase i c (.writing s.made)) dir := by
    intro dir hdir
    refine ⟨Nat.lt_succ_of_lt hdir.1, fun j fp hj => ?_⟩
    rcases hcases j fp dir hj with ⟨-, -, rfl⟩ | ⟨-, hj⟩
    · exact Nat.lt_irrefl _ hdir.1
    · exact hdir.2 j fp hj
  refine
    { made := hmade.made
      apart := hmade.apart
      inside := fun j fp dir hj => ?_
      unique := fun j k fp fp' dir hj hk => ?_
      written := fun j x dir lastBeat beating d hx hphase hd => ?_
      leaving := fun x hx dir hdir => ?_
      collecting := fun g hg dir hdir => hdoomed dir (h.collecting g hg dir hdir)
      aged := h.aged }
  · rcases hcases j fp dir hj with ⟨-, rfl, rfl⟩ | ⟨-, hj⟩
    · exact ⟨_, Cache.mkdir_self, rfl⟩
    · exact hmade.inside j fp dir hj
  · rcases hcases j fp dir hj with ⟨rfl, -, rfl⟩ | ⟨-, hj⟩
    · rcases hcases k fp' s.made hk with ⟨rfl, -, -⟩ | ⟨-, hk⟩
      · rfl
      · exact absurd (h.inside_lt hk) (Nat.lt_irrefl _)
    · rcases hcases k fp' dir hk with ⟨-, -, rfl⟩ | ⟨-, hk⟩
      · exact absurd (h.inside_lt hj) (Nat.lt_irrefl _)
      · exact h.unique j k fp fp' dir hj hk
  · rcases getElem?_setPhase (s := s.mkdir c.fp) hc hx with ⟨-, rfl⟩ | ⟨-, hx⟩
    · cases hphase
    · exact hmade.written j x dir lastBeat beating d hx hphase hd
  · rcases mem_setPhase hx with rfl | hx
    · cases hdir
    · exact hdoomed dir (h.leaving x hx dir hdir)

@[simp] theorem LockDir.put_id (d : LockDir) (holder : ℕ) (now : ℚ) :
    (d.put holder now).id = d.id := by
  unfold LockDir.put
  split
  · rfl
  · rfl

theorem LockDir.mem_put (d : LockDir) (holder : ℕ) (now : ℚ) :
    (holder, now) ∈ (d.put holder now).files := by
  unfold LockDir.put
  split
  · rename_i hmem
    obtain ⟨f, hf, rfl⟩ := List.mem_map.mp hmem
    exact List.mem_map.mpr ⟨f, hf, if_pos rfl⟩
  · exact List.mem_append_right _ List.mem_cons_self

@[simp] theorem LockDir.unlink_id (d : LockDir) (holder : ℕ) (now : ℚ) :
    (d.unlink holder now).id = d.id := by
  unfold LockDir.unlink
  split
  · rfl
  · rfl

/-- **Who is inside writes its file** into the directory it made. -/
theorem Orderly.put (h : Orderly s) {i dir : ℕ} {c : Caller Fp} (hc : s.callers[i]? = some c)
    (hinside : c.phase.inside = some dir) :
    Orderly ((s.putHolder i c.fp).setPhase i c (.holding dir s.now true)) := by
  have hi := inside_of_phase hc hinside
  obtain ⟨d, hd, -⟩ := h.inside i c.fp dir hi
  have hself : (s.putHolder i c.fp).locks c.fp = some (d.put i s.now) := by
    rw [Cache.putHolder, Cache.setLock_self, hd]
    rfl
  have hother : ∀ fp, fp ≠ c.fp → (s.putHolder i c.fp).locks fp = s.locks fp :=
    fun fp hfp => Cache.setLock_of_ne hfp
  have hold : ∀ fp d', (s.putHolder i c.fp).locks fp = some d' →
      ∃ d, s.locks fp = some d ∧ d.id = d'.id := by
    intro fp d' hd'
    by_cases hfp : fp = c.fp
    · subst hfp
      rw [hself] at hd'
      cases hd'
      exact ⟨d, hd, (d.put_id i s.now).symm⟩
    · rw [hother fp hfp] at hd'
      exact ⟨d', hd', rfl⟩
  -- Nobody enters or leaves.
  have hsame : ∀ j fp k,
      ((s.putHolder i c.fp).setPhase i c (.holding dir s.now true)).Inside j fp k →
        s.Inside j fp k := by
    intro j fp k hj
    rcases (inside_setPhase (s := s.putHolder i c.fp) hc).mp hj with ⟨rfl, rfl, hk⟩ | ⟨-, hj⟩
    · cases hk
      exact hi
    · exact hj
  have hdoomed : ∀ k, Doomed s k →
      Doomed ((s.putHolder i c.fp).setPhase i c (.holding dir s.now true)) k :=
    fun k hk => ⟨hk.1, fun j fp hj => hk.2 j fp (hsame j fp k hj)⟩
  refine
    { made := fun fp d' hd' => ?_
      apart := fun fp fp' d' d'' hd' hd'' heq => ?_
      inside := fun j fp k hj => ?_
      unique := fun j k fp fp' l hj hk => h.unique j k fp fp' l (hsame j fp l hj) (hsame k fp' l hk)
      written := fun j x k lastBeat beating d' hx hphase hd' => ?_
      leaving := fun x hx k hk => ?_
      collecting := fun g hg k hk => hdoomed k (h.collecting g hg k hk)
      aged := h.aged }
  · obtain ⟨e, he, hsame⟩ := hold fp d' hd'
    exact hsame ▸ h.made fp e he
  · obtain ⟨e, he, hsame⟩ := hold fp d' hd'
    obtain ⟨e', he', hsame'⟩ := hold fp' d'' hd''
    exact h.apart fp fp' e e' he he' (hsame.trans (heq.trans hsame'.symm))
  · obtain ⟨e, he, rfl⟩ := h.inside j fp k (hsame j fp k hj)
    by_cases hfp : fp = c.fp
    · subst hfp
      obtain rfl := Option.some.inj (hd.symm.trans he)
      exact ⟨_, hself, d.put_id i s.now⟩
    · exact ⟨e, (hother fp hfp).trans he, rfl⟩
  · rcases getElem?_setPhase (s := s.putHolder i c.fp) hc hx with ⟨rfl, rfl⟩ | ⟨hj, hx⟩
    · cases hphase
      obtain rfl := Option.some.inj (hself.symm.trans hd')
      exact d.mem_put j s.now
    · have hfp : x.fp ≠ c.fp := by
        intro hfp
        have hjx : s.Inside j x.fp k := inside_of_phase hx (by rw [hphase]; rfl)
        exact hj (h.exclusive j i c.fp k dir (hfp ▸ hjx) hi)
      have hd' : s.locks x.fp = some d' := (hother x.fp hfp).symm.trans hd'
      exact h.written j x k lastBeat beating d' hx hphase hd'
  · rcases mem_setPhase hx with rfl | hx
    · cases hk
    · exact hdoomed k (h.leaving x hx k hk)

theorem Orderly.setEntry (h : Orderly s) (entry : Option Entry) : Orderly (s.setEntry fp entry) :=
  ⟨h.made, h.apart, h.inside, h.unique, h.written, h.leaving, h.collecting, h.aged⟩

end Lock

/-! ## 7.  Removals -/

variable {lock : Option LockDir}

theorem Rmtree.Justified.of_unlink {may may' : LockDir → Prop} {found : ℕ} {names : List ℕ}
    (h : (Rmtree.unlink found names).Justified lock may) :
    (Rmtree.unlink found names).Justified lock may' := by
  cases names with
  | nil => exact h
  | cons name names => trivial

theorem Rmtree.step_id {now : ℚ} {r : Rmtree} {d' : LockDir} (h : (r.step now lock).1 = some d') :
    ∃ d, lock = some d ∧ d.id = d'.id := by
  unfold Rmtree.step at h
  split at h
  · split at h
    · cases h
      exact ⟨_, rfl, rfl⟩
    · cases h
  · obtain ⟨d, rfl, rfl⟩ := Option.map_eq_some_iff.mp h
    refine ⟨d, rfl, ?_⟩
    split
    · exact (LockDir.unlink_id d _ now).symm
    · rfl
  · obtain ⟨rfl, -⟩ := Option.filter_eq_some_iff.mp h
    exact ⟨d', rfl, rfl⟩

/-- **A justified `rmtree` changes the directory it has listed only.** -/
theorem Rmtree.step_eq_or (now : ℚ) {r : Rmtree} {may : LockDir → Prop}
    (hjustified : r.Justified lock may) :
    (r.step now lock).1 = lock ∨
      ∃ d names, lock = some d ∧ r = .unlink d.id names := by
  unfold Rmtree.step
  split
  · split
    · exact .inl rfl
    · exact .inl rfl
  · rename_i found name names
    cases lock with
    | none => exact .inl rfl
    | some d =>
      by_cases hid : d.id = found
      · exact .inr ⟨d, name :: names, rfl, by rw [hid]⟩
      · exact .inl (by simp [hid])
  · rename_i found
    cases lock with
    | none => exact .inl rfl
    | some d =>
      by_cases hempty : d.files = []
      · exact .inr ⟨d, [], rfl, by rw [hjustified d rfl hempty]⟩
      · exact .inl (by simp [hempty])

theorem Rmtree.step_rest {now : ℚ} {r r' : Rmtree} (h : (r.step now lock).2 = some r') :
    ∃ found names, r' = .unlink found names ∧
      ((r = .scan ∧ ∃ d, lock = some d ∧ d.id = found) ∨ ∃ names', r = .unlink found names') := by
  unfold Rmtree.step at h
  split at h
  · split at h
    · cases h
      exact ⟨_, _, rfl, .inl ⟨rfl, _, rfl, rfl⟩⟩
    · cases h
  · cases h
    exact ⟨_, _, rfl, .inr ⟨_, rfl⟩⟩
  · cases h

theorem le_newest {files : List (ℕ × ℚ)} {f : ℕ × ℚ} (hf : f ∈ files) : f.2 ≤ newest files := by
  have hmono : ∀ (files : List (ℕ × ℚ)) (t : ℚ), t ≤ files.foldl (fun t f => max t f.2) t := by
    intro files
    induction files with
    | nil => exact fun t => le_refl t
    | cons f rest ih => exact fun t => (le_max_left t f.2).trans (ih (max t f.2))
  have hmem : ∀ t, f.2 ≤ files.foldl (fun t f => max t f.2) t := by
    induction files with
    | nil => cases hf
    | cons g rest ih =>
      intro t
      rcases List.mem_cons.mp hf with rfl | hf
      · exact (le_max_right t f.2).trans (hmono rest _)
      · exact ih hf _
  exact hmem 0

section Removals

variable [DecidableEq Fp] {s : Cache Fp} {fp : Fp}

theorem LockDir.live_of_mem {d : LockDir} {holder : ℕ} {t now : ℚ} (hmem : (holder, t) ∈ d.files)
    (ht : now - t ≤ lockStaleS) : d.live now = true := by
  have hfiles : d.files ≠ [] := List.ne_nil_of_mem hmem
  have hnewest : t ≤ newest d.files := le_newest hmem
  rw [LockDir.live, if_neg hfiles]
  exact decide_eq_true ((sub_le_sub_left hnewest now).trans ht)

omit [DecidableEq Fp] in
/-- **Nobody is inside of a dead directory**: who is has written to it in time, or is to write. -/
theorem Orderly.doomed_of_dead (h : Orderly s) (hpunctual : Punctual s) {d : LockDir}
    (hd : s.locks fp = some d) (hdead : s.Dead d) : Doomed s d.id := by
  refine ⟨h.made fp d hd, fun i fp' hi => ?_⟩
  obtain ⟨d', hd', hid⟩ := h.inside i fp' d.id hi
  obtain rfl := h.apart fp fp' d d' hd hd' hid.symm
  obtain rfl := Option.some.inj (hd.symm.trans hd')
  obtain ⟨c, hc, rfl, hinside⟩ := hi
  have hmem := List.mem_of_getElem? hc
  cases hphase : c.phase with
  | writing dir =>
    rw [hphase] at hinside
    cases hinside
    exact hdead.2 c hmem hphase
  | holding dir lastBeat beating =>
    have hwritten := h.written i c dir lastBeat beating d hc hphase hd
    have hlive := d.live_of_mem hwritten (hpunctual c hmem dir lastBeat beating hphase)
    rw [hdead.1] at hlive
    cases hlive
  | _ =>
    rw [hphase] at hinside
    cases hinside

/-- An `rmtree` removes what is doomed: what it may remove when it lists, and what it has listed. -/
def Removes (s : Cache Fp) (fp : Fp) (r : Rmtree) : Prop :=
  ∃ may : LockDir → Prop, r.Justified (s.locks fp) may ∧
    (∀ d, s.locks fp = some d → may d → Doomed s d.id) ∧
      ∀ found names, r = .unlink found names → Doomed s found

omit [DecidableEq Fp] in
/-- Only a doomed directory is changed. -/
theorem Removes.eq_or {r : Rmtree} (h : Removes s fp r) :
    (r.step s.now (s.locks fp)).1 = s.locks fp ∨ ∃ d, s.locks fp = some d ∧ Doomed s d.id := by
  obtain ⟨may, hjustified, -, hunlink⟩ := h
  rcases Rmtree.step_eq_or s.now hjustified with hsame | ⟨d, names, hd, hr⟩
  · exact .inl hsame
  · exact .inr ⟨d, hd, hunlink d.id names hr⟩

theorem Orderly.rmtree (h : Orderly s) {r : Rmtree} (hremoves : Removes s fp r) :
    Orderly (s.setLock fp (r.step s.now (s.locks fp)).1) := by
  refine h.setLock (fun d hd hne => ?_) fun d' hd' => Rmtree.step_id hd'
  rcases hremoves.eq_or with hsame | ⟨d', hd', hdoomed⟩
  · exact absurd (hsame.trans hd) hne
  · obtain rfl := Option.some.inj (hd.symm.trans hd')
    exact hdoomed

omit [DecidableEq Fp] in
/-- What it has listed is doomed. -/
theorem Removes.rest {r r' : Rmtree} (h : Removes s fp r)
    (hrest : (r.step s.now (s.locks fp)).2 = some r') :
    ∃ found names, r' = .unlink found names ∧ Doomed s found := by
  obtain ⟨may, hjustified, hmay, hunlink⟩ := h
  obtain ⟨found, names, rfl, ⟨rfl, d, hd, rfl⟩ | ⟨names', rfl⟩⟩ := Rmtree.step_rest hrest
  · exact ⟨d.id, names, rfl, hmay d hd (hjustified d hd)⟩
  · exact ⟨found, names, rfl, hunlink found names' rfl⟩

@[simp] theorem target_unlink (why : Why) (found : ℕ) (names : List ℕ) :
    (Phase.removing why (.unlink found names)).target = some found := by
  cases why with
  | steal => rfl
  | release dir => rfl

omit [DecidableEq Fp] in
@[simp] theorem gcTarget_unlink (fp : Fp) (own : Option ℕ) (found : ℕ) (names : List ℕ)
    (todo : List (Name Fp)) :
    (GcPhase.removing fp own (.unlink found names) todo).target = some found := by
  cases own with
  | none => rfl
  | some dir => rfl

omit [DecidableEq Fp] in
/-- **A call removes a dead directory, or the one it made.** -/
theorem Orderly.caller_removes (h : Orderly s) (hpunctual : Punctual s) {c : Caller Fp}
    (hc : c ∈ s.callers) (hjustified : c.Justified s) {why : Why} {r : Rmtree}
    (hphase : c.phase = .removing why r) : Removes s c.fp r := by
  have hunlink : ∀ found names, r = .unlink found names → Doomed s found := by
    rintro found names rfl
    exact h.leaving c hc found (by rw [hphase, target_unlink])
  rw [Caller.Justified, hphase] at hjustified
  cases why with
  | steal => exact ⟨s.Dead, hjustified, fun d hd => h.doomed_of_dead hpunctual hd, hunlink⟩
  | release dir =>
    cases r with
    | scan =>
      have hdir := h.leaving c hc dir (by rw [hphase]; rfl)
      exact ⟨(·.id = dir), hjustified, fun d _ hid => hid ▸ hdir, hunlink⟩
    | unlink found names =>
      exact ⟨fun _ => False, Rmtree.Justified.of_unlink hjustified, nofun, hunlink⟩

omit [DecidableEq Fp] in
theorem Orderly.collector_removes (h : Orderly s) (hpunctual : Punctual s) {g : Collector Fp}
    (hg : g ∈ s.collectors) (hjustified : g.Justified s) {own : Option ℕ} {r : Rmtree}
    {todo : List (Name Fp)} (hphase : g.phase = .removing fp own r todo) : Removes s fp r := by
  have hunlink : ∀ found names, r = .unlink found names → Doomed s found := by
    rintro found names rfl
    exact h.collecting g hg found (by rw [hphase, gcTarget_unlink])
  rw [Collector.Justified, hphase] at hjustified
  cases own with
  | none => exact ⟨s.Dead, hjustified, fun d hd => h.doomed_of_dead hpunctual hd, hunlink⟩
  | some dir =>
    cases r with
    | scan =>
      have hdir := h.collecting g hg dir (by rw [hphase]; rfl)
      exact ⟨(·.id = dir), hjustified, fun d _ hid => hid ▸ hdir, hunlink⟩
    | unlink found names =>
      exact ⟨fun _ => False, Rmtree.Justified.of_unlink hjustified, nofun, hunlink⟩

end Removals

/-! ## 8.  Steps -/

section Steps

variable [DecidableEq Fp] {s s' : Cache Fp}

/-- **What a step of a call of `dir_lock` does**: it goes on outside of the lock, makes the
directory, writes its file, or removes a part of a directory. -/
inductive Operates (s : Cache Fp) (i : ℕ) (c : Caller Fp) : Cache Fp → Prop
  | go {phase : Phase} (hinside : phase.inside = none) (htarget : phase.target = none) :
      Operates s i c (s.setPhase i c phase)
  | acquire (hfree : s.locks c.fp = none) :
      Operates s i c ((s.mkdir c.fp).setPhase i c (.writing s.made))
  | write {dir : ℕ} (hphase : c.phase = .writing dir) :
      Operates s i c ((s.putHolder i c.fp).setPhase i c (.holding dir s.now true))
  | remove {why : Why} {r : Rmtree} {phase : Phase} (hphase : c.phase = .removing why r)
      (hinside : phase.inside = none)
      (htarget : ∀ dir, phase.target = some dir →
        ∃ names, (r.step s.now (s.locks c.fp)).2 = some (.unlink dir names)) :
      Operates s i c ((s.setLock c.fp (r.step s.now (s.locks c.fp)).1).setPhase i c phase)

variable {c : Caller Fp}

theorem operates_of_advance {i : ℕ} (hstep : s.advance i c = some s') :
    Operates s i c s' := by
  unfold Cache.advance at hstep
  split at hstep
  · split at hstep
    · rename_i hfree
      cases hstep
      exact .acquire hfree
    · cases hstep
      exact .go rfl rfl
  · rename_i dir hphase
    cases hstep
    exact .write hphase
  · split at hstep
    · cases hstep
      exact .go rfl rfl
    · cases hstep
      exact .go rfl rfl
  · split at hstep
    · cases hstep
      exact .go rfl rfl
    · split at hstep
      · cases hstep
        exact .go rfl rfl
      · cases hstep
        exact .go rfl rfl
  · cases hstep
    exact .go rfl rfl
  · split at hstep
    · cases hstep
      exact .go rfl rfl
    · cases hstep
      exact .go rfl rfl
  · split at hstep
    · cases hstep
      exact .go rfl rfl
    · cases hstep
      exact .go rfl rfl
  · split at hstep
    · cases hstep
      exact .go rfl rfl
    · cases hstep
      exact .go rfl rfl
  · rename_i why r hphase
    dsimp only at hstep
    split at hstep
    · rename_i hrest
      cases hstep
      refine .remove hphase rfl fun dir hdir => ?_
      obtain ⟨found, names, rfl, -⟩ := Rmtree.step_rest hrest
      rw [target_unlink] at hdir
      cases hdir
      exact ⟨names, hrest⟩
    · cases hstep
      exact .remove hphase rfl nofun
    · cases hstep
      exact .remove hphase rfl nofun
  · cases hstep

/-- **A step of a call of `dir_lock`** keeps the order. -/
theorem Orderly.advance (h : Orderly s) (hpunctual : Punctual s) {i : ℕ}
    (hc : s.callers[i]? = some c) (hjustified : c.Justified s) (hstep : Operates s i c s') :
    Orderly s' := by
  cases hstep with
  | go hinside htarget =>
    refine h.leave hc hinside fun dir hdir => ?_
    rw [htarget] at hdir
    cases hdir
  | acquire hfree => exact h.acquire hc hfree
  | write hphase => exact h.put hc (by rw [hphase]; rfl)
  | remove hphase hinside htarget =>
    have hremoves := h.caller_removes hpunctual (List.mem_of_getElem? hc) hjustified hphase
    refine (h.rmtree hremoves).leave hc hinside fun dir hdir => .inl ?_
    obtain ⟨names, hrest⟩ := htarget dir hdir
    obtain ⟨found, names', heq, hdoomed⟩ := hremoves.rest hrest
    cases heq
    exact hdoomed

theorem Orderly.beat (h : Orderly s) {i : ℕ} (hc : s.callers[i]? = some c)
    (hstep : s.beat i c = some s') : Orderly s' := by
  unfold Cache.beat at hstep
  split at hstep
  · rename_i dir lastBeat hphase
    have hinside : c.phase.inside = some dir := by
      rw [hphase]
      rfl
    split at hstep
    · cases hstep
      exact h.put hc hinside
    · rename_i hgone
      obtain ⟨d, hd, -⟩ := h.inside i c.fp dir (inside_of_phase hc hinside)
      rw [hgone] at hd
      cases hd
  · cases hstep

omit [DecidableEq Fp] in
theorem Orderly.finish (h : Orderly s) {i : ℕ} (hc : s.callers[i]? = some c)
    (hstep : s.finish i c = some s') : Orderly s' := by
  unfold Cache.finish at hstep
  split at hstep
  · rename_i dir lastBeat beating hphase
    cases hstep
    refine h.leave hc rfl fun dir' hdir => .inr ?_
    cases hdir
    rw [hphase]
    rfl
  · cases hstep

omit [DecidableEq Fp] in
theorem Orderly.read (h : Orderly s) {i : ℕ} (hc : s.callers[i]? = some c) {first : Option ℕ}
    (hstep : s.read i c first = some s') : Orderly s' := by
  unfold Cache.read at hstep
  dsimp only at hstep
  split at hstep
  · rename_i dir hphase
    split at hstep
    · split at hstep
      · cases hstep
        refine h.leave hc rfl fun dir' hdir => .inl ?_
        cases hdir
        exact h.leaving c (List.mem_of_getElem? hc) dir (by rw [hphase]; rfl)
      · cases hstep
        exact h.leave hc rfl nofun
    · cases hstep
  · cases hstep

theorem Orderly.work (h : Orderly s) {w : Cache.Work} (hstep : s.work c w = some s') :
    Orderly s' := by
  unfold Cache.work at hstep
  split at hstep
  · cases hstep
    exact h.setEntry _
  · cases hstep
    exact h.setEntry _
  · cases hstep
    exact h.setEntry _
  · cases hstep

/-- **What a step of a call of `gc_cache` does**: it goes on, makes the lock of an entry, clears the
entry and drops it, or removes a part of a lock directory. -/
inductive GcOperates (s : Cache Fp) (j : ℕ) (g : Collector Fp) : Cache Fp → Prop
  | go {phase : GcPhase Fp} (htarget : phase.target = none)
      (hmtime : ∀ mtime, phase.mtime = some mtime → cacheTtlS < g.now - mtime) :
      GcOperates s j g (s.setGc j g phase)
  | make {fp : Fp} {mtime : ℚ} {todo : List (Name Fp)} (hphase : g.phase = .locking fp mtime todo)
      (hfree : s.locks fp = none) :
      GcOperates s j g ((s.mkdir fp).setGc j g (.clearing fp mtime s.made todo))
  | clear {fp : Fp} {mtime : ℚ} {dir : ℕ} {todo : List (Name Fp)}
      (hphase : g.phase = .clearing fp mtime dir todo) :
      GcOperates s j g ((s.setEntry fp ((s.entries fp).map fun _ => { mtime := s.now })).setGc j g
        (.dropping fp dir todo))
  | drop {fp : Fp} {dir : ℕ} {todo : List (Name Fp)} (hphase : g.phase = .dropping fp dir todo) :
      GcOperates s j g ((s.setEntry fp ((s.entries fp).filter (·.marker ≠ none))).setGc j g
        (.removing fp (some dir) .scan todo))
  | remove {fp : Fp} {own : Option ℕ} {r : Rmtree} {todo : List (Name Fp)} {phase : GcPhase Fp}
      (hphase : g.phase = .removing fp own r todo) (hmtime : phase.mtime = none)
      (htarget : ∀ dir, phase.target = some dir →
        ∃ names, (r.step s.now (s.locks fp)).2 = some (.unlink dir names)) :
      GcOperates s j g ((s.setLock fp (r.step s.now (s.locks fp)).1).setGc j g phase)

theorem gcOperates_of_collect {j : ℕ} {g : Collector Fp} (hstep : s.collect j g = some s') :
    GcOperates s j g s' := by
  unfold Cache.collect at hstep
  split at hstep
  · cases hstep
  · split at hstep
    · cases hstep
      exact .go rfl nofun
    · rename_i mtime hmtime
      split at hstep
      · cases hstep
        exact .go rfl nofun
      · rename_i hold
        split at hstep
        · cases hstep
          refine .go rfl fun m hm => ?_
          cases hm
          exact not_le.mp fun hle => hold (.inr hle)
        · cases hstep
          exact .go rfl nofun
  · rename_i hphase
    split at hstep
    · cases hstep
      exact .go rfl nofun
    · rename_i hfree
      cases hstep
      exact .make hphase hfree
  · rename_i hphase
    cases hstep
    exact .clear hphase
  · rename_i hphase
    cases hstep
    exact .drop hphase
  · rename_i hphase
    dsimp only at hstep
    split at hstep
    · rename_i hrest
      cases hstep
      refine .remove hphase rfl fun dir hdir => ?_
      obtain ⟨found, names, rfl, -⟩ := Rmtree.step_rest hrest
      rw [gcTarget_unlink] at hdir
      cases hdir
      exact ⟨names, hrest⟩
    · cases hstep
      exact .remove hphase rfl nofun
  · cases hstep

/-- **A step of a call of `gc_cache`** keeps the order. -/
theorem Orderly.gcStep (h : Orderly s) (hpunctual : Punctual s) {j : ℕ} {g : Collector Fp}
    (hg : s.collectors[j]? = some g) (hjustified : g.Justified s) (hstep : GcOperates s j g s') :
    Orderly s' := by
  have hmem := List.mem_of_getElem? hg
  cases hstep with
  | go htarget hmtime =>
    refine h.setGc hg (fun dir hdir => ?_) hmtime
    rw [htarget] at hdir
    cases hdir
  | @make fp mtime todo hphase hfree =>
    refine (h.mkdir hfree).setGc hg (fun dir hdir => ?_) fun m hm => ?_
    · cases hdir
      exact h.doomed_made
    · cases hm
      exact (h.aged g hmem).2 mtime (by rw [hphase]; rfl)
  | @clear fp mtime dir todo hphase =>
    refine (h.setEntry _).setGc hg (fun dir' hdir => ?_) nofun
    cases hdir
    exact h.collecting g hmem dir (by rw [hphase]; rfl)
  | @drop fp dir todo hphase =>
    refine (h.setEntry _).setGc hg (fun dir' hdir => ?_) nofun
    cases hdir
    exact h.collecting g hmem dir (by rw [hphase]; rfl)
  | remove hphase hmtime htarget =>
    have hremoves := h.collector_removes hpunctual hmem hjustified hphase
    refine (h.rmtree hremoves).setGc hg (fun dir hdir => ?_) fun m hm => ?_
    · obtain ⟨names, hrest⟩ := htarget dir hdir
      obtain ⟨found, names', heq, hdoomed⟩ := hremoves.rest hrest
      cases heq
      exact hdoomed
    · rw [hmtime] at hm
      cases hm

/-- **A justified step keeps the order.** -/
theorem Orderly.of_next (h : Orderly s) (hpunctual : Punctual s) {e : Event Fp}
    (hjustified : Justified s e) (hstep : next s e = some s') : Orderly s' := by
  cases e with
  | call fp timeout =>
    cases hstep
    exact h.call _ rfl
  | tick dt =>
    obtain ⟨hdt, hstep⟩ := Option.ite_none_right_eq_some.mp hstep
    cases hstep
    exact h.tick hdt
  | step i =>
    obtain ⟨c, hc, hstep⟩ := Option.bind_eq_some_iff.mp hstep
    exact h.advance hpunctual hc (hjustified c hc) (operates_of_advance hstep)
  | beat i =>
    obtain ⟨c, hc, hstep⟩ := Option.bind_eq_some_iff.mp hstep
    exact h.beat hc hstep
  | work i w =>
    obtain ⟨c, -, hstep⟩ := Option.bind_eq_some_iff.mp hstep
    exact h.work hstep
  | finish i =>
    obtain ⟨c, hc, hstep⟩ := Option.bind_eq_some_iff.mp hstep
    exact h.finish hc hstep
  | read i first =>
    obtain ⟨c, hc, hstep⟩ := Option.bind_eq_some_iff.mp hstep
    exact h.read hc hstep
  | crash i =>
    obtain ⟨c, hc, rfl⟩ := Option.map_eq_some_iff.mp hstep
    exact h.leave hc rfl nofun
  | collect keep todo =>
    obtain ⟨-, hstep⟩ := Option.ite_none_right_eq_some.mp hstep
    cases hstep
    exact h.collect keep todo
  | gcStep j =>
    obtain ⟨g, hg, hstep⟩ := Option.bind_eq_some_iff.mp hstep
    exact h.gcStep hpunctual hg (hjustified g hg) (gcOperates_of_collect hstep)
  | gcCrash j =>
    obtain ⟨g, hg, rfl⟩ := Option.map_eq_some_iff.mp hstep
    exact h.setGc hg nofun nofun

end Steps

end Kroker.VenvCache
