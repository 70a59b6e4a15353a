import Kroker.Library.Run
import Mathlib.Algebra.Order.Ring.Unbundled.Rat

/-!
# The shared venv cache

`venv_cache.py`: a cache directory with, for each fingerprint, an entry and a lock directory.
"mkdir is the lock"; the holder writes a file named by its uuid and heartbeats it, and a lock whose
heartbeat is stale, or that is empty and not fresh, is stolen.  `gc_cache` removes the entries that
have not been touched for long, each under its own lock.

Each call of `dir_lock` and of `gc_cache` is a process here, and an event is one operation of it on
the file system: mkdir, list, stat, the reading of the clock, and of `rmtree` the listing, the
unlinking of each file and the final rmdir.  All but the rmdir work through the descriptor of the
directory that was listed.  A call of `dir_lock` is named by its position, which stands for the
uuid.  Times are rationals on one clock.

A lock directory is kept with its number among those made, and the process that made it with this
number; nothing in the code reads it.
-/

namespace Kroker.VenvCache

def cacheTtlS : ℚ := 14 * 24 * 3600

def lockStaleS : ℚ := 15 * 60

def lockEmptyFreshS : ℚ := 60

/-! ## 1.  Lock directories -/

/-- A lock directory: the time of its last change, and its holder files with theirs. -/
structure LockDir where
  id : ℕ
  mtime : ℚ
  files : List (ℕ × ℚ) := []
  deriving DecidableEq

def newest (files : List (ℕ × ℚ)) : ℚ := files.foldl (fun t f => max t f.2) 0

namespace LockDir

/-- `_lock_is_live`, in one go. -/
def live (d : LockDir) (now : ℚ) : Bool :=
  if d.files = [] then now - d.mtime ≤ lockEmptyFreshS else now - newest d.files ≤ lockStaleS

def put (d : LockDir) (holder : ℕ) (now : ℚ) : LockDir :=
  if holder ∈ d.files.map Prod.fst then
    { d with files := d.files.map fun f => if f.1 = holder then (holder, now) else f }
  else
    { d with
      files := d.files ++ [(holder, now)]
      mtime := now }

def unlink (d : LockDir) (holder : ℕ) (now : ℚ) : LockDir :=
  if holder ∈ d.files.map Prod.fst then
    { d with
      files := d.files.filter (·.1 ≠ holder)
      mtime := now }
  else d

end LockDir

/-- Where an `rmtree` of a lock directory is: it has yet to list it, or has these files left to
unlink in the directory it has listed. -/
inductive Rmtree where
  | scan
  | unlink (found : ℕ) (names : List ℕ)
  deriving DecidableEq

/-- The next operation of an `rmtree`, with what is left of it.  Errors are ignored: a directory
that is gone, and one that is not empty. -/
def Rmtree.step (now : ℚ) (lock : Option LockDir) : Rmtree → Option LockDir × Option Rmtree
  | .scan =>
    match lock with
    | some d => (some d, some (.unlink d.id (d.files.map Prod.fst)))
    | none => (none, none)
  | .unlink found (name :: names) =>
    (lock.map fun d => if d.id = found then d.unlink name now else d, some (.unlink found names))
  | .unlink _ [] => (lock.filter (·.files ≠ []), none)

/-! ## 2.  The state -/

/-- A cache entry: the time of the last change of its directory, and that of its marker. -/
structure Entry where
  mtime : ℚ
  marker : Option ℚ := none
  deriving DecidableEq

/-- Why a call of `dir_lock` removes the lock: it found it stale, or it releases the one it made. -/
inductive Why where
  | steal
  | release (dir : ℕ)
  deriving DecidableEq

/-- The next operation of a call of `dir_lock`. -/
inductive Phase where
  | opening
  /-- `_write_holder`, in the directory it has made. -/
  | writing (dir : ℕ)
  /-- The body, with the time of the last heartbeat; the heartbeat ends where it cannot write. -/
  | holding (dir : ℕ) (lastBeat : ℚ) (beating : Bool)
  /-- `_read_holder`, by a release. -/
  | reading (dir : ℕ)
  /-- `_lock_is_live`: `os.listdir`, `os.path.getmtime` of the directory and of its files, and
  `time.time()`. -/
  | listing
  | statting (entries : List ℕ)
  | measuring (entries : List ℕ) (newest : ℚ)
  | judging (mtime limit : ℚ)
  | waiting
  | removing (why : Why) (rmtree : Rmtree)
  | done
  | timedOut
  /-- The error of `_lock_is_live` where a listed file is gone. -/
  | failed
  | crashed
  deriving DecidableEq

structure Caller (Fp : Type) where
  fp : Fp
  deadline : ℚ
  phase : Phase := .opening

/-- A directory of the cache: an entry, or a lock directory. -/
inductive Name (Fp : Type) where
  | entry (fp : Fp)
  | lock (fp : Fp)
  deriving DecidableEq

/-- The next operation of a call of `gc_cache`, with the names it has yet to go through. -/
inductive GcPhase (Fp : Type) where
  | next (todo : List (Name Fp))
  /-- mkdir of the lock of an entry of this age. -/
  | locking (fp : Fp) (mtime : ℚ) (todo : List (Name Fp))
  /-- rmtree of the entry, under the lock it has made: its files, and the directory. -/
  | clearing (fp : Fp) (mtime : ℚ) (dir : ℕ) (todo : List (Name Fp))
  | dropping (fp : Fp) (dir : ℕ) (todo : List (Name Fp))
  /-- rmtree of a lock directory: one it has made, or a stale one. -/
  | removing (fp : Fp) (own : Option ℕ) (rmtree : Rmtree) (todo : List (Name Fp))
  | crashed

structure Collector (Fp : Type) where
  keep : Fp
  now : ℚ
  phase : GcPhase Fp

structure Cache (Fp : Type) where
  now : ℚ := 0
  locks : Fp → Option LockDir := fun _ => none
  entries : Fp → Option Entry := fun _ => none
  /-- How many lock directories have been made. -/
  made : ℕ := 0
  callers : List (Caller Fp) := []
  collectors : List (Collector Fp) := []

variable {Fp : Type} [DecidableEq Fp]

namespace Cache

variable (s : Cache Fp)

def setPhase (i : ℕ) (c : Caller Fp) (phase : Phase) : Cache Fp :=
  { s with callers := s.callers.set i { c with phase := phase } }

def setLock (fp : Fp) (lock : Option LockDir) : Cache Fp :=
  { s with locks := Function.update s.locks fp lock }

def setEntry (fp : Fp) (entry : Option Entry) : Cache Fp :=
  { s with entries := Function.update s.entries fp entry }

/-- `os.mkdir` of a lock directory that is not there. -/
def mkdir (fp : Fp) : Cache Fp :=
  { s.setLock fp (some { id := s.made, mtime := s.now }) with made := s.made + 1 }

section Fields

variable {s : Cache Fp} {fp fp' : Fp}

@[simp] theorem setLock_self {lock : Option LockDir} : (s.setLock fp lock).locks fp = lock :=
  Function.update_self ..

theorem setLock_of_ne (h : fp' ≠ fp) {lock : Option LockDir} :
    (s.setLock fp lock).locks fp' = s.locks fp' :=
  Function.update_of_ne h ..

@[simp] theorem setEntry_self {entry : Option Entry} : (s.setEntry fp entry).entries fp = entry :=
  Function.update_self ..

theorem setEntry_of_ne (h : fp' ≠ fp) {entry : Option Entry} :
    (s.setEntry fp entry).entries fp' = s.entries fp' :=
  Function.update_of_ne h ..

@[simp] theorem mkdir_self : (s.mkdir fp).locks fp = some { id := s.made, mtime := s.now } :=
  Function.update_self ..

theorem mkdir_of_ne (h : fp' ≠ fp) : (s.mkdir fp).locks fp' = s.locks fp' :=
  Function.update_of_ne h ..

end Fields

/-! ## 3.  `dir_lock` -/

/-- `_write_holder`, and a heartbeat.  Where the directory is gone, nothing is written. -/
def putHolder (i : ℕ) (fp : Fp) : Cache Fp :=
  s.setLock fp ((s.locks fp).map fun d => d.put i s.now)

/-- The next operation of a call, other than one of its body. -/
def advance (i : ℕ) (c : Caller Fp) : Option (Cache Fp) :=
  match c.phase with
  | .opening =>
    match s.locks c.fp with
    | none => some ((s.mkdir c.fp).setPhase i c (.writing s.made))
    | some _ => some (s.setPhase i c .listing)
  | .writing dir => some ((s.putHolder i c.fp).setPhase i c (.holding dir s.now true))
  | .listing =>
    match s.locks c.fp with
    | none => some (s.setPhase i c .waiting)
    | some d => some (s.setPhase i c (.statting (d.files.map Prod.fst)))
  | .statting entries =>
    match s.locks c.fp with
    | none => some (s.setPhase i c .waiting)
    | some d =>
      if entries = [] then some (s.setPhase i c (.judging d.mtime lockEmptyFreshS))
      else some (s.setPhase i c (.measuring entries 0))
  | .measuring [] newest => some (s.setPhase i c (.judging newest lockStaleS))
  | .measuring (entry :: entries) newest =>
    match (s.locks c.fp).bind fun d => d.files.lookup entry with
    | none => some (s.setPhase i c .failed)
    | some mtime => some (s.setPhase i c (.measuring entries (max newest mtime)))
  | .judging mtime limit =>
    if s.now - mtime ≤ limit then some (s.setPhase i c .waiting)
    else some (s.setPhase i c (.removing .steal .scan))
  | .waiting =>
    if c.deadline < s.now then some (s.setPhase i c .timedOut) else some (s.setPhase i c .opening)
  | .removing why rmtree =>
    let (lock, rest) := rmtree.step s.now (s.locks c.fp)
    match rest, why with
    | some rmtree, _ => some ((s.setLock c.fp lock).setPhase i c (.removing why rmtree))
    | none, .steal => some ((s.setLock c.fp lock).setPhase i c .opening)
    | none, .release _ => some ((s.setLock c.fp lock).setPhase i c .done)
  | _ => none

/-- A heartbeat, while the body runs. -/
def beat (i : ℕ) (c : Caller Fp) : Option (Cache Fp) :=
  match c.phase with
  | .holding dir _ true =>
    match s.locks c.fp with
    | some _ => some ((s.putHolder i c.fp).setPhase i c (.holding dir s.now true))
    | none => some (s.setPhase i c (.holding dir s.now false))
  | _ => none

/-- The body ends; no heartbeat is written any more. -/
def finish (i : ℕ) (c : Caller Fp) : Option (Cache Fp) :=
  match c.phase with
  | .holding dir _ _ => some (s.setPhase i c (.reading dir))
  | _ => none

/-- `_read_holder`, by a release: any one of the files may be the first. -/
def read (i : ℕ) (c : Caller Fp) (first : Option ℕ) : Option (Cache Fp) :=
  let files := ((s.locks c.fp).map fun d => d.files.map Prod.fst).getD []
  match c.phase with
  | .reading dir =>
    if (∀ holder ∈ first, holder ∈ files) ∧ (first = none → files = []) then
      if first = some i then some (s.setPhase i c (.removing (.release dir) .scan))
      else some (s.setPhase i c .done)
    else none
  | _ => none

inductive Work where
  | makeVenv
  | writeMarker
  | touchMarker

def work (c : Caller Fp) (w : Work) : Option (Cache Fp) :=
  match c.phase, w, s.entries c.fp with
  | .holding _ _ _, .makeVenv, none => some (s.setEntry c.fp (some { mtime := s.now }))
  | .holding _ _ _, .writeMarker, some e =>
    some (s.setEntry c.fp (some
      { mtime := if e.marker = none then s.now else e.mtime
        marker := some s.now }))
  | .holding _ _ _, .touchMarker, some e =>
    some (s.setEntry c.fp (some { e with marker := e.marker.map fun _ => s.now }))
  | _, _, _ => none

/-! ## 4.  `gc_cache` -/

def setGc (j : ℕ) (g : Collector Fp) (phase : GcPhase Fp) : Cache Fp :=
  { s with collectors := s.collectors.set j { g with phase := phase } }

/-- The time of the last change of a directory that is there. -/
def mtime? : Name Fp → Option ℚ
  | .entry fp => (s.entries fp).map (·.mtime)
  | .lock fp => (s.locks fp).map (·.mtime)

/-- The next operation of a call of `gc_cache`. -/
def collect (j : ℕ) (g : Collector Fp) : Option (Cache Fp) :=
  match g.phase with
  | .next [] => none
  | .next (name :: todo) =>
    match s.mtime? name with
    | none => some (s.setGc j g (.next todo))
    | some mtime =>
      if name = .entry g.keep ∨ g.now - mtime ≤ cacheTtlS then some (s.setGc j g (.next todo))
      else
        match name with
        | .entry fp => some (s.setGc j g (.locking fp mtime todo))
        | .lock fp => some (s.setGc j g (.removing fp none .scan todo))
  | .locking fp mtime todo =>
    match s.locks fp with
    | some _ => some (s.setGc j g (.next todo))
    | none => some ((s.mkdir fp).setGc j g (.clearing fp mtime s.made todo))
  | .clearing fp _ dir todo =>
    let cleared := (s.entries fp).map fun _ => { mtime := s.now }
    some ((s.setEntry fp cleared).setGc j g (.dropping fp dir todo))
  | .dropping fp dir todo =>
    let dropped := (s.entries fp).filter (·.marker ≠ none)
    some ((s.setEntry fp dropped).setGc j g (.removing fp (some dir) .scan todo))
  | .removing fp own rmtree todo =>
    let (lock, rest) := rmtree.step s.now (s.locks fp)
    match rest with
    | some rmtree => some ((s.setLock fp lock).setGc j g (.removing fp own rmtree todo))
    | none => some ((s.setLock fp lock).setGc j g (.next todo))
  | .crashed => none

end Cache

/-! ## 5.  Runs -/

inductive Event (Fp : Type) where
  | call (fp : Fp) (timeout : ℚ)
  | tick (dt : ℚ)
  | step (i : ℕ)
  | beat (i : ℕ)
  | work (i : ℕ) (w : Cache.Work)
  | finish (i : ℕ)
  | read (i : ℕ) (first : Option ℕ)
  | crash (i : ℕ)
  | collect (keep : Fp) (todo : List (Name Fp))
  | gcStep (j : ℕ)
  | gcCrash (j : ℕ)

/-- One operation of a process, or the passing of time.  A call of `gc_cache` lists the directories
that are there. -/
def next (s : Cache Fp) : Event Fp → Option (Cache Fp)
  | .call fp timeout =>
    some { s with callers := s.callers ++ [{ fp := fp, deadline := s.now + timeout }] }
  | .tick dt => if 0 < dt then some { s with now := s.now + dt } else none
  | .step i => s.callers[i]?.bind fun c => s.advance i c
  | .beat i => s.callers[i]?.bind fun c => s.beat i c
  | .work i w => s.callers[i]?.bind fun c => s.work c w
  | .finish i => s.callers[i]?.bind fun c => s.finish i c
  | .read i first => s.callers[i]?.bind fun c => s.read i c first
  | .crash i => s.callers[i]?.map fun c => s.setPhase i c .crashed
  | .collect keep todo =>
    if ∀ name ∈ todo, (s.mtime? name).isSome = true then
      some { s with collectors := s.collectors ++ [{ keep := keep, now := s.now, phase := .next todo }] }
    else none
  | .gcStep j => s.collectors[j]?.bind fun g => s.collect j g
  | .gcCrash j => s.collectors[j]?.map fun g => s.setGc j g .crashed

end Kroker.VenvCache
