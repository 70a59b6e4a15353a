import Kroker.Core.Text

/-!
# Capability identities: the contracts

`capability/models.py`, as far as the store, the matcher and the corrections read it.  A value of
these types satisfies what its validator checks: a row whose status and fields disagree, and a
fingerprint whose tiers are not sorted, cannot be built.

The number a `Measurement` carries is left out: only its state and its reason are read.
-/

namespace Kroker

/-- `CollectionState`, with the reason the two unmeasured states require. -/
inductive Measurement where
  | measured
  | notCollected (reason : String)
  | unknown (reason : String)
  deriving DecidableEq

def Measurement.reason : Measurement → String
  | .measured => ""
  | .notCollected reason => reason
  | .unknown reason => reason

inductive SignalTier where
  | contract
  | behavioral
  | structural
  | locational
  deriving DecidableEq

def SignalTier.all : List SignalTier := [.contract, .behavioral, .structural, .locational]

/-! ## Fingerprints -/

theorem sortedSet_sortedSet (items : List String) :
    sortedSet (sortedSet items) = sortedSet items :=
  ((lists_sortedSet _).congr fun _ => mem_sortedSet).unique (lists_sortedSet items)

/-- What one assessment observed for one capability. -/
structure CapabilityFingerprint where
  tiers : SignalTier → List String
  collected : Measurement
  canonical : ∀ t, sortedSet (tiers t) = tiers t

/-- The constructor, with `_canonicalize`. -/
def CapabilityFingerprint.of (tiers : SignalTier → List String) (collected : Measurement) :
    CapabilityFingerprint where
  tiers := fun t => sortedSet (tiers t)
  collected := collected
  canonical := fun t => sortedSet_sortedSet (tiers t)

/-! ## The registry row -/

inductive IdentityStatus where
  | active
  | retired
  | merged
  deriving DecidableEq

def IdentityStatus.value : IdentityStatus → String
  | .active => "active"
  | .retired => "retired"
  | .merged => "merged"

inductive RetiredReason where
  | notObserved
  | absorbed

theorem isSome_iff_of_active :
    (none : Option RetiredReason).isSome = true ↔ IdentityStatus.active = .retired := by
  decide

theorem isSome_iff_of_merged :
    (none : Option RetiredReason).isSome = true ↔ IdentityStatus.merged = .retired := by
  decide

theorem isSome_of_active : IdentityStatus.active = .merged → (none : Option String).isSome = true :=
  nofun

theorem none_ne_id (id : String) : none ≠ some id := nofun

/-- The registry row: one per capability per project.  The last four fields are
`_status_fields_agree`. -/
structure CapabilityIdentity where
  bcId : String
  project : String
  firstSeenRun : String
  status : IdentityStatus := .active
  retiredReason : Option RetiredReason := none
  mergedInto : Option String := none
  derivedFrom : Option String := none
  fingerprint : CapabilityFingerprint
  retiredReason_isSome : retiredReason.isSome = true ↔ status = .retired := by
    first | exact Kroker.isSome_iff_of_active | exact Kroker.isSome_iff_of_merged | decide
  mergedInto_isSome : status = .merged → mergedInto.isSome = true := by
    first | exact Kroker.isSome_of_active | decide
  mergedInto_ne : mergedInto ≠ some bcId := by first | exact Kroker.none_ne_id _ | simp
  derivedFrom_ne : derivedFrom ≠ some bcId := by first | exact Kroker.none_ne_id _ | simp

def CapabilityIdentity.primaryKey (r : CapabilityIdentity) : String × String := (r.project, r.bcId)

/-! ## Attachments -/

/-- `AttachMethod`, with the score that `method=matched` requires and no other method has. -/
inductive AttachMethod (σ : Type) where
  | firstDiscovery
  | matched (matchScore : σ) (contributions : List (SignalTier × σ))
  | forcedByCorrection

/-- The join of one assessment's capability to an identity. -/
structure IdentityAttachment (σ : Type) where
  localKey : String
  bcId : String
  method : AttachMethod σ

inductive AdvisoryKind where
  | possibleRename
  | ambiguousMatch
  | split
  | identityNotAssessed
  deriving DecidableEq

structure Advisory (σ : Type) where
  kind : AdvisoryKind
  detail : String
  localKey : String := ""
  relatedBcId : Option String := none
  score : Option σ := none

/-- One capability boundary an assessment proposes, before it has an id. -/
structure ProposedCapability where
  localKey : String
  fingerprint : CapabilityFingerprint

structure ResolutionResult (σ : Type) where
  attachments : List (IdentityAttachment σ) := []
  retired : List String := []
  merged : Dict String := ∅
  advisories : List (Advisory σ) := []

end Kroker
