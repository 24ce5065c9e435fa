import InternalDNS.GoNet

/-! # The wire contract

The values that the control plane writes and every serving replica reads: access
bindings with their zone attachments, the snapshot of a shard, and the publication of
a zone.  Numbers are naturals, because nothing here does arithmetic on them; a port is
a 16-bit word, because it is printed and parsed again.

`compare` is the order that every fence of the system uses.  It is the lexicographic
order of epoch and revision, and the lemmas here hand it to Mathlib's order on
lexicographic pairs.
-/
namespace InternalDNS

open Go

/-- A `time.Time`; zero is the zero time. -/
abbrev Time := Int

/-- `model.Compare`. -/
def compare (epoch revision currentEpoch currentRevision : Nat) : Int :=
  if epoch < currentEpoch ∨ (epoch = currentEpoch ∧ revision < currentRevision) then -1
  else if epoch = currentEpoch ∧ revision = currentRevision then 0
  else 1

theorem compare_neg_iff {e r ce cr : Nat} :
    compare e r ce cr < 0 ↔ toLex (e, r) < toLex (ce, cr) := by
  rw [Prod.Lex.toLex_lt_toLex, compare]
  split_ifs with h1 h2
  · simp [h1]
  · simp [h1]
  · simp [h1]

theorem compare_pos_iff {e r ce cr : Nat} :
    0 < compare e r ce cr ↔ toLex (ce, cr) < toLex (e, r) := by
  rw [Prod.Lex.toLex_lt_toLex, compare]
  simp only
  split_ifs with h1 h2 <;> simp <;> omega

theorem compare_eq_zero_iff {e r ce cr : Nat} : compare e r ce cr = 0 ↔ e = ce ∧ r = cr := by
  rw [compare]
  split_ifs with h1 h2
  · simp
    omega
  · simp [h2]
  · simp
    omega

/-- `model.AccessVersion`. -/
structure AccessVersion where
  epoch : Nat
  sequence : Nat
  deriving DecidableEq

/-- The order in which access versions are issued. -/
def AccessVersion.key (v : AccessVersion) : Nat ×ₗ Nat := toLex (v.epoch, v.sequence)

/-- `model.Backend`. -/
structure Backend where
  memberID : GoString
  address : GoString
  port : UInt16
  deriving DecidableEq

/-- `model.ZoneAttachment`. -/
structure ZoneAttachment where
  pending : Bool
  zoneUID : GoString
  apex : GoString
  requiredPublicationEpoch : Nat
  requiredPublicationRevision : Nat
  deriving DecidableEq

/-- `model.Binding`: a logical cache and policy context in shared processes. -/
structure Binding where
  bindingUID : GoString
  projectUID : GoString
  contextUID : GoString
  bindingGeneration : Nat
  configurationRevision : Nat
  consumerAddress : GoString
  clusterAddress : GoString
  port : UInt16
  transports : List GoString
  zones : List ZoneAttachment
  nodeBackends : List Backend
  clusterBackends : List Backend
  version : AccessVersion
  tombstone : Bool
  configurationPending : Bool
  deriving DecidableEq

/-- `model.Member`. -/
structure Member where
  memberID : GoString
  replicaID : GoString
  role : GoString
  deriving DecidableEq

/-- `model.MemberPattern`. -/
structure MemberPattern where
  role : GoString
  idPrefix : GoString
  deriving DecidableEq

/-- `model.PublicationRequirement`. -/
structure PublicationRequirement where
  zoneUID : GoString
  epoch : Nat
  revision : Nat
  deriving DecidableEq

/-- `model.ServingSnapshot`, complete for a shard: omission means removal. -/
structure ServingSnapshot where
  region : GoString
  shard : GoString
  configurationEpoch : Nat
  configurationRevision : Nat
  bindings : List Binding
  members : List Member
  memberPatterns : List MemberPattern
  requiredPublications : List PublicationRequirement
  generatedAt : Time
  deriving DecidableEq

/-- `model.RRRecord`. -/
structure RRRecord where
  content : GoString
  contributionUID : GoString
  generation : Nat
  sequence : Nat
  eligible : Bool
  deriving DecidableEq

/-- `model.RRSet`. -/
structure RRSet where
  name : GoString
  type : GoString
  ttl : Nat
  records : List RRRecord
  deriving DecidableEq

/-- `model.RegistrationFence`. -/
structure RegistrationFence where
  uid : GoString
  generation : Nat
  deriving DecidableEq

/-- `model.ObservationFence`: the accepted high-water mark of a contribution, withdrawn
observations included. -/
structure ObservationFence where
  contributionUID : GoString
  generation : Nat
  sequence : Nat
  retired : Bool
  sourceName : GoString
  deriving DecidableEq

/-- `model.PublicationPlan`. -/
structure PublicationPlan where
  zoneUID : GoString
  apex : GoString
  registrations : List RegistrationFence
  observationFences : List ObservationFence
  owners : List GoString
  rrsets : List RRSet
  deriving DecidableEq

/-- `model.ChunkRef`. -/
structure ChunkRef where
  index : Int
  sha256 : GoString
  size : Int
  deriving DecidableEq

/-- `model.PublicationManifest`. -/
structure PublicationManifest where
  manifestUID : GoString
  zoneUID : GoString
  apex : GoString
  writerEpoch : Nat
  revision : Nat
  previousRevision : Nat
  tombstone : Bool
  chunks : List ChunkRef
  contentHash : GoString
  generatedAt : Time
  deriving DecidableEq

/-- `model.PublicationChunk`. -/
structure PublicationChunk where
  manifestUID : GoString
  zoneUID : GoString
  writerEpoch : Nat
  revision : Nat
  index : Int
  sha256 : GoString
  payload : List UInt8
  deriving DecidableEq

end InternalDNS
