import InternalDNS.BindingFences
import InternalDNS.Render

/-! # The agent's checkpoint

Everything an agent knows: the configuration it has approved and runs, the desired state it was
sent, and the fences that keep it from accepting older state again.  The same value is held in
memory and saved to disk.
-/
namespace InternalDNS

open Go

/-- `serving.contributionFence`. -/
structure ContributionFence where
  generation : Nat
  sequence : Nat
  retired : Bool
  deriving DecidableEq

/-- `serving.replicaAck`. -/
structure ReplicaAck where
  rejected : Bool
  observedAt : Time
  fence : Fence
  validUntil : Time
  deriving DecidableEq

/-- `serving.activeConfiguration`: what was approved, and the files it was rendered to. -/
structure ActiveConfiguration where
  snapshot : ServingSnapshot
  publications : GoMap GoString PublicationState
  files : GoMap GoString GoString
  nodeAuthoritative : Bool

/-- `serving.checkpoint`. -/
structure Checkpoint where
  active : Option ActiveConfiguration
  withdrawing : Option ActiveConfiguration
  formatVersion : Nat
  servingFence : Fence
  snapshot : Option ServingSnapshot
  publications : GoMap GoString PublicationState
  chunks : GoMap GoString (GoMap GoString PublicationChunk)
  acks : GoMap GoString (GoMap GoString ReplicaAck)
  bindingFences : BindingFences
  contributionFences : GoMap GoString ContributionFence
  renderedHash : GoString
  updatedAt : Time

/-- `serving.checkpointFormatVersion`. -/
def checkpointFormatVersion : Nat := 7

/-- `serving.newCheckpoint`. -/
def newCheckpoint : Checkpoint where
  active := none
  withdrawing := none
  formatVersion := checkpointFormatVersion
  servingFence := ⟨0, 0⟩
  snapshot := none
  publications := ∅
  chunks := ∅
  acks := ∅
  bindingFences := ∅
  contributionFences := ∅
  renderedHash := []
  updatedAt := 0

/-- The fence of a zone, zero before its first publication. -/
def Checkpoint.fenceOf (c : Checkpoint) (zoneUID : GoString) : Fence :=
  ((c.publications.lookup zoneUID).map PublicationState.fence).getD ⟨0, 0⟩

/-- The chunks staged for a manifest are of no use any more: there are none, or the zone's applied
fence has passed them. -/
def Checkpoint.superseded (c : Checkpoint) (chunks : GoMap GoString PublicationChunk) : Bool :=
  match chunks.entries.head? with
  | none => true
  | some ⟨_, chunk⟩ =>
    let applied := c.fenceOf chunk.zoneUID
    applied.revision > 0 &&
      compare chunk.writerEpoch chunk.revision applied.epoch applied.revision < 0

/-- `serving.pruneSupersededChunks`. -/
def Checkpoint.pruneSupersededChunks (c : Checkpoint) : Checkpoint :=
  let old := c.chunks.entries.filter fun e => c.superseded e.2
  { c with chunks := old.foldl (fun chunks e => chunks.erase e.1) c.chunks }

/-- The checks of `stateStore.Load` on a decoded checkpoint. -/
def Checkpoint.load (E : Externals) (c : Checkpoint) : Except GoString Checkpoint := do
  failIf (c.formatVersion ≠ checkpointFormatVersion)
    (lit "unsupported checkpoint format " ++ itoa c.formatVersion ++ lit ": preserve the existing " ++
      lit "checkpoint; automatic backend or binding authority history migration is not supported")
  forEach (fun e => failIf (e.1 = [] ∨ e.2.identity = [] ∨ e.2.configurationGeneration = 0 ∨
      e.2.configurationRevision = 0 ∨ e.2.version.epoch = 0 ∨ e.2.version.sequence = 0)
    (lit "checkpoint binding " ++ e.1 ++ lit " has incomplete authority history"))
    c.bindingFences.entries
  forEach (fun b => failIf (c.bindingFences.lookup b.bindingUID ≠ some (bindingFenceFor E.hash b))
    (lit "checkpoint binding " ++ b.bindingUID ++ lit " does not match its authority history"))
    (c.snapshot.elim [] ServingSnapshot.bindings)
  forEach (fun e => failIf (e.1 = [] ∨ e.2.generation = 0 ∨ e.2.sequence = 0)
    (lit "invalid persisted contribution fence " ++ quoted e.1)) c.contributionFences.entries
  forEach (fun s => wrap (lit "invalid persisted serving snapshot: ") (s.validate E))
    c.snapshot.toList
  forEach (fun e => skipIf e.2.manifest.tombstone
    (wrap (lit "invalid persisted publication " ++ e.1 ++ lit ": ") (e.2.plan.validate E)))
    c.publications.entries
  .ok c.pruneSupersededChunks

end InternalDNS
