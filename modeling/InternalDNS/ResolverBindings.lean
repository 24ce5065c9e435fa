import InternalDNS.Objects
import InternalDNS.Capacity
import InternalDNS.GoStore

/-! # Resolver bindings

A resolver binding is the projection of one tenant's access binding into the service: which context
it gives access to, on which shard it is placed, the addresses it is queried at and the zones it
attaches.  The context reconciler writes its `spec`, the acknowledgement sinks write its `status`,
and the planner of the shard reads it.
-/
namespace InternalDNS

open Go

/-- `v1alpha1.DNSResolverBindingSpec`, with the fields of its parts. -/
structure ResolverBindingSpec where
  projectUID : GoString
  resolverContextRef : ObjectReference
  accessBindingRef : ObjectReference
  region : GoString
  shard : GoString
  generation : Nat
  revision : Nat
  nodeAddress : GoString
  regionalAddress : GoString
  zoneRefs : List ObjectReference
  zoneApices : GoMap GoString GoString
  version : AccessVersion
  tombstone : Bool

/-- `v1alpha1.DNSApplyAcknowledgement`; `observedAt` is in nanoseconds. -/
structure ApplyAcknowledgement where
  memberID : GoString
  phase : GoString
  revision : Nat
  writerEpoch : Nat
  snapshotRevision : Nat
  accessEpoch : Nat
  accessSequence : Nat
  observedAt : Time
  validUntil : Option Time
  error : GoString
  deriving DecidableEq

/-- `metav1.ConditionStatus`. -/
inductive ConditionStatus where
  | isTrue
  | isFalse
  | unknown
  deriving DecidableEq

/-- `metav1.Condition`. -/
structure Condition where
  status : ConditionStatus
  reason : GoString
  observedGeneration : Nat
  deriving DecidableEq

/-- `v1alpha1.DNSResolverBindingStatus`, the conditions by their type. -/
structure ResolverBindingStatus where
  observedConfigurationRevision : Nat
  phase : GoString
  memberAcknowledgements : List ApplyAcknowledgement
  conditions : GoMap GoString Condition

/-- The labels of a resolver binding; a label that is not there is empty. -/
structure BindingLabels where
  projectUID : GoString
  sourceNamespace : GoString
  contextUID : GoString
  accessUID : GoString
  region : GoString
  shard : GoString

/-- `v1alpha1.DNSResolverBinding`. -/
structure ResolverBinding where
  name : GoString
  uid : GoString
  /-- The API server counts the changes of the spec. -/
  generation : Nat
  /-- There is a deletion timestamp. -/
  deleting : Bool
  labels : BindingLabels
  spec : ResolverBindingSpec
  status : ResolverBindingStatus

/-- All resolver bindings of the platform namespace. -/
abbrev ResolverBindings := Collection ResolverBinding.uid

namespace ResolverBinding

/-- The labels say where the binding is placed. -/
def Labelled (E : Externals) (o : ResolverBinding) : Prop :=
  o.labels.region = Platform.safeToken E o.spec.region ∧
    o.labels.shard = Platform.safeToken E o.spec.shard

/-- The binding keeps its place; a deletion is not taken back. -/
structure Stays (old new : ResolverBinding) : Prop where
  uid : new.uid = old.uid
  region : new.spec.region = old.spec.region
  shard : new.spec.shard = old.spec.shard
  deleting : old.deleting = true → new.deleting = true

theorem Stays.refl (o : ResolverBinding) : o.Stays o := ⟨rfl, rfl, rfl, id⟩

theorem Stays.trans {a b c : ResolverBinding} (hab : a.Stays b) (hbc : b.Stays c) : a.Stays c :=
  ⟨hbc.uid.trans hab.uid, hbc.region.trans hab.region, hbc.shard.trans hab.shard,
    hbc.deleting ∘ hab.deleting⟩

theorem Stays.of_run {changes : ResolverBinding → ResolverBinding → Prop}
    (hstays : ∀ a b, changes a b → a.Stays b) {a b : ResolverBinding}
    (h : Relation.ReflTransGen changes a b) : a.Stays b := by
  induction h with
  | refl => exact .refl a
  | tail _ hlast ih => exact ih.trans (hstays _ _ hlast)

end ResolverBinding

end InternalDNS
