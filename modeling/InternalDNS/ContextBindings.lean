import InternalDNS.ShardHistory

/-! # Resolver bindings of a context

For every access binding of a tenant that it accepts, the context reconciler keeps one resolver
binding: it creates it, follows the zones of the context, withdraws it when the access ends, and
brings it back if the access becomes valid again.  What it writes is counted: the configuration
generation counts the zone sets, the configuration revision all changes of what is served, and the
access version the times the access was withdrawn or granted.

`Reconciled` lists all writes of a stored resolver binding.  They are made under optimistic locking,
so each of them changes the binding that is stored.
-/
namespace InternalDNS.Controlplane

open Go Platform

/-- `v1alpha1.DNSResolverAccessBinding`. -/
structure AccessBinding where
  sourceNamespace : GoString
  name : GoString
  uid : GoString
  generation : Nat
  contextRef : ObjectReference
  region : GoString
  destinationAddress : GoString

/-- `controlplane.zoneReferences`. -/
def zoneReferences (uids : List GoString) (zones : List DNSZone) : List ObjectReference :=
  uids.filterMap fun uid => (zones.find? fun z => z.uid = uid).map fun z => ⟨z.name, uid, 0⟩

/-- `controlplane.zoneApices`. -/
def zoneApices (uids : List GoString) (zones : List DNSZone) : GoMap GoString GoString :=
  (zones.filter fun z => uids.contains z.uid).foldl (fun m z => m.insert z.uid z.domainName) ∅

/-- `controlplane.zoneUIDsEqual`. -/
def zoneUIDsEqual (refs : List ObjectReference) (uids : List GoString) : Bool :=
  refs.map ObjectReference.uid = uids

/-- What one pass of the reconciler knows about an access binding that it has accepted. -/
structure Accepted where
  projectUID : GoString
  access : AccessBinding
  contextName : GoString
  /-- The zones of the context, in order. -/
  zids : List GoString
  zones : List DNSZone
  /-- The shard that `shardForContextRegion` has selected. -/
  shard : GoString

/-- The zone set is another one than that of the binding. -/
def Accepted.rezones (x : Accepted) (old : ResolverBindingSpec) : Bool :=
  !zoneUIDsEqual old.zoneRefs x.zids

/-- The spec that `reconcileContextBindings` writes, for a binding that is there already or with the
regional address that was allocated for a new one. -/
def Accepted.spec (x : Accepted) (cluster : GoString) (old : Option ResolverBindingSpec) :
    ResolverBindingSpec where
  projectUID := x.projectUID
  resolverContextRef := ⟨x.contextName, x.access.contextRef.uid, 0⟩
  accessBindingRef := ⟨x.access.name, x.access.uid, x.access.generation⟩
  region := x.access.region
  shard := x.shard
  generation := old.elim 1 fun o => if x.rezones o then o.generation + 1 else o.generation
  revision := old.elim 1 fun o =>
    if x.rezones o then o.revision + 1 else if o.tombstone then o.revision + 1 else o.revision
  nodeAddress := x.access.destinationAddress
  regionalAddress := old.elim cluster ResolverBindingSpec.regionalAddress
  zoneRefs := zoneReferences x.zids x.zones
  zoneApices := zoneApices x.zids x.zones
  version := old.elim ⟨1, 1⟩ fun o =>
    if o.tombstone then ⟨o.version.epoch, o.version.sequence + 1⟩ else o.version
  tombstone := false

/-- The labels of the binding. -/
def Accepted.labels (E : Externals) (x : Accepted) : BindingLabels where
  projectUID := x.projectUID
  sourceNamespace := x.access.sourceNamespace
  contextUID := x.access.contextRef.uid
  accessUID := x.access.uid
  region := safeToken E x.access.region
  shard := safeToken E x.shard

/-- The name of the binding. -/
def Accepted.bindingName (E : Externals) (x : Accepted) : GoString :=
  lit "binding-" ++ (E.opaqueToken (x.projectUID ++ '/' :: x.access.uid)).take 20

/-- The spec that `retireContextBindings` writes to withdraw a binding. -/
def withdrawn (old : ResolverBindingSpec) : ResolverBindingSpec :=
  { old with
    tombstone := true
    revision := old.revision + 1
    version := ⟨old.version.epoch, old.version.sequence + 1⟩ }

/-- The API server refuses a write that changes the source, the placement or the addresses. -/
structure SameIdentity (old new : ResolverBindingSpec) : Prop where
  project : new.projectUID = old.projectUID
  context : new.resolverContextRef = old.resolverContextRef
  access : new.accessBindingRef = old.accessBindingRef
  region : new.region = old.region
  shard : new.shard = old.shard
  node : new.nodeAddress = old.nodeAddress
  regional : new.regionalAddress = old.regionalAddress

theorem SameIdentity.refl (s : ResolverBindingSpec) : SameIdentity s s :=
  ⟨rfl, rfl, rfl, rfl, rfl, rfl, rfl⟩

theorem SameIdentity.trans {a b c : ResolverBindingSpec} (hab : SameIdentity a b)
    (hbc : SameIdentity b c) : SameIdentity a c :=
  ⟨hbc.project.trans hab.project, hbc.context.trans hab.context, hbc.access.trans hab.access,
    hbc.region.trans hab.region, hbc.shard.trans hab.shard, hbc.node.trans hab.node,
    hbc.regional.trans hab.regional⟩

variable (E : Externals)

/-- A binding as the reconciler creates it. -/
def Created (x : Accepted) (cluster : GoString) (o : ResolverBinding) : Prop :=
  o.name = x.bindingName E ∧ o.deleting = false ∧ o.labels = x.labels E ∧ o.spec = x.spec cluster none

/-- A write of a stored binding: by the reconciler, by a writer of the status, or a deletion that
waits for finalizers.  The API server counts the writes that change the spec. -/
inductive Reconciled (old new : ResolverBinding) : Prop
  | update (x : Accepted) (generation : Nat) (hname : old.name = x.bindingName E)
      (hadmitted : SameIdentity old.spec new.spec)
      (hgeneration : generation = old.generation + 1 ∨
        generation = old.generation ∧ new.spec = old.spec)
      (hnew : new = { old with
        spec := x.spec old.spec.regionalAddress (some old.spec)
        labels := x.labels E
        generation := generation })
  | withdraw (hlive : old.spec.tombstone = false)
      (hnew : new = { old with spec := withdrawn old.spec, generation := old.generation + 1 })
  | status (status : ResolverBindingStatus) (hnew : new = { old with status := status })
  | delete (hnew : new = { old with deleting := true })

/-- The writes of the context reconcilers. -/
def reconciledWrites : BindingWrites where
  born o := ∃ x cluster, Created E x cluster o
  changes := Reconciled E

variable {E}

theorem Reconciled.stays {old new : ResolverBinding} (h : Reconciled E old new) : old.Stays new := by
  cases h with
  | update x generation hname hadmitted hgeneration hnew =>
    subst hnew
    exact ⟨rfl, hadmitted.region, hadmitted.shard, id⟩
  | withdraw hlive hnew =>
    subst hnew
    exact ⟨rfl, rfl, rfl, id⟩
  | status status hnew =>
    subst hnew
    exact ⟨rfl, rfl, rfl, id⟩
  | delete hnew =>
    subst hnew
    exact ⟨rfl, rfl, rfl, fun _ => rfl⟩

theorem Reconciled.labelled {old new : ResolverBinding} (hold : old.Labelled E)
    (h : Reconciled E old new) : new.Labelled E := by
  cases h with
  | update x generation hname hadmitted hgeneration hnew =>
    subst hnew
    exact ⟨rfl, rfl⟩
  | withdraw hlive hnew =>
    subst hnew
    exact hold
  | status status hnew =>
    subst hnew
    exact hold
  | delete hnew =>
    subst hnew
    exact hold

theorem reconciledWrites_lawful : (reconciledWrites E).Lawful E := by
  refine ⟨?_, fun _ _ h => h.stays, fun _ _ hold h => h.labelled hold⟩
  rintro o ⟨x, cluster, -, -, hlabels, hspec⟩
  rw [ResolverBinding.Labelled, hlabels, hspec]
  exact ⟨rfl, rfl⟩

end InternalDNS.Controlplane
