import InternalDNS.Publisher
import InternalDNS.ShardPlan

/-! # The planners of a shard

Every control plane runs a planner for every shard.  The planners of a shard share one owner record,
which names the planner in charge, its epoch, the next revision and the active outbox.  A planner
plans from the stored bindings, reserves a revision, creates an immutable outbox with the snapshot
under a name made from epoch and revision, and then makes that outbox the active one.  Each of these
is a separate call, and a planner may crash, or another one may take over, between any two of them.

Reads return what is stored at that moment.  A write of the owner record goes through only if the
record is still the one that the planner has read.
-/
namespace InternalDNS.Platform

open Go Controlplane

/-- Who else writes resolver bindings, and what. -/
structure BindingWrites where
  born : ResolverBinding → Prop
  changes : ResolverBinding → ResolverBinding → Prop

/-- What the API server lets a writer of bindings do: the placement of a binding is immutable, its
labels say where it is placed, and a deletion is final. -/
def BindingWrites.admitted (E : Externals) : BindingWrites where
  born o := o.Labelled E
  changes old new := old.Stays new ∧ new.Labelled E

/-- `v1alpha1.DNSTransportOutbox`: the snapshot in its payload, and the outboxes it waits for. -/
structure Outbox where
  snapshot : ServingSnapshot
  dependsOn : List GoString

/-! ## The calls of a planner -/

/-- The owner record that the first planner creates. -/
def newShardState (identity : GoString) (now leaseUntil : Time) : ShardState :=
  ⟨identity, nextWriterEpoch 0 now, 1, leaseUntil, [], []⟩

/-- The record after a planner has taken the shard over. -/
def ShardState.takeOver (identity : GoString) (now leaseUntil : Time) (o : ShardState) : ShardState :=
  { o with
    holder := identity
    epoch := nextWriterEpoch o.epoch now
    contentHash := []
    leaseUntil := leaseUntil }

/-- The record with the revision reserved. -/
def ShardState.reserve (leaseUntil : Time) (o : ShardState) : ShardState :=
  { o with nextRevision := o.nextRevision + 1, leaseUntil := leaseUntil }

/-- The record with the outbox committed. -/
def ShardState.commit (name hash : GoString) (leaseUntil : Time) (o : ShardState) : ShardState :=
  { o with activeOutbox := name, contentHash := hash, leaseUntil := leaseUntil }

/-! ## The system -/

/-- The owner record as a planner has read it. -/
structure Held where
  version : Nat
  state : ShardState

/-- The record as it was stored then. -/
def Held.copy (h : Held) : Versioned (Option ShardState) := ⟨h.version, some h.state⟩

/-- Where a planner stands. -/
inductive Phase where
  | idle
  /-- It is the holder in the record it has read. -/
  | holding (held : Held)
  /-- It has listed the bindings. -/
  | listed (held : Held) (bindings : ResolverBindings)
  /-- It has planned from the bindings and reserved a revision for the outbox. -/
  | staging (held : Held) (bindings : ResolverBindings) (outbox : Outbox)
  /-- The outbox is stored. -/
  | staged (held : Held) (bindings : ResolverBindings) (outbox : Outbox)

/-- The state of the API server and of the planners `I` of one shard.  The owner record has no value
until it is created. -/
structure Shard (I : Type) where
  owner : Versioned (Option ShardState)
  planners : I → Phase
  bindings : ResolverBindings
  /-- All that was reserved so far. -/
  reserved : List Outbox
  /-- All outboxes that were created so far; some may have been collected since. -/
  outboxes : List Outbox
  /-- The committed snapshots, in order. -/
  commits : List ServingSnapshot

variable {I : Type}

/-- The shard before anything was planned. -/
def Shard.Fresh (w : Shard I) : Prop :=
  w.owner.value = none ∧ (∀ i, w.planners i = .idle) ∧ w.reserved = [] ∧ w.outboxes = [] ∧
    w.commits = []

/-- Nothing was planned, and the labels of the bindings say where they are placed. -/
def Shard.Started (E : Externals) (w : Shard I) : Prop :=
  w.Fresh ∧ ∀ o ∈ w.bindings.objects, o.Labelled E

/-- The snapshot that `loadPrior` returns: the empty one if no outbox is active. -/
def emptySnapshot : ServingSnapshot := ⟨[], [], 0, 0, [], [], [], [], 0⟩

/-- The prior snapshot as a planner may have read it. -/
def Shard.LoadsPrior (E : Externals) (w : Shard I) (state : ShardState) (prior : ServingSnapshot) :
    Prop :=
  if state.activeOutbox = [] then prior = emptySnapshot
  else ∃ o ∈ w.outboxes, snapshotName E o.snapshot = state.activeOutbox ∧ prior = o.snapshot

variable [DecidableEq I]

/-- One planner has moved on. -/
def Shard.setPhase (w : Shard I) (i : I) (next : Phase) : Shard I :=
  { w with planners := Function.update w.planners i next }

/-- One call of a planner, or of another writer of bindings.  Clocks and leases are arbitrary, and so
are the configurations of the planners as long as they are of this shard. -/
inductive PlanStep (E : Externals) (region shard : GoString) (identity : I → GoString)
    (writes : BindingWrites) : Shard I → Shard I → Prop
  /-- No record was found, and there is none. -/
  | create {w : Shard I} (i : I) (now leaseUntil : Time) (habsent : w.owner.value = none) :
    PlanStep E region shard identity writes w
      { w with owner := ⟨w.owner.version + 1, some (newShardState (identity i) now leaseUntil)⟩ }
  /-- The planner finds itself the holder. -/
  | hold {w : Shard I} (i : I) (held : Held) (hread : w.owner = held.copy)
      (hholder : held.state.holder = identity i) :
    PlanStep E region shard identity writes w (w.setPhase i (.holding held))
  /-- It finds another holder whose lease has run out by its clock. -/
  | takeOver {w : Shard I} (i : I) (held : Held) (owner : Versioned (Option ShardState))
      (now leaseUntil : Time) (hread : w.owner = held.copy) (hholder : held.state.holder ≠ identity i)
      (hexpired : held.state.leaseUntil ≤ now)
      (hupdate : w.owner.update held.version
        (some (held.state.takeOver (identity i) now leaseUntil)) = some owner) :
    PlanStep E region shard identity writes w
      ({ w with owner := owner }.setPhase i
        (.holding ⟨owner.version, held.state.takeOver (identity i) now leaseUntil⟩))
  /-- It lists the bindings. -/
  | list {w : Shard I} (i : I) (held : Held) (hphase : w.planners i = .holding held) :
    PlanStep E region shard identity writes w (w.setPhase i (.listed held w.bindings))
  /-- The plan is what is already published, and the lease is renewed. -/
  | renew {w : Shard I} (i : I) (held : Held) (seen : ResolverBindings)
      (owner : Versioned (Option ShardState)) (c : PlannerConfig) (publications : Publications)
      (prior : ServingSnapshot) (outbox : Outbox) (now leaseUntil : Time)
      (hphase : w.planners i = .listed held seen) (hregion : c.region = region)
      (hshard : c.shard = shard) (hprior : w.LoadsPrior E held.state prior)
      (hplan : planSnapshot E c held.state now seen.objects publications prior =
        .ok (outbox.snapshot, outbox.dependsOn))
      (hsame : held.state.contentHash = contentHash E outbox.snapshot)
      (hupdate : w.owner.update held.version (some { held.state with leaseUntil := leaseUntil }) =
        some owner) :
    PlanStep E region shard identity writes w ({ w with owner := owner }.setPhase i .idle)
  /-- It has planned a new snapshot and reserves a revision for it. -/
  | reserve {w : Shard I} (i : I) (held : Held) (seen : ResolverBindings)
      (owner : Versioned (Option ShardState)) (c : PlannerConfig) (publications : Publications)
      (prior : ServingSnapshot) (outbox : Outbox) (ownerUID : GoString) (now leaseUntil : Time)
      (hphase : w.planners i = .listed held seen) (hregion : c.region = region)
      (hshard : c.shard = shard) (hprior : w.LoadsPrior E held.state prior)
      (hplan : planSnapshot E c held.state now seen.objects publications prior =
        .ok (outbox.snapshot, outbox.dependsOn))
      (hnew : held.state.contentHash ≠ contentHash E outbox.snapshot)
      (hlease : now < held.state.leaseUntil)
      (hsize : envelopeSize E ownerUID outbox.snapshot ≤ c.budgets.maxBytes)
      (hupdate : w.owner.update held.version (some (held.state.reserve leaseUntil)) = some owner) :
    PlanStep E region shard identity writes w
      { ({ w with owner := owner }.setPhase i
          (.staging ⟨owner.version, held.state.reserve leaseUntil⟩ seen outbox)) with
        reserved := w.reserved ++ [outbox] }
  /-- It creates the outbox. -/
  | stage {w : Shard I} (i : I) (held : Held) (seen : ResolverBindings) (outbox : Outbox)
      (hphase : w.planners i = .staging held seen outbox) :
    PlanStep E region shard identity writes w
      { w.setPhase i (.staged held seen outbox) with outboxes := w.outboxes ++ [outbox] }
  /-- It finds the outbox there already, with the same contents. -/
  | found {w : Shard I} (i : I) (held : Held) (seen : ResolverBindings) (outbox : Outbox)
      (hphase : w.planners i = .staging held seen outbox) (hsame : outbox ∈ w.outboxes) :
    PlanStep E region shard identity writes w (w.setPhase i (.staged held seen outbox))
  /-- It makes the outbox the active one. -/
  | commit {w : Shard I} (i : I) (held : Held) (seen : ResolverBindings) (outbox : Outbox)
      (owner : Versioned (Option ShardState)) (leaseUntil : Time)
      (hphase : w.planners i = .staged held seen outbox)
      (hupdate : w.owner.update held.version (some (held.state.commit
        (snapshotName E outbox.snapshot) (contentHash E outbox.snapshot) leaseUntil)) = some owner) :
    PlanStep E region shard identity writes w
      { ({ w with owner := owner }.setPhase i .idle) with
        commits := w.commits ++ [outbox.snapshot] }
  /-- A process that ends gives its leases back: `Planner.Release`. -/
  | release {w : Shard I} (i : I) (held : Held) (owner : Versioned (Option ShardState)) (now : Time)
      (hread : w.owner = held.copy) (hholder : held.state.holder = identity i)
      (hlease : now < held.state.leaseUntil)
      (hupdate : w.owner.update held.version (some { held.state with leaseUntil := now }) =
        some owner) :
    PlanStep E region shard identity writes w { w with owner := owner }
  /-- A call fails, there is nothing to do, or the planner crashes. -/
  | stop {w : Shard I} (i : I) : PlanStep E region shard identity writes w (w.setPhase i .idle)
  /-- Another writer creates, changes or deletes a binding. -/
  | bindings {w : Shard I} (next : ResolverBindings)
      (hwrite : w.bindings.Write writes.born writes.changes next) :
    PlanStep E region shard identity writes w { w with bindings := next }

end InternalDNS.Platform
