import InternalDNS.Externals
import InternalDNS.GoStore

/-! # The writers of a zone's publications

Several control planes may publish a zone.  They share one ownership object, which names the writer
in charge, its epoch, the next revision and the active manifest, and which is only changed under
optimistic locking.  A writer reserves a revision with a first update, then creates the chunks and
the manifest under names made from epoch and revision, and with a second update makes the manifest
the active one.  It may be interrupted between any two of these calls, and another writer takes the
zone over once the lease has run out by the clock of that writer.

`World` is the state of the API server and of all writers, `Step` what a single call changes.  The
fields `reserved`, `created` and `commits` only record what has happened.
-/
namespace InternalDNS.Controlplane

open Go

/-- `model.NextWriterEpoch`: the clock counts in seconds. -/
def nextWriterEpoch (stored : Nat) (now : Time) : Nat :=
  max (stored + 1) (max (now / 1000000000) 0).toNat

/-- `v1alpha1.DNSPublicationOwnershipSpec`. -/
structure Ownership where
  zoneUID : GoString
  holderIdentity : GoString
  writerEpoch : Nat
  nextRevision : Nat
  leaseUntil : Time
  activeManifestName : GoString
  lastContentHash : GoString

/-- `v1alpha1.DNSPublicationManifestSpec`.  What the protocol of the writers does not read, from the
generation time to the fences and targets, is kept together in `rest`. -/
structure ManifestSpec (D : Type) where
  zoneUID : GoString
  writerEpoch : Nat
  revision : Nat
  previousRevision : Nat
  tombstone : Bool
  contentHash : GoString
  rest : D

/-- `v1alpha1.DNSPublicationChunkSpec`. -/
structure ChunkSpec where
  writerEpoch : Nat
  revision : Nat
  index : Nat
  payload : List UInt8
  deriving DecidableEq

/-- What a writer creates once and for all. -/
inductive Artifact (D : Type) where
  | chunk (spec : ChunkSpec)
  | manifest (spec : ManifestSpec D)

/-- What a writer has decided to publish under a reserved revision. -/
structure Staging (D : Type) where
  manifest : ManifestSpec D
  chunks : List (List UInt8)

variable (E : Externals)

/-- `controlplane.artifactName`. -/
def artifactName (zoneUID : GoString) (epoch revision : Nat) : GoString :=
  lit "pub-" ++ (E.opaqueToken zoneUID).take 16 ++ lit "-e" ++ itoa epoch ++ lit "-r" ++ itoa revision

variable {D : Type}

/-- The name of the manifest. -/
def ManifestSpec.name (m : ManifestSpec D) : GoString :=
  artifactName E m.zoneUID m.writerEpoch m.revision

/-- The chunks of `persistPublication`. -/
def Staging.chunkSpecs (s : Staging D) : List ChunkSpec :=
  s.chunks.zipIdx.map fun (payload, i) => ⟨s.manifest.writerEpoch, s.manifest.revision, i, payload⟩

/-- What `persistPublication` creates, in its order. -/
def Staging.artifacts (s : Staging D) : List (Artifact D) :=
  s.chunkSpecs.map .chunk ++ [.manifest s.manifest]

/-! ## The calls of a writer -/

/-- The ownership that `acquireOwnership` creates. -/
def newOwnership (zoneUID identity : GoString) (now : Time) (leaseUntil : Time) : Ownership :=
  ⟨zoneUID, identity, nextWriterEpoch 0 now, 1, leaseUntil, [], []⟩

/-- The ownership after `acquireOwnership` has taken it over. -/
def Ownership.takeOver (identity : GoString) (now : Time) (leaseUntil : Time) (o : Ownership) : Ownership :=
  { o with
    holderIdentity := identity
    writerEpoch := nextWriterEpoch o.writerEpoch now
    leaseUntil := leaseUntil }

/-- The revision that is reserved next. -/
def Ownership.revision (o : Ownership) : Nat := if o.nextRevision = 0 then 1 else o.nextRevision

/-- The ownership with the revision reserved. -/
def Ownership.reserve (leaseUntil : Time) (o : Ownership) : Ownership :=
  { o with nextRevision := o.revision + 1, leaseUntil := leaseUntil }

/-- The ownership with the manifest committed. -/
def Ownership.commit (name stateHash : GoString) (leaseUntil : Time) (o : Ownership) : Ownership :=
  { o with activeManifestName := name, lastContentHash := stateHash, leaseUntil := leaseUntil }

/-- `Reconciler.activeRevision`, from the manifest that was read if there is an active one. -/
def Ownership.activeRevision (o : Ownership) (active : Option (ManifestSpec D)) :
    Except GoString Nat :=
  if o.activeManifestName = [] then .ok 0
  else match active with
    | none => .error (lit "not found")
    | some m =>
      if m.zoneUID ≠ o.zoneUID ∨ m.writerEpoch > o.writerEpoch then
        .error (lit "active publication does not match ownership fence")
      else if m.writerEpoch < o.writerEpoch then .ok 0
      else .ok m.revision

/-! ## The system -/

/-- Where a writer stands. -/
inductive Writer (D : Type) where
  | idle
  /-- It has a copy of the ownership in which it is the holder. -/
  | holding (copy : Versioned Ownership)
  /-- It has reserved a revision and has the artifacts `todo` still to create. -/
  | staging (copy : Versioned Ownership) (s : Staging D) (todo : List (Artifact D))

/-- The state of the API server and of the writers `I`. -/
structure World (I D : Type) where
  owner : Option (Versioned Ownership)
  writers : I → Writer D
  /-- All that was reserved so far. -/
  reserved : List (Staging D)
  /-- All artifacts that were created so far; some may have been deleted since. -/
  created : List (Artifact D)
  /-- The committed manifests, in order. -/
  commits : List (ManifestSpec D)

variable {I : Type}

/-- The ownership was updated. -/
def World.setOwner (w : World I D) (stored : Versioned Ownership) : World I D :=
  { w with owner := some stored }

@[simp] theorem World.setOwner_writers (w : World I D) (stored : Versioned Ownership) :
    (w.setOwner stored).writers = w.writers := rfl

variable [DecidableEq I]

/-- One writer has moved on. -/
def World.setWriter (w : World I D) (i : I) (next : Writer D) : World I D :=
  { w with writers := Function.update w.writers i next }

theorem World.writers_setWriter (w : World I D) (i j : I) (next : Writer D) :
    (w.setWriter i next).writers j = next ∨ (w.setWriter i next).writers j = w.writers j := by
  by_cases h : j = i
  · exact .inl (by subst h; exact Function.update_self ..)
  · exact .inr (Function.update_of_ne h ..)

/-- One call of a writer.  Copies of the ownership may be old, clocks are arbitrary, and a call that
fails, as well as a crash, is a return to `idle`. -/
inductive Step (E : Externals) (zoneUID : GoString) (identity : I → GoString) :
    World I D → World I D → Prop
  /-- No ownership was found, and there is none. -/
  | create {w : World I D} (i : I) (now : Time) (leaseUntil : Time) (habsent : w.owner = none) :
    Step E zoneUID identity w (w.setOwner ⟨1, newOwnership zoneUID (identity i) now leaseUntil⟩)
  /-- The writer finds itself the holder. -/
  | hold {w : World I D} (i : I) (stored copy : Versioned Ownership) (howner : w.owner = some stored)
      (hcopy : stored.Copy copy) (hzone : copy.value.zoneUID = zoneUID)
      (hholder : copy.value.holderIdentity = identity i) :
    Step E zoneUID identity w (w.setWriter i (.holding copy))
  /-- It finds another holder whose lease has run out by its clock. -/
  | takeOver {w : World I D} (i : I) (stored copy stored' : Versioned Ownership) (now : Time)
      (leaseUntil : Time) (howner : w.owner = some stored) (hcopy : stored.Copy copy)
      (hzone : copy.value.zoneUID = zoneUID) (hholder : copy.value.holderIdentity ≠ identity i)
      (hexpired : copy.value.leaseUntil ≤ now)
      (hupdate : stored.update copy.version (copy.value.takeOver (identity i) now leaseUntil) =
        some stored') :
    Step E zoneUID identity w ((w.setOwner stored').setWriter i (.holding stored'))
  /-- It renews the lease. -/
  | renew {w : World I D} (i : I) (stored copy stored' : Versioned Ownership) (leaseUntil : Time)
      (howner : w.owner = some stored) (hwriter : w.writers i = .holding copy)
      (hupdate : stored.update copy.version { copy.value with leaseUntil := leaseUntil } =
        some stored') :
    Step E zoneUID identity w ((w.setOwner stored').setWriter i (.holding stored'))
  /-- A process that ends gives its leases back: `ReleaseOwnership`. -/
  | release {w : World I D} (stored copy stored' : Versioned Ownership) (now : Time)
      (howner : w.owner = some stored) (hcopy : stored.Copy copy)
      (hupdate : stored.update copy.version { copy.value with leaseUntil := now } = some stored') :
    Step E zoneUID identity w (w.setOwner stored')
  /-- It has compiled the zone and reserves a revision.  The active manifest that it has read was
  created under the name in its copy of the ownership. -/
  | reserve {w : World I D} (i : I) (stored copy stored' : Versioned Ownership) (leaseUntil : Time)
      (active : Option (ManifestSpec D)) (s : Staging D) (howner : w.owner = some stored)
      (hwriter : w.writers i = .holding copy)
      (hactive : ∀ m ∈ active, Artifact.manifest m ∈ w.created ∧
        m.name E = copy.value.activeManifestName)
      (hprevious : copy.value.activeRevision active = .ok s.manifest.previousRevision)
      (hzone : s.manifest.zoneUID = zoneUID) (hepoch : s.manifest.writerEpoch = copy.value.writerEpoch)
      (hrevision : s.manifest.revision = copy.value.revision)
      (hupdate : stored.update copy.version (copy.value.reserve leaseUntil) = some stored') :
    Step E zoneUID identity w { (w.setOwner stored').setWriter i (.staging stored' s s.artifacts) with
      reserved := w.reserved ++ [s] }
  /-- It creates the next artifact, or finds it there already: `createImmutable`. -/
  | stage {w : World I D} (i : I) (copy : Versioned Ownership) (s : Staging D) (a : Artifact D)
      (todo : List (Artifact D)) (hwriter : w.writers i = .staging copy s (a :: todo)) :
    Step E zoneUID identity w { w.setWriter i (.staging copy s todo) with created := w.created ++ [a] }
  /-- It makes the manifest the active one. -/
  | commit {w : World I D} (i : I) (stored copy stored' : Versioned Ownership) (s : Staging D)
      (stateHash : GoString) (leaseUntil : Time) (howner : w.owner = some stored)
      (hwriter : w.writers i = .staging copy s [])
      (hupdate : stored.update copy.version
        (copy.value.commit (s.manifest.name E) stateHash leaseUntil) = some stored') :
    Step E zoneUID identity w { (w.setOwner stored').setWriter i .idle with
      commits := w.commits ++ [s.manifest] }
  /-- A call fails, or the writer crashes. -/
  | stop {w : World I D} (i : I) : Step E zoneUID identity w (w.setWriter i .idle)

/-- Before the first writer. -/
def World.Fresh (w : World I D) : Prop :=
  w.owner = none ∧ (∀ i, w.writers i = .idle) ∧ w.reserved = [] ∧ w.created = [] ∧ w.commits = []

end InternalDNS.Controlplane
