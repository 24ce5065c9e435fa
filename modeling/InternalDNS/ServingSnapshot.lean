import InternalDNS.Externals

/-! # Serving snapshots

The snapshot of a shard is the complete desired state of its members.  `validate` is run
by the planner before it publishes a snapshot and by every agent before it accepts one, so
a snapshot that fails it blocks every tenant of the shard.

Addresses are compared here as the strings they are written as, each with the last binding
that used the same string.  `validate_eq_ok` turns that loop into what it decides: two
bindings may share an address string only if both are withdrawn.
-/
namespace InternalDNS

open Go GoMap Except Option Binding

variable (E : Externals)

/-- One member; the accumulator is the member keys before it. -/
def validateMember (seen : List GoString) (member : Member) : Except GoString (List GoString) := do
  failIf (member.memberID = [] ∨ (member.role ≠ lit "resolver" ∧ member.role ≠ lit "node" ∧
      member.role ≠ lit "cluster" ∧ member.role ≠ lit "regional"))
    (lit "invalid serving member " ++ quoted member.memberID ++ lit " with role " ++
      quoted member.role)
  let key := member.memberID ++ ['\x00'] ++ member.replicaID
  failIf (key ∈ seen)
    (lit "duplicate serving member " ++ quoted member.memberID ++ lit " replica " ++
      quoted member.replicaID)
  .ok (key :: seen)

/-- `MemberPattern.Validate`. -/
def MemberPattern.validate (p : MemberPattern) : Except GoString Unit := do
  failIf (p.role ≠ lit "node")
    (lit "member pattern " ++ quoted p.idPrefix ++ lit " must have role node, not " ++
      quoted p.role)
  failIf (p.idPrefix = []) (lit "member pattern ID prefix is required")

/-- One required publication; the accumulator is the zones before it. -/
def validateRequirement (seen : List GoString) (requirement : PublicationRequirement) :
    Except GoString (List GoString) := do
  failIf (requirement.zoneUID = [] ∨ requirement.epoch = 0 ∨ requirement.revision = 0)
    (lit "required publication has incomplete identity")
  failIf (requirement.zoneUID ∈ seen)
    (lit "duplicate required publication " ++ quoted requirement.zoneUID)
  .ok (requirement.zoneUID :: seen)

/-- One transport; the accumulator is the transports before it. -/
def validateTransport (seen : List GoString) (t : GoString) : Except GoString (List GoString) := do
  failIf (t ≠ lit "UDP" ∧ t ≠ lit "TCP") (lit "unsupported transport " ++ quoted t)
  failIf (t ∈ seen) (lit "duplicate transport " ++ quoted t)
  .ok (t :: seen)

/-- The text parses as an address other than the unspecified one. -/
def concreteAddress (raw : GoString) : Bool := (Addr.parseAddr raw).any fun a => !a.isUnspecified

/-- One of the two addresses of a binding, with the name of its field; the accumulator is the last
binding of each address. -/
def validateAddress (b : Binding) (seenVIP : GoMap GoString Binding)
    (field : GoString × GoString) : Except GoString (GoMap GoString Binding) := do
  let (name, raw) := field
  failIf (¬ concreteAddress raw)
    (lit "binding " ++ quoted b.bindingUID ++ lit " invalid " ++ name ++ lit " " ++ quoted raw)
  failIf ((seenVIP.lookup raw).any fun old =>
      old.bindingUID ≠ b.bindingUID && (!old.tombstone || !b.tombstone))
    (lit "address " ++ raw ++ lit " assigned to bindings " ++
      quoted ((seenVIP.lookup raw).elim [] Binding.bindingUID) ++ lit " and " ++
      quoted b.bindingUID)
  .ok (seenVIP.insert raw b)

/-- The endpoint of a backend in canonical text. -/
def Backend.endpoint (backend : Backend) : GoString :=
  ((Addr.parseAddr backend.address).map Addr.string).getD [] ++ [':'] ++ itoa backend.port.toNat

/-- One backend of a group; the accumulator is the endpoint of each member and the member of each
endpoint. -/
def validateBackend (uid : GoString) (acc : GoMap GoString GoString × GoMap GoString GoString)
    (backend : Backend) : Except GoString (GoMap GoString GoString × GoMap GoString GoString) := do
  failIf (backend.memberID = [] ∨ backend.port = 0)
    (lit "binding " ++ quoted uid ++ lit " has incomplete backend")
  failIf (¬ concreteAddress backend.address)
    (lit "binding " ++ quoted uid ++ lit " has invalid backend address " ++ quoted backend.address)
  failIf ((acc.1.lookup backend.memberID).any (· ≠ backend.endpoint))
    (lit "binding " ++ quoted uid ++ lit " backend member " ++ quoted backend.memberID ++
      lit " has conflicting endpoints")
  failIf ((acc.2.lookup backend.endpoint).any (· ≠ backend.memberID))
    (lit "binding " ++ quoted uid ++ lit " backend endpoint " ++ quoted backend.endpoint ++
      lit " has conflicting member IDs")
  .ok (acc.1.insert backend.memberID backend.endpoint, acc.2.insert backend.endpoint backend.memberID)

/-- One zone attachment; the accumulator is the zone of each apex. -/
def validateAttachment (uid : GoString) (zoneApex : GoMap GoString GoString) (z : ZoneAttachment) :
    Except GoString (GoMap GoString GoString) := do
  failIf (z.zoneUID = [] ∨ z.requiredPublicationEpoch = 0 ∨ z.requiredPublicationRevision = 0)
    (lit "binding " ++ quoted uid ++ lit " has incomplete zone attachment")
  let apex := absoluteName E.cases z.apex
  failIf (apex = ['.'] ∨ ¬ E.dns.isDomainName apex)
    (lit "binding " ++ quoted uid ++ lit " has invalid zone apex")
  failIf ((zoneApex.lookup apex).any (· ≠ z.zoneUID))
    (lit "binding " ++ quoted uid ++ lit " attaches zones " ++
      quoted ((zoneApex.lookup apex).getD []) ++ lit " and " ++ quoted z.zoneUID ++ lit " at " ++
      apex)
  .ok (zoneApex.insert apex z.zoneUID)

/-- One binding; the accumulator is the UIDs before it and the last binding of each address. -/
def validateBinding (acc : List GoString × GoMap GoString Binding) (b : Binding) :
    Except GoString (List GoString × GoMap GoString Binding) := do
  failIf (b.bindingUID = [] ∨ b.projectUID = [] ∨ b.contextUID = [] ∨ b.bindingGeneration = 0 ∨
      b.configurationRevision = 0) (lit "binding " ++ itoa acc.1.length ++ lit " has incomplete identity")
  failIf (b.bindingUID ∈ acc.1) (lit "duplicate binding UID " ++ quoted b.bindingUID)
  let seenVIP ← loop (validateAddress b) acc.2
    [(lit "consumerAddress", b.consumerAddress), (lit "clusterAddress", b.clusterAddress)]
  failIf (b.port = 0 ∨ b.transports = [] ∨ b.version.epoch = 0 ∨ b.version.sequence = 0)
    (lit "binding " ++ quoted b.bindingUID ++ lit " has incomplete transport or access version")
  failIf (b.configurationPending ∧ b.zones ≠ [])
    (lit "binding " ++ quoted b.bindingUID ++
      lit " pending configuration must not expose partial zones")
  let _ ← wrap (lit "binding " ++ quoted b.bindingUID ++ lit ": ")
    (loop validateTransport [] b.transports)
  let _ ← loop (validateBackend b.bindingUID) (∅, ∅) b.nodeBackends
  let _ ← loop (validateBackend b.bindingUID) (∅, ∅) b.clusterBackends
  let _ ← loop (validateAttachment E b.bindingUID) ∅ b.zones
  .ok (b.bindingUID :: acc.1, seenVIP)

/-- `ServingSnapshot.Validate`. -/
def ServingSnapshot.validate (s : ServingSnapshot) : Except GoString Unit := do
  failIf (s.region = [] ∨ s.shard = [] ∨ s.configurationEpoch = 0 ∨ s.configurationRevision = 0 ∨
      s.generatedAt = 0)
    (lit "serving snapshot identity, epoch, revision, and timestamp are required")
  let _ ← loop validateMember [] s.members
  forEach MemberPattern.validate s.memberPatterns
  let _ ← loop validateRequirement [] s.requiredPublications
  let _ ← loop (validateBinding E) ([], ∅) s.bindings
  .ok ()

/-! ## What a valid snapshot is -/

/-- The two addresses of a binding. -/
def Binding.addresses (b : Binding) : List GoString := [b.consumerAddress, b.clusterAddress]

/-- A role that members can have. -/
def Member.HasRole (m : Member) : Prop :=
  m.role = lit "resolver" ∨ m.role = lit "node" ∨ m.role = lit "cluster" ∨ m.role = lit "regional"

/-- The backends of one group: complete, and members and endpoints stand for each other. -/
structure BackendsValid (group : List Backend) : Prop where
  complete : ∀ backend ∈ group, backend.memberID ≠ [] ∧ backend.port ≠ 0 ∧
    concreteAddress backend.address = true
  consistent : group.Pairwise fun a b => a.memberID = b.memberID ↔ a.endpoint = b.endpoint

/-- A complete zone attachment. -/
structure ZoneAttachment.Valid (E : Externals) (z : ZoneAttachment) : Prop where
  zoneUID : z.zoneUID ≠ []
  epoch : z.requiredPublicationEpoch ≠ 0
  revision : z.requiredPublicationRevision ≠ 0
  apexNotRoot : absoluteName E.cases z.apex ≠ ['.']
  apexValid : E.dns.isDomainName (absoluteName E.cases z.apex) = true

/-- The rules one binding has to meet on its own. -/
structure Binding.Valid (E : Externals) (b : Binding) : Prop where
  bindingUID : b.bindingUID ≠ []
  projectUID : b.projectUID ≠ []
  contextUID : b.contextUID ≠ []
  generation : b.bindingGeneration ≠ 0
  revision : b.configurationRevision ≠ 0
  concrete : ∀ raw ∈ b.addresses, concreteAddress raw = true
  port : b.port ≠ 0
  someTransport : b.transports ≠ []
  epoch : b.version.epoch ≠ 0
  sequence : b.version.sequence ≠ 0
  pendingHasNoZones : b.configurationPending = true → b.zones = []
  transports : ∀ t ∈ b.transports, t = lit "UDP" ∨ t = lit "TCP"
  transportsOnce : b.transports.Nodup
  nodeBackends : BackendsValid b.nodeBackends
  clusterBackends : BackendsValid b.clusterBackends
  zones : ∀ z ∈ b.zones, z.Valid E
  apices : b.zones.Pairwise fun y z =>
    absoluteName E.cases y.apex = absoluteName E.cases z.apex → y.zoneUID = z.zoneUID

/-- The rules of a snapshot. -/
structure ServingSnapshot.Valid (E : Externals) (s : ServingSnapshot) : Prop where
  region : s.region ≠ []
  shard : s.shard ≠ []
  epoch : s.configurationEpoch ≠ 0
  revision : s.configurationRevision ≠ 0
  generatedAt : s.generatedAt ≠ 0
  members : ∀ m ∈ s.members, m.memberID ≠ [] ∧ m.HasRole
  membersOnce : (s.members.map fun m => m.memberID ++ ['\x00'] ++ m.replicaID).Nodup
  patterns : ∀ p ∈ s.memberPatterns, p.role = lit "node" ∧ p.idPrefix ≠ []
  requirements : ∀ r ∈ s.requiredPublications, r.zoneUID ≠ [] ∧ r.epoch ≠ 0 ∧ r.revision ≠ 0
  requirementsOnce : (s.requiredPublications.map PublicationRequirement.zoneUID).Nodup
  bindings : ∀ b ∈ s.bindings, b.Valid E
  uids : (s.bindings.map Binding.bindingUID).Nodup
  addresses : s.bindings.Pairwise fun a b =>
    (∃ raw ∈ a.addresses, raw ∈ b.addresses) → a.tombstone = true ∧ b.tombstone = true

section Spec

variable {E} (seen : List GoString)

theorem validateMember_eq_ok (m : Member) (out : List GoString) :
    validateMember seen m = .ok out ↔ (m.memberID ≠ [] ∧ m.HasRole) ∧
      m.memberID ++ ['\x00'] ++ m.replicaID ∉ seen ∧
      out = (m.memberID ++ ['\x00'] ++ m.replicaID) :: seen := by
  simp only [validateMember, check_fresh_eq_ok]
  refine and_congr_left' ?_
  rw [not_or, Member.HasRole]
  refine and_congr_right' ⟨fun h => ?_, fun h hnone => ?_⟩
  · by_contra hrole
    simp only [not_or] at hrole
    exact h hrole
  · rcases h with h | h | h | h <;> simp [h] at hnone

theorem validatePattern_eq_ok {p : MemberPattern} :
    p.validate = .ok () ↔ p.role = lit "node" ∧ p.idPrefix ≠ [] := by
  simp [MemberPattern.validate]

theorem validateRequirement_eq_ok (r : PublicationRequirement) (out : List GoString) :
    validateRequirement seen r = .ok out ↔ (r.zoneUID ≠ [] ∧ r.epoch ≠ 0 ∧ r.revision ≠ 0) ∧
      r.zoneUID ∉ seen ∧ out = r.zoneUID :: seen := by
  rw [validateRequirement, check_fresh_eq_ok]
  refine and_congr_left' ?_
  rw [not_or, not_or]

theorem validateTransport_eq_ok (t : GoString) (out : List GoString) :
    validateTransport seen t = .ok out ↔ (t = lit "UDP" ∨ t = lit "TCP") ∧
      t ∉ seen ∧ out = t :: seen := by
  rw [validateTransport, check_fresh_eq_ok]
  refine and_congr_left' ?_
  rw [not_and_or, not_not, not_not]

theorem validateBackend_eq_ok (uid : GoString)
    (acc : GoMap GoString GoString × GoMap GoString GoString) (backend : Backend)
    (out : GoMap GoString GoString × GoMap GoString GoString) :
    validateBackend uid acc backend = .ok out ↔
      ((backend.memberID ≠ [] ∧ backend.port ≠ 0 ∧ concreteAddress backend.address = true) ∧
        (∀ v, acc.1.lookup backend.memberID = some v → v = backend.endpoint) ∧
        (∀ v, acc.2.lookup backend.endpoint = some v → v = backend.memberID)) ∧
      out = (acc.1.insert backend.memberID backend.endpoint,
        acc.2.insert backend.endpoint backend.memberID) := by
  simp only [validateBackend, bind_eq_ok, failIf_eq_ok, not_or, not_not,
    any_eq_true, decide_eq_true_eq, not_exists, not_and]
  constructor
  · rintro ⟨-, ⟨hm, hp⟩, -, ha, -, h1, -, h2, ho⟩
    exact ⟨⟨⟨hm, hp, ha⟩, h1, h2⟩, (ok.inj ho).symm⟩
  · rintro ⟨⟨⟨hm, hp, ha⟩, h1, h2⟩, rfl⟩
    exact ⟨(), ⟨hm, hp⟩, (), ha, (), h1, (), h2, rfl⟩

theorem foldl_backends (group : List Backend) :
    group.foldl (fun (acc : GoMap GoString GoString × GoMap GoString GoString) backend =>
      (acc.1.insert backend.memberID backend.endpoint,
        acc.2.insert backend.endpoint backend.memberID)) (∅, ∅) =
      (GoMap.lastUse (fun b : Backend => [b.memberID]) Backend.endpoint group,
        GoMap.lastUse (fun b : Backend => [b.endpoint]) Backend.memberID group) := by
  induction group using List.reverseRecOn with
  | nil => rfl
  | append_singleton group x ih =>
    rw [List.foldl_append, ih, lastUse_concat, lastUse_concat]
    simp [noteUse]

theorem validateBackends_eq_ok {u : GoString} {group : List Backend} :
    (∃ out, loop (validateBackend u) (∅, ∅) group = .ok out) ↔ BackendsValid group := by
  rw [loop_accepts_iff (validateBackend_eq_ok u)]
  simp only [foldl_backends]
  have hmember := forall_lastUse_iff_pairwise (fun b : Backend => [b.memberID])
    Backend.endpoint (R := fun v b => v = b.endpoint) (fun _ _ _ hab hbc => hab.trans hbc) group
  have hendpoint := forall_lastUse_iff_pairwise (fun b : Backend => [b.endpoint])
    Backend.memberID (R := fun v b => v = b.memberID) (fun _ _ _ hab hbc => hab.trans hbc) group
  simp only [List.mem_singleton, forall_eq, exists_eq_left] at hmember hendpoint
  constructor
  · intro h
    refine ⟨forall_split_mem.mp fun done x rest hxs => (h done x rest hxs).1, ?_⟩
    have h1 := hmember.mp fun done x rest hxs => (h done x rest hxs).2.1
    have h2 := hendpoint.mp fun done x rest hxs => (h done x rest hxs).2.2
    exact (h1.and h2).imp fun hab => ⟨hab.1, hab.2⟩
  · rintro ⟨hcomplete, hconsistent⟩ done x rest hxs
    exact ⟨hcomplete x (by simp [hxs]),
      hmember.mpr (hconsistent.imp fun hab => hab.mp) done x rest hxs,
      hendpoint.mpr (hconsistent.imp fun hab => hab.mpr) done x rest hxs⟩

theorem validateAttachment_eq_ok (uid : GoString) (zoneApex : GoMap GoString GoString)
    (z : ZoneAttachment) (out : GoMap GoString GoString) :
    validateAttachment E uid zoneApex z = .ok out ↔
      (z.Valid E ∧
        ∀ v, zoneApex.lookup (absoluteName E.cases z.apex) = some v → v = z.zoneUID) ∧
      out = GoMap.noteUse (fun z => [absoluteName E.cases z.apex]) ZoneAttachment.zoneUID
        zoneApex z := by
  simp only [validateAttachment, bind_eq_ok, failIf_eq_ok, not_or, not_not,
    any_eq_true, decide_eq_true_eq, not_exists, not_and]
  constructor
  · rintro ⟨-, ⟨hu, he, hr⟩, -, ⟨hroot, hname⟩, -, hsame, ho⟩
    exact ⟨⟨⟨hu, he, hr, hroot, hname⟩, hsame⟩, (ok.inj ho).symm⟩
  · rintro ⟨⟨⟨hu, he, hr, hroot, hname⟩, hsame⟩, rfl⟩
    exact ⟨(), ⟨hu, he, hr⟩, (), ⟨hroot, hname⟩, (), hsame, rfl⟩

theorem validateAttachments_eq_ok {u : GoString} {zones : List ZoneAttachment} :
    (∃ out, loop (validateAttachment E u) ∅ zones = .ok out) ↔
      (∀ z ∈ zones, z.Valid E) ∧ zones.Pairwise fun y z =>
        absoluteName E.cases y.apex = absoluteName E.cases z.apex → y.zoneUID = z.zoneUID := by
  rw [loop_accepts_iff (validateAttachment_eq_ok u)]
  have happly := forall_lastUse_iff_pairwise
    (fun z : ZoneAttachment => [absoluteName E.cases z.apex]) ZoneAttachment.zoneUID
    (R := fun v z => v = z.zoneUID) (fun _ _ _ hab hbc => hab.trans hbc) zones
  simp only [List.mem_singleton, forall_eq, exists_eq_left] at happly
  constructor
  · intro h
    exact ⟨forall_split_mem.mp fun done x rest hxs => (h done x rest hxs).1,
      happly.mp fun done x rest hxs => (h done x rest hxs).2⟩
  · rintro ⟨hvalid, hpair⟩ done x rest hxs
    exact ⟨hvalid x (by simp [hxs]), happly.mpr hpair done x rest hxs⟩

theorem validateAddress_eq_ok (b : Binding) (seenVIP : GoMap GoString Binding)
    (field : GoString × GoString) (out : GoMap GoString Binding) :
    validateAddress b seenVIP field = .ok out ↔ concreteAddress field.2 = true ∧
      (∀ old, seenVIP.lookup field.2 = some old → old.bindingUID ≠ b.bindingUID →
        old.tombstone = true ∧ b.tombstone = true) ∧
      out = seenVIP.insert field.2 b := by
  simp only [validateAddress, bind_eq_ok, failIf_eq_ok, not_not, any_eq_true,
    Bool.and_eq_true, Bool.or_eq_true, Bool.not_eq_true', decide_eq_true_eq, not_exists, not_and,
    not_or, Bool.not_eq_false]
  constructor
  · rintro ⟨-, hc, -, hold, ho⟩
    exact ⟨hc, hold, (ok.inj ho).symm⟩
  · rintro ⟨hc, hold, rfl⟩
    exact ⟨(), hc, (), hold, rfl⟩

/-- Both addresses of a binding: the second is compared with the map that already holds the first,
which only adds the binding itself. -/
theorem validateAddresses_eq_ok {b : Binding} {seenVIP out : GoMap GoString Binding} :
    loop (validateAddress b) seenVIP
      [(lit "consumerAddress", b.consumerAddress), (lit "clusterAddress", b.clusterAddress)] =
        .ok out ↔
      (∀ raw ∈ b.addresses, concreteAddress raw = true) ∧
      (∀ raw ∈ b.addresses, ∀ old, seenVIP.lookup raw = some old →
        old.bindingUID ≠ b.bindingUID → old.tombstone = true ∧ b.tombstone = true) ∧
      out = GoMap.noteUse addresses id seenVIP b := by
  simp only [loop_cons, loop_nil, bind_eq_ok, validateAddress_eq_ok, addresses,
    List.forall_mem_cons, List.not_mem_nil, false_implies, implies_true, and_true, noteUse,
    List.foldl, id]
  constructor
  · rintro ⟨_, ⟨hc, hcold, rfl⟩, _, ⟨hk, hkold, rfl⟩, ho⟩
    refine ⟨⟨hc, hk⟩, ⟨hcold, fun old hold => ?_⟩, (ok.inj ho).symm⟩
    by_cases hsame : b.clusterAddress = b.consumerAddress
    · exact hcold old (hsame ▸ hold)
    · exact hkold old (by rwa [AList.lookup_insert_ne hsame])
  · rintro ⟨⟨hc, hk⟩, ⟨hcold, hkold⟩, rfl⟩
    refine ⟨_, ⟨hc, hcold, rfl⟩, _, ⟨hk, fun old hold hne => ?_, rfl⟩, rfl⟩
    by_cases hsame : b.clusterAddress = b.consumerAddress
    · rw [hsame, AList.lookup_insert] at hold
      exact absurd (some.inj hold ▸ rfl) hne
    · exact hkold old (by rwa [AList.lookup_insert_ne hsame] at hold) hne

theorem validateBinding_eq_ok (acc : List GoString × GoMap GoString Binding) (b : Binding)
    (out : List GoString × GoMap GoString Binding) :
    validateBinding E acc b = .ok out ↔
      (b.Valid E ∧ b.bindingUID ∉ acc.1 ∧
        ∀ raw ∈ b.addresses, ∀ old, acc.2.lookup raw = some old →
          old.bindingUID ≠ b.bindingUID → old.tombstone = true ∧ b.tombstone = true) ∧
      out = (b.bindingUID :: acc.1, GoMap.noteUse addresses id acc.2 b) := by
  simp only [validateBinding, bind_eq_ok, failIf_eq_ok, wrap_eq_ok, not_or, not_and,
    validateAddresses_eq_ok]
  constructor
  · rintro ⟨⟨⟩, ⟨huid, hproj, hctx, hgen, hrev⟩, ⟨⟩, hfresh, _, ⟨hconcrete, hshared, rfl⟩,
      ⟨⟩, ⟨hport, hsome, hepoch, hseq⟩, ⟨⟩, hpending, tr, htr, nb, hnb, cb, hcb, zs, hzs, ho⟩
    obtain ⟨htransports, honce⟩ := (loop_distinct_total validateTransport_eq_ok _).mp ⟨tr, htr⟩
    obtain ⟨hzones, hapices⟩ := validateAttachments_eq_ok.mp ⟨zs, hzs⟩
    refine ⟨⟨?_, hfresh, hshared⟩, (ok.inj ho).symm⟩
    exact {
      bindingUID := huid, projectUID := hproj, contextUID := hctx, generation := hgen
      revision := hrev, concrete := hconcrete, port := hport, someTransport := hsome
      epoch := hepoch, sequence := hseq
      pendingHasNoZones := fun hp => not_not.mp (hpending hp)
      transports := htransports, transportsOnce := by simpa using honce
      nodeBackends := validateBackends_eq_ok.mp ⟨nb, hnb⟩
      clusterBackends := validateBackends_eq_ok.mp ⟨cb, hcb⟩
      zones := hzones, apices := hapices }
  · rintro ⟨⟨hb, hfresh, hshared⟩, rfl⟩
    obtain ⟨tr, htr⟩ := (loop_distinct_total validateTransport_eq_ok _).mpr
      ⟨hb.transports, by simpa using hb.transportsOnce⟩
    obtain ⟨nb, hnb⟩ := (validateBackends_eq_ok (u := b.bindingUID)).mpr hb.nodeBackends
    obtain ⟨cb, hcb⟩ := (validateBackends_eq_ok (u := b.bindingUID)).mpr hb.clusterBackends
    obtain ⟨zs, hzs⟩ := (validateAttachments_eq_ok (u := b.bindingUID)).mpr ⟨hb.zones, hb.apices⟩
    exact ⟨(), ⟨hb.bindingUID, hb.projectUID, hb.contextUID, hb.generation, hb.revision⟩, (),
      hfresh, _, ⟨hb.concrete, hshared, rfl⟩, (),
      ⟨hb.port, hb.someTransport, hb.epoch, hb.sequence⟩, (),
      fun hp => not_not.mpr (hb.pendingHasNoZones hp), tr, htr, nb, hnb, cb, hcb, zs, hzs, rfl⟩

/-- The accumulator of the loop over the bindings: the UIDs, and the last binding of each
address. -/
theorem foldl_bindings (bs : List Binding) :
    bs.foldl (fun acc b => (b.bindingUID :: acc.1, GoMap.noteUse addresses id acc.2 b))
      ([], ∅) =
      ((bs.map bindingUID).reverse, GoMap.lastUse addresses id bs) := by
  induction bs using List.reverseRecOn with
  | nil => rfl
  | append_singleton bs x ih =>
    rw [List.foldl_append, ih, lastUse_concat]
    simp

theorem validateBindings_eq_ok {bs : List Binding} :
    (∃ out, loop (validateBinding E) ([], ∅) bs = .ok out) ↔
      (∀ b ∈ bs, b.Valid E) ∧ (bs.map bindingUID).Nodup ∧
        bs.Pairwise fun a b =>
          (∃ raw ∈ a.addresses, raw ∈ b.addresses) → a.tombstone = true ∧ b.tombstone = true := by
  have hshared := forall_lastUse_iff_pairwise addresses id
    (R := fun a b => a.tombstone = true ∧ b.tombstone = true)
    (fun _ _ _ hab hbc => ⟨hab.1, hbc.2⟩) bs
  rw [loop_accepts_iff validateBinding_eq_ok]
  simp only [foldl_bindings, List.mem_reverse]
  constructor
  · intro h
    have hfresh := fun done x rest hxs => (h done x rest hxs).2.1
    refine ⟨forall_split_mem.mp fun done x rest hxs => (h done x rest hxs).1,
      forall_split_fresh.mp hfresh, hshared.mp fun done x rest hxs raw hraw old hold => ?_⟩
    refine (h done x rest hxs).2.2 raw hraw old hold fun hsame => hfresh done x rest hxs ?_
    -- the remembered binding came before, so its UID is another one
    obtain ⟨before, y, after, rfl, -, rfl, -⟩ := lookup_lastUse_some hold
    exact List.mem_map.mpr ⟨y, by simp, hsame⟩
  · rintro ⟨hvalid, huids, hpair⟩ done x rest hxs
    exact ⟨hvalid x (by simp [hxs]), forall_split_fresh.mpr huids done x rest hxs,
      fun raw hraw old hold _ => hshared.mpr hpair done x rest hxs raw hraw old hold⟩

/-- **Valid snapshots.**  `ServingSnapshot.validate` accepts exactly the snapshots that meet the
rules. -/
theorem ServingSnapshot.validate_eq_ok {s : ServingSnapshot} :
    s.validate E = .ok () ↔ s.Valid E := by
  simp only [ServingSnapshot.validate, bind_eq_ok, failIf_eq_ok, forEach_eq_ok, not_or,
    validatePattern_eq_ok]
  constructor
  · rintro ⟨⟨⟩, ⟨hregion, hshard, hepoch, hrev, hat⟩, ms, hms, ⟨⟩, hpatterns, rs, hrs, bs, hbs, -⟩
    obtain ⟨hmembers, hmonce⟩ := (loop_distinct_total validateMember_eq_ok _).mp ⟨ms, hms⟩
    obtain ⟨hreqs, hronce⟩ := (loop_distinct_total validateRequirement_eq_ok _).mp ⟨rs, hrs⟩
    obtain ⟨hbindings, huids, haddrs⟩ := validateBindings_eq_ok.mp ⟨bs, hbs⟩
    exact ⟨hregion, hshard, hepoch, hrev, hat, hmembers, hmonce, hpatterns, hreqs, hronce,
      hbindings, huids, haddrs⟩
  · intro hs
    obtain ⟨ms, hms⟩ := (loop_distinct_total validateMember_eq_ok _).mpr ⟨hs.members, hs.membersOnce⟩
    obtain ⟨rs, hrs⟩ := (loop_distinct_total validateRequirement_eq_ok _).mpr
      ⟨hs.requirements, hs.requirementsOnce⟩
    obtain ⟨bs, hbs⟩ := validateBindings_eq_ok.mpr ⟨hs.bindings, hs.uids, hs.addresses⟩
    exact ⟨(), ⟨hs.region, hs.shard, hs.epoch, hs.revision, hs.generatedAt⟩, ms, hms, (),
      hs.patterns, rs, hrs, bs, hbs, trivial⟩

end Spec

end InternalDNS
