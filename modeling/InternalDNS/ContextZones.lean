import InternalDNS.Allocator
import InternalDNS.ContextBindings

/-! # The zones of a context

A tenant attaches zones to its contexts by associations.  Before the bindings of a pass are written,
`reconcileAssociations` decides which associations count: an apex belongs to one zone of a context,
and the first association in the order of names wins.  So a context never has two zones of one name,
which is what `apex_unique` says.

An access binding is accepted if the allocator takes its destination.  `Accepted.Admitted` collects
what is known of what the reconciler then writes into the resolver binding.
-/
namespace InternalDNS.Controlplane

open Go Platform Option Addr

/-- `v1alpha1.DNSZoneAssociation`, with what its references are pinned to. -/
structure ZoneAssociation where
  contextUID : GoString
  zone : DNSZone
  /-- Both references are current, and the zone shadows no reserved subtree of the context. -/
  current : Bool

variable (E : Externals)

/-- The key under which an apex is owned. -/
def ZoneAssociation.apexKey (a : ZoneAssociation) : GoString × GoString :=
  (a.contextUID, canonicalName E.cases a.zone.domainName)

/-- One association of the loop in `reconcileAssociations`; the accumulator is the zone that owns
each apex, and the associations that own theirs. -/
def claimApex (acc : GoMap (GoString × GoString) GoString × List ZoneAssociation)
    (a : ZoneAssociation) : GoMap (GoString × GoString) GoString × List ZoneAssociation :=
  if !a.current then acc
  else if (acc.1.lookup (a.apexKey E)).any fun old => old ≠ [] && old ≠ a.zone.uid then acc
  else (acc.1.insert (a.apexKey E) a.zone.uid, acc.2 ++ [a])

/-- The associations of a namespace that pass all checks but the limit on zones. -/
def apexOwners (items : List ZoneAssociation) : List ZoneAssociation :=
  (items.foldl (claimApex E) (∅, [])).2

/-- The zones of a context, in order. -/
def contextZones (accepted : List ZoneAssociation) (contextUID : GoString) : List GoString :=
  ((accepted.filter (·.contextUID = contextUID)).map (·.zone.uid)).dedup.insertionSort (· ≤ ·)

theorem mem_contextZones {accepted : List ZoneAssociation} {contextUID uid : GoString} :
    uid ∈ contextZones accepted contextUID ↔
      ∃ a ∈ accepted, a.contextUID = contextUID ∧ a.zone.uid = uid := by
  rw [contextZones, List.mem_insertionSort, List.mem_dedup]
  simp [and_assoc]

variable {E}

theorem lookup_apexOwners {items : List ZoneAssociation} (huids : ∀ a ∈ items, a.zone.uid ≠ []) :
    ∀ a ∈ apexOwners E items, a ∈ items ∧
      (items.foldl (claimApex E) (∅, [])).1.lookup (a.apexKey E) = some a.zone.uid := by
  refine foldl_invariant
    (P := fun done (acc : GoMap (GoString × GoString) GoString × List ZoneAssociation) =>
      ∀ a ∈ acc.2, a ∈ done ∧ acc.1.lookup (a.apexKey E) = some a.zone.uid) nofun ?_
  intro done x rest acc hitems ih
  have hkeep : ∀ a ∈ acc.2, a ∈ done ++ [x] ∧ acc.1.lookup (a.apexKey E) = some a.zone.uid :=
    fun a ha => ⟨List.mem_append_left _ (ih a ha).1, (ih a ha).2⟩
  unfold claimApex
  split_ifs with hcurrent hconflict
  · exact hkeep
  · exact hkeep
  · intro a ha
    rcases List.mem_append.mp ha with ha | ha
    · refine ⟨(hkeep a ha).1, ?_⟩
      by_cases hkey : a.apexKey E = x.apexKey E
      · -- the apex was owned by the zone that owns it now
        rw [hkey, AList.lookup_insert]
        have hold := hkey ▸ (ih a ha).2
        have huid : a.zone.uid ≠ [] := huids a (by simp [hitems, (ih a ha).1])
        rw [hold, any_some, Bool.and_eq_true, decide_eq_true_eq, decide_eq_true_eq, not_and,
          not_not] at hconflict
        exact congrArg some (hconflict huid).symm
      · rw [AList.lookup_insert_ne hkey]
        exact (hkeep a ha).2
    · obtain rfl := List.mem_singleton.mp ha
      exact ⟨by simp, AList.lookup_insert _⟩

/-- **An apex belongs to one zone of a context.** -/
theorem apex_unique {items : List ZoneAssociation} (huids : ∀ a ∈ items, a.zone.uid ≠ [])
    {a b : ZoneAssociation} (ha : a ∈ apexOwners E items) (hb : b ∈ apexOwners E items)
    (hkey : a.apexKey E = b.apexKey E) : a.zone.uid = b.zone.uid := by
  have hla := (lookup_apexOwners huids a ha).2
  rw [hkey, (lookup_apexOwners huids b hb).2] at hla
  exact (some.inj hla).symm

/-! ## Accepted access -/

/-- The text under which the destination of an access binding is claimed, if it is taken. -/
def Accepted.claimedAddress (a : Allocator) (x : Accepted) : Option GoString :=
  (Addr.parseAddr x.access.destinationAddress).bind fun parsed =>
    a.destinationAddress x.projectUID x.access.contextRef.uid x.access.region parsed.unmap.string

/-- What is known of an access binding that a pass has accepted, where `domain` is the domain name of
each zone: it is immutable, and UIDs are never used again. -/
structure Accepted.Admitted (E : Externals) (a : Allocator) (domain : GoString → GoString)
    (x : Accepted) : Prop where
  destination : (x.claimedAddress a).isSome
  zones : ∀ z ∈ x.zones, z.uid ≠ [] ∧ z.domainName = domain z.uid
  zids : ∃ items accepted : List ZoneAssociation, (∀ i ∈ items, i.zone ∈ x.zones) ∧
    accepted.Sublist (apexOwners E items) ∧ x.zids = contextZones accepted x.access.contextRef.uid

/-- The zones that a binding refers to, and their names. -/
structure ZonesKnown (domain : GoString → GoString) (spec : ResolverBindingSpec) : Prop where
  uid : ∀ ref ∈ spec.zoneRefs, ref.uid ≠ []
  apex : ∀ ref ∈ spec.zoneRefs, spec.zoneApices.lookup ref.uid = some (domain ref.uid)
  plain : ∀ ref ∈ spec.zoneRefs, Plain (domain ref.uid)
  distinct : ∀ r ∈ spec.zoneRefs, ∀ s ∈ spec.zoneRefs, domain r.uid = domain s.uid → r.uid = s.uid

theorem mem_zoneReferences {uids : List GoString} {zones : List DNSZone} {ref : ObjectReference}
    (h : ref ∈ zoneReferences uids zones) : ∃ z ∈ zones, z.uid = ref.uid ∧ ref.uid ∈ uids := by
  obtain ⟨uid, huid, href⟩ := List.mem_filterMap.mp h
  obtain ⟨z, hz, rfl⟩ := map_eq_some_iff.mp href
  exact ⟨z, List.mem_of_find?_eq_some hz, by simpa using List.find?_some hz, huid⟩

theorem lookup_zoneApices {domain : GoString → GoString} {uids : List GoString} {zones : List DNSZone}
    (hzones : ∀ z ∈ zones, z.domainName = domain z.uid) {z : DNSZone} (hz : z ∈ zones)
    (huid : z.uid ∈ uids) : (zoneApices uids zones).lookup z.uid = some (domain z.uid) := by
  have hmem : z ∈ zones.filter fun z => uids.contains z.uid :=
    List.mem_filter.mpr ⟨hz, by simpa using huid⟩
  obtain ⟨name, hname⟩ := GoMap.exists_lookup_fill DNSZone.uid DNSZone.domainName hmem
  obtain ⟨x, hx, hsame, rfl⟩ := GoMap.lookup_fill hname
  rw [zoneApices, hname, hzones x (List.mem_filter.mp hx).1, hsame]

section Admitted

variable {a : Allocator} {domain : GoString → GoString} {x : Accepted}

/-- What is written of the zones. -/
theorem Accepted.Admitted.zonesKnown (h : x.Admitted E a domain) (cluster : GoString)
    (old : Option ResolverBindingSpec) : ZonesKnown domain (x.spec cluster old) := by
  have hname : ∀ z ∈ x.zones, z.domainName = domain z.uid := fun z hz => (h.zones z hz).2
  obtain ⟨items, accepted, hitems, hsub, hzids⟩ := h.zids
  have hassociated : ∀ ref ∈ zoneReferences x.zids x.zones, ∃ i ∈ apexOwners E items,
      i.contextUID = x.access.contextRef.uid ∧ i.zone.uid = ref.uid := by
    intro ref href
    obtain ⟨z, -, -, hmem⟩ := mem_zoneReferences href
    rw [hzids] at hmem
    obtain ⟨i, hi, hcontext, huid⟩ := mem_contextZones.mp hmem
    exact ⟨i, hsub.subset hi, hcontext, huid⟩
  have huids : ∀ i ∈ items, i.zone.uid ≠ [] := fun i hi => (h.zones _ (hitems i hi)).1
  refine ⟨fun ref href => ?_, fun ref href => ?_, fun ref href => ?_, fun r hr s hs heq => ?_⟩
  · obtain ⟨z, hz, huid, -⟩ := mem_zoneReferences href
    exact huid ▸ (h.zones z hz).1
  · obtain ⟨z, hz, huid, hmem⟩ := mem_zoneReferences href
    rw [← huid] at hmem ⊢
    exact lookup_zoneApices hname hz hmem
  · obtain ⟨z, hz, huid, -⟩ := mem_zoneReferences href
    rw [← huid, ← hname z hz]
    exact isPlain_iff.mp z.domain
  · obtain ⟨i, hi, hicontext, hiuid⟩ := hassociated r hr
    obtain ⟨j, hj, hjcontext, hjuid⟩ := hassociated s hs
    have hi' := hitems i (lookup_apexOwners huids i hi).1
    have hj' := hitems j (lookup_apexOwners huids j hj).1
    rw [← hiuid, ← hjuid]
    refine apex_unique huids hi hj ?_
    rw [ZoneAssociation.apexKey, ZoneAssociation.apexKey, hicontext, hjcontext, hname _ hi',
      hname _ hj', hiuid, hjuid, heq]

/-- A destination that is taken is an address of its own. -/
theorem Accepted.Admitted.concrete (h : x.Admitted E a domain) :
    concreteAddress x.access.destinationAddress = true := by
  obtain ⟨address, haddress⟩ := isSome_iff_exists.mp h.destination
  obtain ⟨parsed, hparse, hclaim⟩ := bind_eq_some_iff.mp haddress
  rw [concreteAddress, hparse, any_some, Bool.not_eq_true']
  by_contra hunspecified
  rw [Bool.not_eq_false, isUnspecified, Bool.or_eq_true, decide_eq_true_eq,
    decide_eq_true_eq] at hunspecified
  rcases hunspecified with rfl | rfl
  · have hzero : parseAddr (unmap (.v4 0)).string = some (.v4 0) := by decide
    cases hclaim
  · have hzero : parseAddr (unmap (.v6 0 [])).string = some (.v6 0 []) := by decide
    cases hclaim

/-- The project and the context are named. -/
theorem Accepted.Admitted.identity (h : x.Admitted E a domain) :
    x.projectUID ≠ [] ∧ x.access.contextRef.uid ≠ [] := by
  obtain ⟨address, haddress⟩ := isSome_iff_exists.mp h.destination
  obtain ⟨parsed, -, hclaim⟩ := bind_eq_some_iff.mp haddress
  unfold Allocator.destinationAddress at hclaim
  split at hclaim
  · cases hclaim
  · split_ifs at hclaim with hform
    simp only [not_or] at hform
    exact ⟨hform.2.2.1, hform.2.2.2.1⟩

end Admitted

end InternalDNS.Controlplane
