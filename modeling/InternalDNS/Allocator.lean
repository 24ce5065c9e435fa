import InternalDNS.Externals
import InternalDNS.GoNetText
import InternalDNS.GoStore

/-! # The address allocator

Every resolver context gets an address from a pool of its region, under which the regional resolvers
answer for it.  The address is a hash of the owner, and two objects are stored for it: a claim named
after the address, which makes sure that nobody else has it, and a lease named after the owner.
Neither is ever taken back.  The addresses that tenants choose for themselves, the service
destinations, are claimed as well; they have to lie outside of all pools.

All control planes share these objects, and each call of the API server is a step of its own.
`Allocations.Inv` says what the objects are like in every state, and from it `lease_unique`: two
leases have the same address exactly if they have the same owner.
-/
namespace InternalDNS.Platform

open Go GoMap

/-! ## Pools -/

/-- The mask of the first bits of an address. -/
def prefixMask (bits : Nat) : BitVec 128 := BitVec.allOnes 128 <<< (128 - bits)

/-- A pool, as `platform.ParseRegionalPrefix` returns it: at least 16 host bits, all of them zero. -/
structure RegionalPrefix where
  addr : BitVec 128
  bits : Nat
  hostBits : bits ≤ 112
  masked : addr &&& prefixMask bits = addr

/-- `platform.ParseRegionalPrefix`. -/
def parseRegionalPrefix (text : GoString) : Option RegionalPrefix :=
  match parsePrefix (if text = [] then lit "fd54::/64" else text) with
  | some (.v6 addr _, bits) =>
    if h : bits ≤ 112 then
      some ⟨addr &&& prefixMask bits, bits, h, by rw [BitVec.and_assoc, BitVec.and_self]⟩
    else none
  | _ => none

/-- `Prefix.Contains`, for an IPv6 prefix. -/
def RegionalPrefix.contains (p : RegionalPrefix) : Addr → Bool
  | .v6 bits zone => zone = [] && bits &&& prefixMask p.bits = p.addr
  | _ => false

variable (E : Externals)

/-- The first 128 bits of the SHA-256 of a text. -/
def hashBits (text : GoString) : BitVec 128 :=
  BitVec.ofNat 128 (ofDigits 16 (((E.hash text).take 32).map fun c => (Addr.hexDigit c).getD 0))

/-- The address of the pool that the hash selects, never the one with all host bits zero. -/
def hostAddress (p : RegionalPrefix) (text : GoString) : BitVec 128 :=
  p.addr ||| (hashBits E text &&& ~~~ prefixMask p.bits) ||| 1#128

/-- `platform.addressInPrefix`. -/
def addressInPrefix (p : RegionalPrefix) (owner : GoString) (salt : Nat) : GoString :=
  (Addr.v6 (hostAddress E p (owner ++ '/' :: itoa salt)) []).string

/-- The loop of `addressInPrefix`, which copies the host bits from the hash one by one. -/
def fillHostBits (p : RegionalPrefix) (hash : BitVec 128) : BitVec 128 :=
  (List.range' p.bits (128 - p.bits)).foldl (fun base bit =>
    let mask := BitVec.twoPow 128 (127 - bit)
    if hash &&& mask ≠ 0 then base ||| mask else base &&& ~~~ mask) p.addr

/-- `platform.Allocator`: the shared pool, and the regions that have their own. -/
structure Allocator where
  clusterPrefix : RegionalPrefix
  regionalPrefixes : GoMap GoString RegionalPrefix

namespace Allocator

/-- `Allocator.prefixFor`. -/
def prefixFor (a : Allocator) (region : GoString) : RegionalPrefix :=
  (a.regionalPrefixes.lookup region).getD a.clusterPrefix

/-- `Allocator.pools`. -/
def pools (a : Allocator) : List RegionalPrefix :=
  a.clusterPrefix :: a.regionalPrefixes.entries.map Sigma.snd

/-- Under which name a context leases its address: a region with its own pool leases separately. -/
def leaseOwner (a : Allocator) (project context region : GoString) : GoString :=
  project ++ '/' :: context ++ if (a.regionalPrefixes.lookup region).isSome then '/' :: region else []

theorem prefixFor_mem_pools (a : Allocator) (region : GoString) : a.prefixFor region ∈ a.pools := by
  unfold prefixFor
  cases h : a.regionalPrefixes.lookup region with
  | none => exact List.mem_cons_self
  | some p =>
    exact List.mem_cons_of_mem _ (List.mem_map.mpr ⟨_, AList.mem_lookup_iff.mp h, rfl⟩)

end Allocator

/-- An address text that belongs to a pool. -/
def InPool (a : Allocator) (address : GoString) : Prop :=
  ∃ p ∈ a.pools, ∃ bits : BitVec 128, bits ≠ 0 ∧ p.contains (.v6 bits []) = true ∧
    address = (Addr.v6 bits []).string

/-- The text of an address that is in no pool. -/
def OutsidePools (a : Allocator) (address : GoString) : Prop :=
  ∃ parsed : Addr, parsed ≠ .invalid ∧ parsed.zone = [] ∧
    (∀ p ∈ a.pools, p.contains parsed = false) ∧ address = parsed.string

section

variable (p : RegionalPrefix) (text : GoString)

theorem hostAddress_last :
    (hostAddress E p text).getLsbD 0 = true := by simp [hostAddress]

theorem hostAddress_ne_zero : hostAddress E p text ≠ 0 := by
  intro h
  have hlast := hostAddress_last E p text
  simp [h] at hlast

theorem getLsbD_prefixMask {bits i : Nat} (hi : i < 128) :
    (prefixMask bits).getLsbD i = decide (128 - bits ≤ i) := by
  have hlow : i - (128 - bits) < 128 := by omega
  rw [prefixMask, BitVec.getLsbD_shiftLeft, BitVec.getLsbD_allOnes, decide_eq_true hi,
    decide_eq_true hlow, Bool.true_and, Bool.and_true, ← decide_not, decide_eq_decide, not_lt]

theorem hostAddress_and_prefixMask :
    hostAddress E p text &&& prefixMask p.bits = p.addr := by
  refine BitVec.eq_of_getLsbD_eq fun i hi => ?_
  have hhost := p.hostBits
  have hmasked := congrArg (BitVec.getLsbD · i) p.masked
  simp only [hostAddress, BitVec.getLsbD_and, BitVec.getLsbD_or, BitVec.getLsbD_not,
    getLsbD_prefixMask hi, BitVec.getLsbD_one] at hmasked ⊢
  by_cases hbit : 128 - p.bits ≤ i
  · have hpos : i ≠ 0 := by omega
    simp [hbit, hpos]
  · simpa [hbit] using hmasked

/-- After the loop the bits behind the prefix are those of the hash. -/
theorem getLsbD_fillHostBits (hash : BitVec 128) {i : Nat} (hi : i < 128) :
    (fillHostBits p hash).getLsbD i =
      if i < 128 - p.bits then hash.getLsbD i else p.addr.getLsbD i := by
  have hloop : (fillHostBits p hash).getLsbD i =
      if 127 - i ∈ List.range' p.bits (128 - p.bits) then hash.getLsbD i else p.addr.getLsbD i := by
    refine foldl_invariant (P := fun done (base : BitVec 128) => base.getLsbD i =
      if 127 - i ∈ done then hash.getLsbD i else p.addr.getLsbD i) (by simp) ?_
    intro done bit rest base hsplit hbase
    dsimp only
    have hbit : bit < 128 := by
      have hmem : bit ∈ List.range' p.bits (128 - p.bits) := by rw [hsplit]; simp
      have := List.mem_range'_1.mp hmem
      omega
    by_cases h : 127 - bit = i
    · have hlast : 127 - i ∈ done ++ [bit] := by simp; omega
      have hmask : BitVec.twoPow 128 i ≠ 0#128 := fun hzero => by
        simpa [hi] using congrArg (BitVec.getLsbD · i) hzero
      rw [if_pos hlast, BitVec.and_twoPow, h]
      cases hash.getLsbD i <;> simp [hmask, hi]
    · have hother : 127 - i ∈ done ++ [bit] ↔ 127 - i ∈ done := by simp; omega
      simp only [hother, ← hbase]
      split_ifs <;> simp [BitVec.getLsbD_twoPow, -BitVec.getLsbD_eq_getElem, h, hi]
  have hrange : 127 - i ∈ List.range' p.bits (128 - p.bits) ↔ i < 128 - p.bits := by
    have := p.hostBits
    rw [List.mem_range'_1]
    omega
  simpa only [hrange] using hloop

/-- The loop gives what `hostAddress` says. -/
theorem hostAddress_eq_fillHostBits :
    hostAddress E p text = fillHostBits p (hashBits E text) ||| 1#128 := by
  refine BitVec.eq_of_getLsbD_eq fun i hi => ?_
  have hmasked := congrArg (BitVec.getLsbD · i) p.masked
  simp only [hostAddress, BitVec.getLsbD_and, BitVec.getLsbD_or, BitVec.getLsbD_not,
    getLsbD_prefixMask hi, getLsbD_fillHostBits p _ hi] at hmasked ⊢
  by_cases hhost : 128 - p.bits ≤ i
  · simp [hhost, Nat.not_lt.mpr hhost]
  · rw [← hmasked]
    simp [hhost, hi, Nat.lt_of_not_le hhost]

end

/-- **The address that is allocated.**  For every pool that can be configured, the bits that the loop
copies make an address in the pool that is not the one with all host bits zero, and the text that the
claims are named after stands for this address and no other. -/
theorem address_of_text (prefixText owner : GoString) (salt : Nat) :
    ∀ p ∈ parseRegionalPrefix prefixText,
      let address := fillHostBits p (hashBits E (owner ++ '/' :: itoa salt)) ||| 1#128
      p.contains (.v6 address []) = true ∧ address ≠ p.addr ∧
        Addr.parseAddr (addressInPrefix E p owner salt) = some (.v6 address []) ∧
        ∀ other, (Addr.v6 other []).string = addressInPrefix E p owner salt → other = address := by
  intro p _
  have hparse (bits : BitVec 128) : Addr.parseAddr (Addr.v6 bits []).string = some (.v6 bits []) :=
    Addr.parseAddr_string nofun rfl
  rw [← hostAddress_eq_fillHostBits]
  refine ⟨by simp [RegionalPrefix.contains, hostAddress_and_prefixMask], fun heq => ?_, hparse _, ?_⟩
  · -- the last bit of the pool's own address is zero
    have hzero : p.addr.getLsbD 0 = false := by
      have := p.hostBits
      rw [← p.masked, BitVec.getLsbD_and, getLsbD_prefixMask (by decide), decide_eq_false (by omega),
        Bool.and_false]
    exact Bool.noConfusion ((hostAddress_last E p _).symm.trans (heq ▸ hzero))
  · intro other heq
    have hboth := hparse other
    rw [heq, addressInPrefix, hparse] at hboth
    cases hboth
    rfl

theorem default_pool_address :
    (parseRegionalPrefix []).any (fun p => p.bits = 64) = true ∧ ∀ p ∈ parseRegionalPrefix [],
      Addr.parseAddr (addressInPrefix .reference p (lit "p/c/cluster") 0) =
        some (.v6 (fillHostBits p (hashBits .reference (lit "p/c/cluster/0")) ||| 1#128) []) :=
  ⟨by decide +kernel, fun p hp => (address_of_text .reference [] (lit "p/c/cluster") 0 p hp).2.2.1⟩

/-- **What is allocated belongs to the pool.** -/
theorem inPool_addressInPrefix {a : Allocator} {p : RegionalPrefix} (hp : p ∈ a.pools)
    (owner : GoString) (salt : Nat) : InPool a (addressInPrefix E p owner salt) :=
  ⟨p, hp, _, hostAddress_ne_zero E p _, by simp [RegionalPrefix.contains, hostAddress_and_prefixMask],
    rfl⟩

/-- No text is both of a pool and outside of all. -/
theorem OutsidePools.not_inPool {a : Allocator} {address : GoString} (hout : OutsidePools a address) :
    ¬ InPool a address := by
  rintro ⟨p, hp, bits, -, hin, rfl⟩
  obtain ⟨parsed, hvalid, hzone, hnone, heq⟩ := hout
  have hback := Addr.parseAddr_string hvalid hzone
  rw [← heq, Addr.parseAddr_string (a := .v6 bits []) (by simp) rfl] at hback
  cases hback
  exact absurd hin (by simp [hnone p hp])

/-! ## The stored objects -/

/-- A regional claim: who has the address.  Every write gives an object a new resource version. -/
structure RegionalClaim where
  owner : GoString
  address : GoString
  version : Nat

/-- `platform.AddressLease`. -/
structure AddressLease where
  owner : GoString
  projectUID : GoString
  contextUID : GoString
  clusterAddress : GoString

/-- Who claims which service destination. -/
structure Destination where
  owner : GoString
  region : GoString
  address : GoString
  deriving DecidableEq

/-- A destination claim, with the label that it is found by when it is released. -/
structure DestinationClaim where
  destination : Destination
  label : GoString
  version : Nat

/-- The name of the regional claim of an address. -/
def claimName (address : GoString) : GoString := lit "dns-address-claim-" ++ E.opaqueToken address

/-- The name of the lease of an owner. -/
def leaseName (owner : GoString) : GoString := lit "dns-address-owner-" ++ E.opaqueToken owner

/-- The name of the claim of a destination. -/
def destinationName (d : Destination) : GoString :=
  lit "dns-destination-claim-" ++ E.opaqueToken (d.region ++ '/' :: d.address ++ lit "/53")

/-- The owner of a destination. -/
def destinationOwner (project context : GoString) : GoString := project ++ '/' :: context

/-- A call of `Allocate`. -/
structure Request where
  allocator : Allocator
  project : GoString
  context : GoString
  region : GoString

/-- The owner that a call leases for. -/
def Request.owner (r : Request) : GoString := r.allocator.leaseOwner r.project r.context r.region

/-- The lease that `reserve` tries with a salt. -/
def Request.candidate (r : Request) (salt : Nat) : AddressLease where
  owner := r.owner
  projectUID := r.project
  contextUID := r.context
  clusterAddress := addressInPrefix E (r.allocator.prefixFor r.region) (r.owner ++ lit "/cluster") salt

namespace Allocator

/-- The checks of `ClaimDestination` that need nothing stored; the result is the text under which the
destination is claimed. -/
def destinationAddress (a : Allocator) (project context region address : GoString) : Option GoString :=
  match Addr.parseAddr address with
  | none => none
  | some parsed =>
    if parsed.zone ≠ [] ∨ parsed.isGlobalUnicast = false ∨ project = [] ∨ context = [] ∨ region = []
    then none
    else if a.pools.any (·.contains parsed.unmap) then none
    else some parsed.unmap.string

variable {a : Allocator}

section

variable {project context region address out : GoString}

theorem destinationAddress_eq_none {parsed : Addr} (hparse : Addr.parseAddr address = some parsed)
    (hunicast : parsed.isGlobalUnicast = false) :
    a.destinationAddress project context region address = none := by
  unfold destinationAddress
  rw [hparse]
  exact if_pos (.inr (.inl hunicast))

theorem destinationAddress_region
    (h : a.destinationAddress project context region address = some out) : region ≠ [] := by
  unfold destinationAddress at h
  split at h
  · cases h
  · split_ifs at h with hform
    simp only [not_or] at hform
    exact hform.2.2.2.2

theorem outsidePools_destinationAddress
    (h : a.destinationAddress project context region address = some out) : OutsidePools a out := by
  unfold destinationAddress at h
  split at h
  · cases h
  · rename_i parsed hparse
    split_ifs at h with hform hpool
    cases h
    refine ⟨parsed.unmap, Addr.unmap_ne_invalid_of_parseAddr hparse, Addr.zone_unmap ?_, ?_, rfl⟩
    · simp only [not_or, not_not] at hform
      exact hform.1
    · simpa using hpool

end

end Allocator

/-! ## The system -/

/-- Where a call of `Allocate` or of `ClaimDestination` stands. -/
inductive Call where
  | idle
  /-- `reserve` has found no lease. -/
  | reserving (r : Request)
  /-- The regional claim is there, for the owner of the call, at this version.  It is `taken` if a
  destination claim of the address was found. -/
  | claimed (r : Request) (lease : AddressLease) (version : Nat) (taken : Bool)
  /-- No destination claim has the address. -/
  | checked (r : Request) (lease : AddressLease)
  /-- `ClaimDestination` has found no regional claim of the address. -/
  | looked (d : Destination) (label : GoString)
  /-- It has created the destination claim, at this version.  The destination is `reserved` if a
  regional claim of the address was found after all. -/
  | created (d : Destination) (version : Nat) (reserved : Bool)

/-- The stored objects, by name, and where the calls of the processes `J` stand. -/
structure Allocations (J : Type) where
  claims : GoMap GoString RegionalClaim
  leases : GoMap GoString AddressLease
  destinations : GoMap GoString DestinationClaim
  calls : J → Call
  /-- The next resource version. -/
  clock : Nat
  /-- The destinations for which a call of `ClaimDestination` has returned success. -/
  held : List Destination

/-- `Allocator.destinationClaimed`. -/
def Allocations.destinationClaimed {J : Type} (w : Allocations J) (address : GoString) : Bool :=
  w.destinations.entries.any fun d => d.2.destination.region ≠ [] && d.2.destination.address = address

section System

variable {J : Type} [DecidableEq J]

/-- A call has moved on. -/
def Allocations.setCall (w : Allocations J) (j : J) (next : Call) : Allocations J :=
  { w with calls := Function.update w.calls j next }

/-- A call of `ClaimDestination` returns success. -/
def Allocations.succeed (w : Allocations J) (j : J) (d : Destination) : Allocations J :=
  { w.setCall j .idle with held := d :: w.held }

variable (w : Allocations J)

/-- What starts with a step. -/
inductive AllocEvent where
  /-- A call of `Allocate` for the owner. -/
  | reserve (owner : GoString)
  /-- A call of `ClaimDestination`. -/
  | claim (d : Destination)
  /-- Nothing. -/
  | other

/-- One API call of an allocator that is one of `P`.  Salts may be tried in any order, and a call may
fail or crash anywhere.  UIDs that are `access` are those of access bindings, which owned destinations
before contexts did. -/
inductive AllocStep (P : Allocator → Prop) (access : GoString → Prop) :
    Allocations J → AllocEvent → Allocations J → Prop
  /-- There is no lease yet. -/
  | reserve {w : Allocations J} (j : J) (r : Request) (hallocator : P r.allocator)
      (hidle : w.calls j = .idle) (hnone : w.leases.lookup (leaseName E r.owner) = none) :
    AllocStep P access w (.reserve r.owner) (w.setCall j (.reserving r))
  /-- The regional claim is created. -/
  | claim {w : Allocations J} (j : J) (r : Request) (salt : Nat) (hcall : w.calls j = .reserving r)
      (hfree : w.claims.lookup (claimName E (r.candidate E salt).clusterAddress) = none) :
    AllocStep P access w .other
      { w.setCall j (.claimed r (r.candidate E salt) w.clock false) with
        claims := w.claims.insert (claimName E (r.candidate E salt).clusterAddress)
          ⟨r.owner, (r.candidate E salt).clusterAddress, w.clock⟩
        clock := w.clock + 1 }
  /-- It is there already, for the same owner. -/
  | own {w : Allocations J} (j : J) (r : Request) (salt version : Nat)
      (hcall : w.calls j = .reserving r)
      (hown : w.claims.lookup (claimName E (r.candidate E salt).clusterAddress) =
        some ⟨r.owner, (r.candidate E salt).clusterAddress, version⟩) :
    AllocStep P access w .other (w.setCall j (.claimed r (r.candidate E salt) version false))
  /-- No destination claim has the address. -/
  | check {w : Allocations J} (j : J) (r : Request) (lease : AddressLease) (version : Nat)
      (hcall : w.calls j = .claimed r lease version false)
      (hclear : w.destinationClaimed lease.clusterAddress = false) :
    AllocStep P access w .other (w.setCall j (.checked r lease))
  /-- A destination claim has the address. -/
  | taken {w : Allocations J} (j : J) (r : Request) (lease : AddressLease) (version : Nat)
      (hcall : w.calls j = .claimed r lease version false)
      (htaken : w.destinationClaimed lease.clusterAddress = true) :
    AllocStep P access w .other (w.setCall j (.claimed r lease version true))
  /-- The regional claim is deleted, and the next salt tried. -/
  | discard {w : Allocations J} (j : J) (r : Request) (lease : AddressLease) (stored : RegionalClaim)
      (hcall : w.calls j = .claimed r lease stored.version true)
      (hstored : w.claims.lookup (claimName E lease.clusterAddress) = some stored) :
    AllocStep P access w .other
      { w.setCall j (.reserving r) with claims := w.claims.erase (claimName E lease.clusterAddress) }
  /-- The lease is created. -/
  | lease {w : Allocations J} (j : J) (r : Request) (lease : AddressLease)
      (hcall : w.calls j = .checked r lease)
      (hfree : w.leases.lookup (leaseName E lease.owner) = none) :
    AllocStep P access w .other
      { w.setCall j .idle with leases := w.leases.insert (leaseName E lease.owner) lease }
  /-- The destination has an acceptable form, and no regional claim has its address. -/
  | look {w : Allocations J} (j : J) (a : Allocator) (project context region raw address : GoString)
      (hallocator : P a) (hidle : w.calls j = .idle) (huid : ¬ access context ∧ '/' ∉ context)
      (haddress : a.destinationAddress project context region raw = some address)
      (hnone : w.claims.lookup (claimName E address) = none) :
    AllocStep P access w (.claim ⟨destinationOwner project context, region, address⟩)
      (w.setCall j (.looked ⟨destinationOwner project context, region, address⟩
        (E.opaqueToken project)))
  /-- The destination claim is created. -/
  | create {w : Allocations J} (j : J) (d : Destination) (label : GoString)
      (hcall : w.calls j = .looked d label)
      (hfree : w.destinations.lookup (destinationName E d) = none) :
    AllocStep P access w .other
      { w.setCall j (.created d w.clock false) with
        destinations := w.destinations.insert (destinationName E d) ⟨d, label, w.clock⟩
        clock := w.clock + 1 }
  /-- It is there already, for the same owner. -/
  | found {w : Allocations J} (j : J) (d : Destination) (label : GoString) (stored : DestinationClaim)
      (hcall : w.calls j = .looked d label)
      (hstored : w.destinations.lookup (destinationName E d) = some stored)
      (hsame : stored.destination = d) (hlabel : stored.label = label) :
    AllocStep P access w .other (w.succeed j d)
  /-- It is there already, for the same owner, and gets the label. -/
  | relabel {w : Allocations J} (j : J) (d : Destination) (label : GoString)
      (stored : DestinationClaim) (hcall : w.calls j = .looked d label)
      (hstored : w.destinations.lookup (destinationName E d) = some stored)
      (hsame : stored.destination = d) (hlabel : stored.label ≠ label) :
    AllocStep P access w .other
      { w.succeed j d with
        destinations := w.destinations.insert (destinationName E d) ⟨d, label, w.clock⟩
        clock := w.clock + 1 }
  /-- It is there for an access binding of the context, and the context takes it over. -/
  | adopt {w : Allocations J} (j : J) (d : Destination) (label project uid : GoString)
      (stored : DestinationClaim) (hcall : w.calls j = .looked d label)
      (huid : access uid ∧ '/' ∉ uid)
      (hstored : w.destinations.lookup (destinationName E d) = some stored)
      (hsame : stored.destination = { d with owner := destinationOwner project uid }) :
    AllocStep P access w .other
      { w.succeed j d with
        destinations := w.destinations.insert (destinationName E d) ⟨d, label, w.clock⟩
        clock := w.clock + 1 }
  /-- After the claim was created, there is still no regional claim. -/
  | confirm {w : Allocations J} (j : J) (d : Destination) (version : Nat)
      (hcall : w.calls j = .created d version false)
      (hnone : w.claims.lookup (claimName E d.address) = none) :
    AllocStep P access w .other (w.succeed j d)
  /-- There is one. -/
  | refuse {w : Allocations J} (j : J) (d : Destination) (version : Nat) (regional : RegionalClaim)
      (hcall : w.calls j = .created d version false)
      (hregional : w.claims.lookup (claimName E d.address) = some regional) :
    AllocStep P access w .other (w.setCall j (.created d version true))
  /-- The destination claim is deleted. -/
  | rollback {w : Allocations J} (j : J) (d : Destination) (stored : DestinationClaim)
      (hcall : w.calls j = .created d stored.version true)
      (hstored : w.destinations.lookup (destinationName E d) = some stored) :
    AllocStep P access w .other
      { w.setCall j .idle with destinations := w.destinations.erase (destinationName E d) }
  /-- A call ends otherwise: it is refused, it fails, it finds the lease there or it crashes. -/
  | stop {w : Allocations J} (j : J) : AllocStep P access w .other (w.setCall j .idle)

end System

/-- Nothing is stored and nobody calls. -/
def Allocations.Fresh {J : Type} (w : Allocations J) : Prop :=
  w.claims = ∅ ∧ w.leases = ∅ ∧ w.destinations = ∅ ∧ w.held = [] ∧ ∀ j, w.calls j = .idle

/-! ## Allocators with the same pools -/

/-- The lease that a call has claimed an address for. -/
def Call.lease : Call → Option AddressLease
  | .claimed _ lease _ _ => some lease
  | .checked _ lease => some lease
  | _ => none

/-- The call of `Allocate` that is under way. -/
def Call.request : Call → Option Request
  | .reserving r => some r
  | .claimed r _ _ _ => some r
  | .checked r _ => some r
  | _ => none

/-- The destination that a call is about to claim. -/
def Call.destination : Call → Option Destination
  | .looked d _ => some d
  | .created d _ _ => some d
  | _ => none

section Inv

variable {J : Type} {E} {w w' : Allocations J}

/-- The address of the lease is claimed for its owner. -/
def Allocations.Backed (E : Externals) (w : Allocations J) (l : AddressLease) : Prop :=
  ∃ version, w.claims.lookup (claimName E l.clusterAddress) = some ⟨l.owner, l.clusterAddress, version⟩

/-- What was claimed and leased is so later on. -/
structure Allocations.Keeps (w w' : Allocations J) : Prop where
  claims : ∀ name c, w.claims.lookup name = some c → w'.claims.lookup name = some c
  leases : ∀ name l, w.leases.lookup name = some l → w'.leases.lookup name = some l

theorem Allocations.Keeps.of_eq (hclaims : w'.claims = w.claims) (hleases : w'.leases = w.leases) :
    w.Keeps w' := ⟨fun _ _ h => hclaims ▸ h, fun _ _ h => hleases ▸ h⟩

theorem Allocations.Keeps.backed (h : w.Keeps w') {l : AddressLease} (hl : w.Backed E l) :
    w'.Backed E l := by
  obtain ⟨version, hversion⟩ := hl
  exact ⟨version, h.claims _ _ hversion⟩

/-- What holds of the objects if all allocators have the same pools. -/
structure Allocations.Inv (E : Externals) (a : Allocator) (w : Allocations J) : Prop where
  allocator : ∀ j r, (w.calls j).request = some r → r.allocator = a
  outside : ∀ name d, w.destinations.lookup name = some d → OutsidePools a d.destination.address
  wanted : ∀ j d, (w.calls j).destination = some d → OutsidePools a d.address
  claimed : ∀ j l, (w.calls j).lease = some l → InPool a l.clusterAddress ∧ w.Backed E l
  clear : ∀ j r l v, w.calls j ≠ .claimed r l v true
  leased : ∀ name l, w.leases.lookup name = some l →
    name = leaseName E l.owner ∧ InPool a l.clusterAddress ∧ w.Backed E l

theorem Allocations.Inv.of_fresh {a : Allocator} (h : w.Fresh) : w.Inv E a := by
  obtain ⟨claims, leases, destinations, calls, clock, held⟩ := w
  obtain ⟨rfl, rfl, rfl, -, hidle⟩ := h
  obtain rfl : calls = fun _ => .idle := funext hidle
  exact ⟨nofun, nofun, nofun, nofun, nofun, nofun⟩

/-- No destination has an address of the pools. -/
theorem Allocations.Inv.not_destinationClaimed {a : Allocator} (h : w.Inv E a) {address : GoString}
    (hin : InPool a address) : w.destinationClaimed address = false := by
  rw [← Bool.not_eq_true]
  intro hclaimed
  obtain ⟨d, hd, haddress⟩ := List.any_eq_true.mp hclaimed
  have hout := h.outside d.1 d.2 (AList.mem_lookup_iff.mpr hd)
  rw [of_decide_eq_true (Bool.and_eq_true_iff.mp haddress).2] at hout
  exact hout.not_inPool hin

variable [DecidableEq J] {a : Allocator} {access : GoString → Prop} {e : AllocEvent}

/-- **Nothing is taken back** while all allocators have the same pools. -/
theorem AllocStep.keeps (h : w.Inv E a) (hstep : AllocStep E (· = a) access w e w') : w.Keeps w' := by
  cases hstep with
  | claim j r salt hcall hfree =>
    exact ⟨fun name c hc => lookup_insert_of_free hfree hc, fun _ _ hl => hl⟩
  | lease j r lease hcall hfree =>
    exact ⟨fun _ _ hc => hc, fun name l hl => lookup_insert_of_free hfree hl⟩
  | discard j r lease stored hcall hstored => exact absurd hcall (h.clear j r lease stored.version)
  -- the other steps write no regional claim and no lease
  | _ => exact .of_eq rfl rfl

/-- A property of all calls, after one of them has moved on. -/
theorem forall_update {P : Call → Prop} {calls : J → Call} {j : J} {next : Call}
    (h : ∀ i, P (calls i)) (hnext : P next) (i : J) : P (Function.update calls j next i) := by
  by_cases hi : i = j
  · subst hi
    rwa [Function.update_self]
  · rw [Function.update_of_ne hi]
    exact h i

/-- What a call of the system is about. -/
structure CallInv (E : Externals) (a : Allocator) (w : Allocations J) (c : Call) : Prop where
  allocator : ∀ r, c.request = some r → r.allocator = a
  wanted : ∀ d, c.destination = some d → OutsidePools a d.address
  claimed : ∀ l, c.lease = some l → InPool a l.clusterAddress ∧ w.Backed E l
  clear : ∀ r l v, c ≠ .claimed r l v true

omit [DecidableEq J] in
theorem Allocations.Inv.call (h : w.Inv E a) (hkeeps : w.Keeps w') (j : J) :
    CallInv E a w' (w.calls j) :=
  ⟨h.allocator j, h.wanted j, fun l hl => (h.claimed j l hl).imp_right hkeeps.backed, h.clear j⟩

omit [DecidableEq J] in
theorem CallInv.idle : CallInv E a w .idle := ⟨nofun, nofun, nofun, nofun⟩

theorem Allocations.Inv.next {j : J} {next : Call} (h : w.Inv E a) (hkeeps : w.Keeps w')
    (hcalls : w'.calls = Function.update w.calls j next) (hnext : CallInv E a w' next)
    (hleases : ∀ name l, w'.leases.lookup name = some l →
      w.leases.lookup name = some l ∨ name = leaseName E l.owner ∧ (w.calls j).lease = some l)
    (hdestinations : ∀ name d, w'.destinations.lookup name = some d →
      w.destinations.lookup name = some d ∨ (w.calls j).destination = some d.destination) :
    w'.Inv E a := by
  have hall : ∀ i, CallInv E a w' (w'.calls i) := by
    rw [hcalls]
    exact forall_update (h.call hkeeps) hnext
  refine ⟨fun i => (hall i).allocator, fun name d hd => ?_, fun i => (hall i).wanted,
    fun i => (hall i).claimed, fun i => (hall i).clear, fun name l hl => ?_⟩
  · rcases hdestinations name d hd with hd | hd
    · exact h.outside name d hd
    · exact h.wanted j _ hd
  · rcases hleases name l hl with hl | ⟨hname, hl⟩
    · obtain ⟨hname, hin, hbacked⟩ := h.leased name l hl
      exact ⟨hname, hin, hkeeps.backed hbacked⟩
    · obtain ⟨hin, hbacked⟩ := h.claimed j l hl
      exact ⟨hname, hin, hkeeps.backed hbacked⟩

theorem AllocStep.inv (h : w.Inv E a) (hstep : AllocStep E (· = a) access w e w') : w'.Inv E a := by
  have hkeeps := hstep.keeps h
  have hsame : ∀ {m m' : GoMap GoString AddressLease} {j : J}, m' = m → ∀ name l,
      m'.lookup name = some l →
      m.lookup name = some l ∨ name = leaseName E l.owner ∧ (w.calls j).lease = some l := by
    rintro m _ j rfl name l hl
    exact .inl hl
  cases hstep with
  | reserve j r hallocator hidle hnone =>
    refine h.next hkeeps rfl ⟨?_, nofun, nofun, nofun⟩ (hsame rfl) fun _ _ hd => .inl hd
    rintro _ ⟨⟩
    exact hallocator
  | claim j r salt hcall hfree =>
    have hr := h.allocator j r (by rw [hcall]; rfl)
    refine h.next hkeeps rfl ⟨?_, nofun, ?_, nofun⟩ (hsame rfl) fun _ _ hd => .inl hd
    · rintro _ ⟨⟩
      exact hr
    · rintro _ ⟨⟩
      exact ⟨inPool_addressInPrefix E (hr ▸ r.allocator.prefixFor_mem_pools r.region) _ _, w.clock,
        AList.lookup_insert _⟩
  | own j r salt version hcall hown =>
    have hr := h.allocator j r (by rw [hcall]; rfl)
    refine h.next hkeeps rfl ⟨?_, nofun, ?_, nofun⟩ (hsame rfl) fun _ _ hd => .inl hd
    · rintro _ ⟨⟩
      exact hr
    · rintro _ ⟨⟩
      exact ⟨inPool_addressInPrefix E (hr ▸ r.allocator.prefixFor_mem_pools r.region) _ _, version, hown⟩
  | check j r lease version hcall hclear =>
    refine h.next hkeeps rfl ⟨?_, nofun, ?_, nofun⟩ (hsame rfl) fun _ _ hd => .inl hd
    · rintro _ ⟨⟩
      exact h.allocator j r (by rw [hcall]; rfl)
    · rintro _ ⟨⟩
      exact h.claimed j lease (by rw [hcall]; rfl)
  | taken j r lease version hcall htaken =>
    have hin := (h.claimed j lease (by rw [hcall]; rfl)).1
    rw [h.not_destinationClaimed hin] at htaken
    cases htaken
  | discard j r lease stored hcall hstored => exact absurd hcall (h.clear j r lease stored.version)
  | lease j r lease hcall hfree =>
    exact h.next hkeeps rfl .idle (forall_insert (fun _ _ => .inl)
      (.inr ⟨rfl, by rw [hcall]; rfl⟩)) fun _ _ => .inl
  | look j b project context region raw address hallocator hidle huid haddress hnone =>
    refine h.next hkeeps rfl ⟨nofun, ?_, nofun, nofun⟩ (hsame rfl) fun _ _ hd => .inl hd
    rintro _ ⟨⟩
    exact hallocator ▸ Allocator.outsidePools_destinationAddress haddress
  | create j d label hcall hfree =>
    refine h.next hkeeps rfl ⟨nofun, ?_, nofun, nofun⟩ (hsame rfl)
      (forall_insert (fun _ _ => .inl) (.inr (by rw [hcall]; rfl)))
    rintro _ ⟨⟩
    exact h.wanted j d (by rw [hcall]; rfl)
  | found j d label stored hcall hstored hdest hlabel =>
    exact h.next hkeeps rfl .idle (hsame rfl) fun _ _ hd => .inl hd
  | relabel j d label stored hcall hstored hdest hlabel =>
    exact h.next hkeeps rfl .idle (hsame rfl)
      (forall_insert (fun _ _ => .inl) (.inr (by rw [hcall]; rfl)))
  | adopt j d label project uid stored hcall huid hstored hdest =>
    exact h.next hkeeps rfl .idle (hsame rfl)
      (forall_insert (fun _ _ => .inl) (.inr (by rw [hcall]; rfl)))
  | confirm j d version hcall hnone =>
    exact h.next hkeeps rfl .idle (hsame rfl) fun _ _ hd => .inl hd
  | refuse j d version regional hcall hregional =>
    refine h.next hkeeps rfl ⟨nofun, ?_, nofun, nofun⟩ (hsame rfl) fun _ _ hd => .inl hd
    rintro _ ⟨⟩
    exact h.wanted j d (by rw [hcall]; rfl)
  | rollback j d stored hcall hstored =>
    exact h.next hkeeps rfl .idle (hsame rfl) fun _ _ hx => .inl (of_lookup_erase hx).2
  | stop j => exact h.next hkeeps rfl .idle (hsame rfl) fun _ _ hd => .inl hd

omit [DecidableEq J] in
/-- Two leases whose addresses are claimed for them have the same address exactly if they have the
same owner. -/
theorem lease_unique (hnames : ∀ name l, w.leases.lookup name = some l →
      name = leaseName E l.owner ∧ w.Backed E l) {name name' : GoString} {l l' : AddressLease}
    (hl : w.leases.lookup name = some l) (hl' : w.leases.lookup name' = some l') :
    l.clusterAddress = l'.clusterAddress ↔ l.owner = l'.owner := by
  obtain ⟨rfl, version, hclaim⟩ := hnames name l hl
  obtain ⟨rfl, version', hclaim'⟩ := hnames name' l' hl'
  constructor
  · intro heq
    rw [heq, hclaim'] at hclaim
    exact (congrArg RegionalClaim.owner (Option.some.inj hclaim)).symm
  · intro heq
    rw [heq, hl'] at hl
    exact (congrArg AddressLease.clusterAddress (Option.some.inj hl)).symm

end Inv

end InternalDNS.Platform
