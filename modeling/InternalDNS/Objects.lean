import InternalDNS.Externals
import InternalDNS.GoJSON

/-! # The objects a private zone is compiled from

What the control plane reads of the API objects that tenants and services create: the zone, the
static record sets of its owner, the registrations through which services own names in it, and the
contributions that put records at these names.  Fields that the compiler does not read are left out.
Of a record entry's value only its presentation form is kept, one for every record type, and the
target of its SRV value.
-/
namespace InternalDNS

open Go

/-- `v1alpha1.RRType`. -/
inductive RRType where
  | A | AAAA | ALIAS | CNAME | TXT | MX | SRV | CAA | NS | SOA | PTR | TLSA | HTTPS | SVCB
  deriving DecidableEq

/-- The text of a record type. -/
def RRType.text : RRType → GoString
  | A => lit "A"
  | AAAA => lit "AAAA"
  | ALIAS => lit "ALIAS"
  | CNAME => lit "CNAME"
  | TXT => lit "TXT"
  | MX => lit "MX"
  | SRV => lit "SRV"
  | CAA => lit "CAA"
  | NS => lit "NS"
  | SOA => lit "SOA"
  | PTR => lit "PTR"
  | TLSA => lit "TLSA"
  | HTTPS => lit "HTTPS"
  | SVCB => lit "SVCB"

theorem RRType.text_injective : Function.Injective RRType.text := by
  intro a b h
  cases a <;> cases b <;> first | rfl | exact absurd h (by decide)

/-- `v1alpha1.RecordEntry`. -/
structure RecordEntry where
  name : GoString
  ttl : Option Int
  /-- `rdata.Render` of the entry: empty for a type whose value is not set. -/
  render : RRType → GoString
  /-- The target of the SRV value, if there is one. -/
  srvTarget : Option GoString
  /-- The JSON text of the values. -/
  values : GoString

/-- The JSON text of a record entry. -/
def RecordEntry.marshal (e : RecordEntry) : GoString :=
  lit "\x7b\"name\":" ++ jsonString e.name ++
    e.ttl.elim [] (fun ttl => lit ",\"ttl\":" ++ (if ttl < 0 then ['-'] else []) ++ itoa ttl.natAbs) ++
    e.values ++ lit "\x7d"

/-- `controlplane.recordContent`. -/
def recordContent (rt : RRType) (e : RecordEntry) : Except GoString GoString := do
  failIf (e.render rt = [])
    (lit "record " ++ quoted e.name ++ lit " has no value matching type " ++ rt.text)
  .ok (e.render rt)

/-- `v1alpha1.DNSObjectReference`. -/
structure ObjectReference where
  name : GoString
  uid : GoString
  generation : Nat

/-- `controlplane.refMatches`. -/
def refMatches (ref : ObjectReference) (name uid : GoString) (generation : Nat) : Bool :=
  ref.name = name && (ref.uid ≠ [] && ref.uid = uid) &&
    (ref.generation = 0 || ref.generation = generation)

/-- `metav1.OwnerReference` of a controller. -/
structure OwnerReference where
  kind : GoString
  apiVersion : GoString
  uid : GoString

/-- `v1alpha1.DNSZone`.  The API admits only domain names of the form in `domain`. -/
structure DNSZone where
  name : GoString
  uid : GoString
  generation : Nat
  isPrivate : Bool
  controller : Option OwnerReference
  domainName : GoString
  domain : isPlain domainName = true

/-- `v1alpha1.DNSRegistration`. -/
structure DNSRegistration where
  name : GoString
  uid : GoString
  generation : Nat
  creationTimestamp : Time
  deleted : Bool
  zoneRef : GoString
  /-- The owner name, relative to the zone or fully qualified. -/
  owner : GoString
  recordTypes : List RRType
  ttlSeconds : Int
  reservedDescendants : List GoString

/-- `v1alpha1.DNSContributionRecordSet`. -/
structure DNSContributionRecordSet where
  recordType : RRType
  records : List RecordEntry

/-- `v1alpha1.DNSRecordContribution`. -/
structure DNSRecordContribution where
  name : GoString
  uid : GoString
  generation : Nat
  deleted : Bool
  registrationRef : ObjectReference
  recordSets : List DNSContributionRecordSet
  eligible : Bool

/-- `v1alpha1.DNSRecordSet`. -/
structure DNSRecordSet where
  uid : GoString
  creationTimestamp : Time
  deleted : Bool
  zoneRef : GoString
  recordType : RRType
  records : List RecordEntry

/-- `model.ManagedZoneName`. -/
def managedZoneName (E : Externals) (contextUID : GoString) : GoString :=
  lit "managed-" ++ (E.opaqueToken contextUID).take 12

/-- `model.IsManagedZone`. -/
def isManagedZone (E : Externals) (zone : DNSZone) : Bool :=
  zone.controller.any fun owner => owner.kind = lit "DNSResolverContext" &&
    hasPrefix owner.apiVersion (lit "dns.networking.miloapis.com/") &&
    zone.name = managedZoneName E owner.uid

end InternalDNS
