import InternalDNS.PublicationPlan
import InternalDNS.ReservedScopes

/-! # The zone compiler

`compile` turns the objects of a private zone into its publication.  Names are claimed in turn: first
by the static record sets, oldest first, then by the registrations, oldest first; a claim that
conflicts with an earlier one is refused with its object.  Contributions may then publish at the
names that their registration covers.  An SRV record whose target has no address in the plan has its
source rejected, and the zone is compiled again without it.

Associations only decide which resolver contexts a plan names; the wire contract does not carry
these, and they are left out.
-/
namespace InternalDNS.Controlplane

open Go

/-! ## Data -/

/-- `controlplane.ownershipKey`. -/
structure OwnershipKey where
  name : GoString
  rrtype : RRType
  deriving DecidableEq

/-- `controlplane.PublicationOwner`. -/
structure PublicationOwner where
  name : GoString
  recordTypes : List RRType
  registrationUID : GoString
  staticRecordUID : GoString

/-- `controlplane.PublicationRRSet`. -/
structure PublicationRRSet where
  name : GoString
  recordType : RRType
  ttlSeconds : Int
  records : List RecordEntry
  contributionUIDs : List GoString

/-- `controlplane.ContributionFence`. -/
structure ContributionFence where
  uid : GoString
  generation : Nat
  sequence : Nat
  retired : Bool
  sourceName : GoString

/-- `controlplane.PublicationPlan`. -/
structure PublicationPlan where
  zoneUID : GoString
  zoneApex : GoString
  owners : List PublicationOwner
  rrsets : List PublicationRRSet
  contributions : List ContributionFence
  registrations : List RegistrationFence

/-- `controlplane.CompileInput`. -/
structure CompileInput where
  zone : DNSZone
  registrationZoneReferences : GoMap GoString ObjectReference
  registrations : List DNSRegistration
  contributions : List DNSRecordContribution
  staticRecords : List DNSRecordSet
  previous : Option PublicationPlan

/-- `controlplane.CompileResult`. -/
structure CompileResult where
  plan : PublicationPlan
  accepted : List GoString
  reasons : GoMap GoString GoString

/-- The objects that own names, by their UIDs. -/
abbrev Claims := GoMap OwnershipKey GoString

variable (E : Externals)

/-! ## Claims -/

variable (input : CompileInput) (rejected : GoMap GoString GoString) (claims : Claims)

/-- `controlplane.conflictingClaim`. -/
def conflictingClaim (key : OwnershipKey) : Option GoString :=
  match claims.lookup key with
  | some uid => some uid
  | none =>
    if key.rrtype = .CNAME then
      E.mapOrder.first ((claims.entries.filter (·.1.name = key.name)).map fun e => e.2)
    else claims.lookup ⟨key.name, .CNAME⟩

/-- The key conflicts with a claim that `uid` does not hold. -/
def claimedByOther (key : OwnershipKey) (uid : GoString) : Bool :=
  (conflictingClaim E claims key).any (· ≠ uid)

/-- `uid` claims the keys. -/
def claimAll (uid : GoString) (keys : List OwnershipKey) (claims : Claims) : Claims :=
  keys.foldl (fun claims key => claims.insert key uid) claims

/-- The reason an object was refused with, empty if it was not. -/
def reasonOf (reasons : GoMap GoString GoString) (uid : GoString) : GoString :=
  (reasons.lookup uid).getD []

/-- The key of a record entry. -/
def keyOf (apex : GoString) (rt : RRType) (record : RecordEntry) : OwnershipKey :=
  ⟨zoneOwner E.cases record.name apex, rt⟩

/-- The order of the claims: by age, then by UID. -/
def older {α : Type} (created : α → Time) (uid : α → GoString) (a b : α) : Bool :=
  created a < created b || (created a = created b && uid a ≤ uid b)

/-- The scopes that are enforced in the zone. -/
def CompileInput.scopes : List ReservedScope :=
  if isManagedZone E input.zone then
    registrationScopes E input.zone.name input.zone.domainName input.registrations
  else []

/-- The apex of the plan. -/
def CompileInput.apex : GoString := canonicalName E.cases input.zone.domainName

/-! ## Static record sets -/

/-- What `collectStaticClaims` has collected. -/
structure StaticClaims where
  claims : Claims
  staticClaim : Claims
  reasons : GoMap GoString GoString
  valid : List GoString
  ttls : GoMap OwnershipKey Int

/-- One record of a static set; `pending` are the keys of the records before it. -/
def staticRecord (rs : DNSRecordSet) (pending : GoMap OwnershipKey Int) (record : RecordEntry) :
    Except GoString (GoMap OwnershipKey Int) := do
  let key := keyOf E (input.apex E) rs.recordType record
  let ttl := record.ttl.getD 300
  failIf (validatePrivateRecordOwner E key.name (input.apex E) key.rrtype.text ≠ .ok ())
    (lit "UnsupportedPrivateRecord")
  failIf (scopesMatch E (input.scopes E) record.name input.zone.domainName) (lit "ReservedScope")
  failIf (record.render rs.recordType = []) (lit "InvalidRecord")
  failIf (ttl < 0 ∨ ttl > 2147483647) (lit "InvalidTTL")
  failIf ((pending.lookup key).any (· ≠ ttl)) (lit "ConflictingTTL")
  failIf (claimedByOther E claims key rs.uid) (lit "NameConflict")
  .ok (pending.insert key ttl)

/-- One static set. -/
def collectStaticClaim (st : StaticClaims) (rs : DNSRecordSet) : StaticClaims :=
  if rs.zoneRef ≠ input.zone.name ∨ rs.deleted ∨ reasonOf st.reasons rs.uid ≠ [] then st
  else
    match loop (staticRecord E input st.claims rs) ∅ rs.records with
    | .error reason => { st with reasons := st.reasons.insert rs.uid reason }
    | .ok pending =>
      { st with
        claims := claimAll rs.uid pending.keys st.claims
        staticClaim := claimAll rs.uid pending.keys st.staticClaim
        valid := rs.uid :: st.valid
        ttls := GoMap.insertAll pending st.ttls }

/-- `controlplane.collectStaticClaims`. -/
def collectStaticClaims (reasons : GoMap GoString GoString) : StaticClaims :=
  (input.staticRecords.insertionSort fun a b =>
      older DNSRecordSet.creationTimestamp DNSRecordSet.uid a b).foldl
    (collectStaticClaim E input) ⟨∅, ∅, reasons, [], ∅⟩

/-! ## Registrations -/

/-- What the loop over the registrations has collected. -/
structure Registered where
  claims : Claims
  reasons : GoMap GoString GoString
  regs : GoMap GoString DNSRegistration
  fences : List RegistrationFence

/-- `controlplane.uniqueTypes`. -/
def uniqueTypes (types : List RRType) : List RRType :=
  types.dedup.insertionSort fun a b => a.text ≤ b.text

/-- `v1alpha1.DNSRegistrationMaxTTLSeconds`. -/
def registrationMaxTTLSeconds : Int := 30

/-- The checks of a registration: the reason it is refused for, or whether it is one of the zone. -/
def checkRegistration (reg : DNSRegistration) :
    Except GoString Bool :=
  if reg.deleted then .error (lit "Terminating")
  else if reg.ttlSeconds < 1 ∨ reg.ttlSeconds > registrationMaxTTLSeconds then
    .error (lit "InvalidTTL")
  else if reg.zoneRef ≠ input.zone.name then .ok false
  else do
    let apex := input.apex E
    let name := zoneOwner E.cases reg.owner apex
    failIf (reg.uid = []) (lit "MissingUID")
    failIf (¬ (input.registrationZoneReferences.lookup reg.uid).any fun ref =>
      refMatches ref input.zone.name input.zone.uid input.zone.generation) (lit "InvalidReference")
    failIf (¬ scopesOwner E (input.scopes E) reg apex) (lit "ReservedScope")
    failIf (isManagedZone E input.zone ∧ ¬ validateReservation E reg apex) (lit "InvalidReservation")
    failIf (∃ rt ∈ reg.recordTypes, validatePrivateRecordOwner E name apex rt.text ≠ .ok ())
      (lit "UnsupportedPrivateRecord")
    failIf (∃ rt ∈ uniqueTypes reg.recordTypes, claimedByOther E claims ⟨name, rt⟩ reg.uid)
      (lit "NameConflict")
    .ok true

/-- One registration. -/
def register (st : Registered) (reg : DNSRegistration) : Registered :=
  match checkRegistration E input st.claims reg with
  | .error reason => { st with reasons := st.reasons.insert reg.uid reason }
  | .ok false => st
  | .ok true =>
    if reasonOf st.reasons reg.uid ≠ [] then st
    else
      let keys := (uniqueTypes reg.recordTypes).map fun rt =>
        (⟨zoneOwner E.cases reg.owner (input.apex E), rt⟩ : OwnershipKey)
      { st with
        claims := claimAll reg.uid keys st.claims
        regs := st.regs.insert reg.uid reg
        fences := st.fences ++ [⟨reg.uid, reg.generation⟩] }

/-- The loop over the registrations. -/
def registerAll (statics : StaticClaims) : Registered :=
  (input.registrations.insertionSort fun a b =>
      older DNSRegistration.creationTimestamp DNSRegistration.uid a b).foldl
    (register E input) ⟨statics.claims, statics.reasons, ∅, []⟩

/-- The owners of a plan: every claimed key, sorted. -/
def planOwners (staticClaim : Claims) : List PublicationOwner :=
  (claims.entries.insertionSort fun a b => a.1.name < b.1.name ∨
      (a.1.name = b.1.name ∧ a.1.rrtype.text ≤ b.1.rrtype.text)).map fun e =>
    match staticClaim.lookup e.1 with
    | some uid => ⟨e.1.name, [e.1.rrtype], [], uid⟩
    | none => ⟨e.1.name, [e.1.rrtype], e.2, []⟩

/-! ## Contributions -/

section

variable (reg : DNSRegistration) (c : DNSRecordContribution)

/-- `controlplane.registrationOwns`. -/
def registrationOwns (key : OwnershipKey) (apex : GoString) (claims : Claims) : Bool :=
  !claimedByOther E claims key reg.uid &&
    (key.name = zoneOwner E.cases reg.owner apex || reg.reservedDescendants.any fun scope =>
      decide (DNS.AtOrBelow key.name (zoneOwner E.cases scope apex)))

/-- `controlplane.recordAllowed`. -/
def recordAllowed (key : OwnershipKey) (apex : GoString) : Bool :=
  reg.recordTypes.contains key.rrtype &&
    (key.name = zoneOwner E.cases reg.owner apex || reg.reservedDescendants.any fun scope =>
      decide (DNS.AtOrBelow key.name (zoneOwner E.cases scope apex)))

/-- `controlplane.validateContribution`: the reason to refuse it, empty if there is none. -/
def validateContribution (reg : Option DNSRegistration) (previous : Option ContributionFence) :
    GoString :=
  if ¬ reg.any fun reg => c.registrationRef.name = reg.name &&
      c.registrationRef.generation = reg.generation then lit "StaleRegistrationGeneration"
  else if previous.any ContributionFence.retired then lit "RetiredContribution"
  else if c.generation < 1 then lit "InvalidContributionGeneration"
  else if previous.any fun f => f.uid ≠ [] && c.generation < f.generation then
    lit "StaleContributionGeneration"
  else []

/-- The record may be published by the registration. -/
def recordValid (rt : RRType) (record : RecordEntry) : Bool :=
  let key := keyOf E (input.apex E) rt record
  validatePrivateRecordOwner E key.name (input.apex E) rt.text = .ok () &&
    registrationOwns E reg key (input.apex E) claims && recordAllowed E reg key (input.apex E) &&
    record.render rt ≠ []

/-- All records of the contribution may be published. -/
def validBundle : Bool :=
  c.recordSets.all fun set => set.records ≠ [] && reg.recordTypes.contains set.recordType &&
    set.records.all (recordValid E input claims reg set.recordType)

/-- What the loop over the contributions has collected. -/
structure Contributed where
  reasons : GoMap GoString GoString
  fences : GoMap GoString ContributionFence
  accepted : List (DNSRecordContribution × DNSRegistration)

/-- The fences of the previous plan by UID. -/
def previousFences : GoMap GoString ContributionFence :=
  (input.previous.elim [] PublicationPlan.contributions).foldl (fun m f => m.insert f.uid f) ∅

/-- The fence that a contribution has now. -/
def currentFence : ContributionFence :=
  ⟨c.uid, c.generation, c.generation, c.deleted, c.name⟩

end

/-- The fences after a contribution that is not refused: they only move forward. -/
def moveFence (previous : Option ContributionFence) (c : DNSRecordContribution)
    (fences : GoMap GoString ContributionFence) : GoMap GoString ContributionFence :=
  if (previous.any fun f => f.uid ≠ [] && c.generation ≤ f.generation) ∧ ¬ c.deleted then fences
  else fences.insert c.uid (currentFence c)

/-- One contribution. -/
def contribute (registered : Registered) (st : Contributed) (c : DNSRecordContribution) :
    Contributed :=
  let reg := registered.regs.lookup c.registrationRef.uid
  let previous := (previousFences input).lookup c.uid
  let refuse := fun (st : Contributed) (reason : GoString) =>
    { st with reasons := st.reasons.insert c.uid reason }
  match reg, validateContribution c reg previous with
  | some reg, [] =>
    let st := { st with fences := moveFence previous c st.fences }
    if reasonOf rejected c.uid ≠ [] then st
    else if c.deleted then refuse st (lit "Terminating")
    else if ¬ c.eligible then refuse st (lit "Ineligible")
    else if ¬ validBundle E input registered.claims reg c then
      refuse st (lit "NameOrTypeOutsideRegistration")
    else { st with accepted := st.accepted ++ [(c, reg)] }
  | _, reason => refuse st reason

/-- The fences to start with: those of the previous plan, retired if the contribution is gone. -/
def carriedFences : GoMap GoString ContributionFence :=
  (previousFences input).mapValues fun f =>
    if input.contributions.any (·.uid = f.uid) then f else { f with retired := true }

/-- The loop over the contributions. -/
def contributeAll (registered : Registered) : Contributed :=
  input.contributions.foldl (contribute E input rejected registered)
    ⟨registered.reasons, carriedFences input, []⟩

/-! ## The plan -/

/-- A record that is published, with the contribution it comes from. -/
structure Entry where
  key : OwnershipKey
  ttl : Int
  record : RecordEntry
  uid : Option GoString

/-- The entries of an accepted contribution. -/
def contributionEntries (apex : GoString) (c : DNSRecordContribution) (reg : DNSRegistration) :
    List Entry :=
  c.recordSets.flatMap fun set => set.records.map fun record =>
    let key := keyOf E apex set.recordType record
    ⟨key, reg.ttlSeconds, { record with name := key.name }, some c.uid⟩

/-- The entries of a static set. -/
def staticEntries (apex : GoString) (ttls : GoMap OwnershipKey Int) (rs : DNSRecordSet) : List Entry :=
  rs.records.map fun record =>
    let key := keyOf E apex rs.recordType record
    ⟨key, (ttls.lookup key).getD 0, { record with name := key.name }, none⟩

/-- `controlplane.sortAggregate`: with their contributions if all records have one. -/
def sortAggregate (records : List RecordEntry) (uids : List GoString) :
    List RecordEntry × List GoString :=
  if uids.length ≠ records.length then
    (records.insertionSort fun a b => a.marshal ≤ b.marshal, uids)
  else
    let pairs := (records.zip uids).insertionSort fun a b =>
      a.1.marshal ++ '\x00' :: a.2 ≤ b.1.marshal ++ '\x00' :: b.2
    (pairs.map Prod.fst, pairs.map Prod.snd)

/-- The RRset of the entries with one key.  The first of them decides the TTL. -/
def publicationRRSet (key : OwnershipKey) (entries : List Entry) : PublicationRRSet :=
  let sorted := sortAggregate (entries.map Entry.record) (entries.filterMap Entry.uid)
  ⟨key.name, key.rrtype, (entries.head?.map Entry.ttl).getD 0, sorted.1, sorted.2⟩

/-- The RRsets of the entries, sorted. -/
def planRRSets (entries : List Entry) : List PublicationRRSet :=
  ((GoMap.group Entry.key entries).entries.map fun e => publicationRRSet e.1 e.2).insertionSort
    fun a b => a.name < b.name ∨ (a.name = b.name ∧ a.recordType.text ≤ b.recordType.text)

/-- All entries that are published. -/
def publishedEntries (statics : StaticClaims) (contributed : Contributed) :
    List Entry :=
  contributed.accepted.flatMap (fun a => contributionEntries E (input.apex E) a.1 a.2) ++
    (input.staticRecords.filter fun rs => rs.zoneRef = input.zone.name ∧ rs.uid ∈ statics.valid).flatMap
      (staticEntries E (input.apex E) statics.ttls)

/-- `controlplane.validatePrivateZone`. -/
def validatePrivateZone (zone : DNSZone) : Except GoString Unit := do
  failIf (zone.uid = []) (lit "zone and API-assigned UID are required")
  failIf (¬ zone.isPrivate) (lit "zone " ++ zone.name ++ lit " is not private")

/-- The plan without its zone check. -/
def compilePlan : CompileResult :=
  let statics := collectStaticClaims E input rejected
  let registered := registerAll E input statics
  let contributed := contributeAll E input rejected registered
  { plan :=
      { zoneUID := input.zone.uid
        zoneApex := input.apex E
        owners := planOwners registered.claims statics.staticClaim
        rrsets := planRRSets (publishedEntries E input statics contributed)
        contributions := (contributed.fences.entries.map fun e => e.2).insertionSort
          fun a b => a.uid ≤ b.uid
        registrations := registered.fences.insertionSort fun a b => a.uid ≤ b.uid }
    accepted := statics.valid ++ registered.fences.map RegistrationFence.uid ++
      contributed.accepted.map fun a => a.1.uid
    reasons := contributed.reasons }

/-- `controlplane.compileInputs`. -/
def compileInputs :
    Except GoString CompileResult := do
  validatePrivateZone input.zone
  .ok (compilePlan E input rejected)

/-! ## The loop -/

/-- The sources of an SRV record without addresses for its target. -/
def srvSources (plan : PublicationPlan) (set : PublicationRRSet) (i : Nat) : List GoString :=
  match set.contributionUIDs[i]? with
  | some uid => [uid]
  | none => (plan.owners.filter fun owner => owner.name = set.name ∧ owner.staticRecordUID ≠ []).map
      PublicationOwner.staticRecordUID

/-- `controlplane.invalidSRVSources`. -/
def invalidSRVSources (plan : PublicationPlan) : List GoString :=
  let addresses := (plan.rrsets.filter fun set => set.recordType = .A ∨ set.recordType = .AAAA).map
    fun set => absoluteOwner E.cases set.name plan.zoneApex
  (plan.rrsets.filter fun set => set.recordType = .SRV).flatMap fun set =>
    set.records.zipIdx.flatMap fun (entry, i) =>
      match entry.srvTarget with
      | none => []
      | some target =>
        if srvTargetOwner E.cases target plan.zoneApex ∈ addresses then [] else srvSources plan set i

/-- The loop of `controlplane.Compile`, or `none` if it takes more than `fuel` rounds. -/
def compileLoop (input : CompileInput) :
    (fuel : Nat) → (rejected : GoMap GoString GoString) → Option (Except GoString CompileResult)
  | 0, _ => none
  | fuel + 1, rejected =>
    match compileInputs E input rejected with
    | .error e => some (.error e)
    | .ok result =>
      let invalid := invalidSRVSources E result.plan
      if invalid = [] then some (.ok result)
      else compileLoop input fuel
        (invalid.foldl (fun m uid => m.insert uid (lit "MissingSRVTargetAddress")) rejected)

/-- `controlplane.Compile`; it ends after at most one more round than there are contributions and
static sets. -/
def compile : Option (Except GoString CompileResult) :=
  compileLoop E input (input.contributions.length + input.staticRecords.length + 1) ∅

end InternalDNS.Controlplane
