import InternalDNS.PublicationPlan

/-! # Zone files

The text that a member serves a zone from.  It starts with an SOA whose mailbox and serial
are derived from the publication, so that a query can prove which publication is loaded;
the eligible records of the plan follow, and then a marker at every owned name that has no
record of its own.

`renderZone_eq_ok` says what the text is: rendering cannot fail on a valid plan, although
the code tests each record again.
-/
namespace InternalDNS

open Go

/-- `serving.fence`. -/
structure Fence where
  epoch : Nat
  revision : Nat
  deriving DecidableEq

/-- `serving.publicationState`: the publication of a zone that an agent holds. -/
structure PublicationState where
  fence : Fence
  manifest : PublicationManifest
  plan : PublicationPlan
  localRevision : Nat
  effectiveHash : GoString
  verified : Bool
  withdrawnAt : Time
  retired : Bool
  deriving DecidableEq

/-- The records that are served, each with its RRset. -/
def PublicationPlan.eligibleRecords (plan : PublicationPlan) : List (RRSet × RRRecord) :=
  plan.rrsets.flatMap fun rr => (rr.records.filter (·.eligible)).map fun record => (rr, record)

variable (E : Externals)

/-- `serving.effectivePlanHash`. -/
def effectivePlanHash (plan : PublicationPlan) : GoString :=
  let values := plan.eligibleRecords.map fun (rr, record) =>
    absoluteName E.cases rr.name ++ ['\x00'] ++ toUpper E.cases rr.type ++ ['\x00'] ++ record.content
  E.hash (List.intercalate ['\n'] (values.insertionSort (· ≤ ·)))

variable (p : PublicationState)

/-- `serving.publicationFingerprint`. -/
def publicationFingerprint : GoString :=
  E.hash (itoa p.fence.epoch ++ ['/'] ++ itoa p.fence.revision ++ ['/'] ++ itoa p.localRevision ++
    ['/'] ++ E.hash (E.planJSON p.plan) ++ ['/'] ++ effectivePlanHash E p.plan)

/-- The value of hexadecimal text, 0 if it is none. -/
def parseHex (s : GoString) : Nat := ((s.mapM Addr.hexDigit).map (ofDigits 16)).getD 0

/-- `serving.publicationSerial`. -/
def publicationSerial : Nat :=
  let serial := parseHex ((publicationFingerprint E p).take 8)
  if serial = 0 then 1 else serial

/-- `serving.publicationMailbox`. -/
def publicationMailbox : GoString :=
  let hash := publicationFingerprint E p
  hash.take 32 ++ ['.'] ++ hash.drop 32 ++ lit ".publication.internal."

/-- The origin, the SOA and the NS record. -/
def zoneHeader : GoString :=
  lit "$ORIGIN " ++ absoluteName E.cases p.plan.apex ++
    lit "\n$TTL 5\n@ IN SOA ns1.internal-dns.invalid. " ++ publicationMailbox E p ++ [' '] ++
    itoa (publicationSerial E p) ++ lit " 60 30 3600 5\n@ IN NS ns1.internal-dns.invalid.\n"

/-- The line of a record as the DNS library reads it. -/
def zoneLine (rrset : RRSet) (record : RRRecord) : GoString :=
  recordLine (absoluteName E.cases rrset.name) rrset.ttl (toUpper E.cases rrset.type) record.content

/-- One record; the accumulator is the text so far and the owners that have a record. -/
def renderRecord (rrset : RRSet) (acc : GoString × List GoString) (record : RRRecord) :
    Except GoString (GoString × List GoString) :=
  if record.eligible then do
    let rr ← orError (E.dns.newRR (zoneLine E rrset record)) (lit "invalid zone record")
    .ok (acc.1 ++ rr ++ ['\n'], absoluteName E.cases rrset.name :: acc.2)
  else .ok acc

/-- One RRset. -/
def renderRRSet (acc : GoString × List GoString) (rrset : RRSet) :
    Except GoString (GoString × List GoString) := do
  failIf (equalFold rrset.type (lit "SOA")) (lit "publication SOA is reserved for version proof")
  loop (renderRecord E rrset) acc rrset.records

/-- The private-use record that reserves an owned name without a record. -/
def ownerMarker (ownerHasRecord : List GoString) (owner : GoString) : GoString :=
  if absoluteName E.cases owner ∈ ownerHasRecord then []
  else absoluteName E.cases owner ++ lit " 5 IN " ++ ownershipMarkerType ++ lit " \\# 1 00\n"

/-- `serving.renderZone`. -/
def renderZone : Except GoString GoString := do
  wrap (lit "invalid publication: ") (p.plan.validate E)
  let (out, ownerHasRecord) ← loop (renderRRSet E) (zoneHeader E p, []) p.plan.rrsets
  .ok (out ++ p.plan.owners.flatMap (ownerMarker E ownerHasRecord))

/-! ## What the text is -/

/-- The text of a zone: header, eligible records, markers. -/
def zoneText : GoString :=
  let served := p.plan.eligibleRecords
  zoneHeader E p ++
    served.flatMap (fun (rr, record) => (E.dns.newRR (zoneLine E rr record)).getD [] ++ ['\n']) ++
    p.plan.owners.flatMap
      (ownerMarker E (served.map fun (rr, _) => absoluteName E.cases rr.name).reverse)

section Spec

variable {E}

/-- What one RRset adds to the text and to the owners. -/
def addRecords (E : Externals) (acc : GoString × List GoString)
    (served : List (RRSet × RRRecord)) : GoString × List GoString :=
  (acc.1 ++ served.flatMap
      (fun (rr, record) => (E.dns.newRR (zoneLine E rr record)).getD [] ++ ['\n']),
    (served.map fun (rr, _) => absoluteName E.cases rr.name).reverse ++ acc.2)

theorem addRecords_append (acc : GoString × List GoString) (xs ys : List (RRSet × RRRecord)) :
    addRecords E (addRecords E acc xs) ys = addRecords E acc (xs ++ ys) := by
  simp [addRecords]

theorem renderRecords_eq_ok {rrset : RRSet} {records : List RRRecord}
    (hparses : ∀ rec ∈ records, (E.dns.newRR (zoneLine E rrset rec)).isSome)
    (acc : GoString × List GoString) :
    loop (renderRecord E rrset) acc records =
      .ok (addRecords E acc ((records.filter (·.eligible)).map fun record => (rrset, record))) := by
  induction records generalizing acc with
  | nil => simp [addRecords]
  | cons rec records ih =>
    obtain ⟨hrec, hrest⟩ := List.forall_mem_cons.mp hparses
    rw [loop_cons]
    by_cases helig : rec.eligible
    · obtain ⟨rr, hrr⟩ := Option.isSome_iff_exists.mp hrec
      have hstep : renderRecord E rrset acc rec = .ok (addRecords E acc [(rrset, rec)]) := by
        simp [renderRecord, helig, hrr, orError, addRecords]
      rw [hstep]
      change loop (renderRecord E rrset) (addRecords E acc [(rrset, rec)]) records = _
      rw [ih hrest, addRecords_append]
      simp [helig]
    · have hstep : renderRecord E rrset acc rec = .ok acc := by simp [renderRecord, helig]
      rw [hstep]
      change loop (renderRecord E rrset) acc records = _
      rw [ih hrest]
      simp [helig]

/-- A valid plan has no SOA, and its records parse when they are rendered. -/
theorem renderRRSets_eq_ok {apex : GoString} {os : List ObservationFence} {rrsets : List RRSet}
    (hvalid : ∀ rr ∈ rrsets, rr.Valid E apex os) (acc : GoString × List GoString) :
    loop (renderRRSet E) acc rrsets =
      .ok (addRecords E acc (rrsets.flatMap fun rr =>
        (rr.records.filter (·.eligible)).map fun record => (rr, record))) := by
  induction rrsets generalizing acc with
  | nil => simp [addRecords]
  | cons rr rrsets ih =>
    obtain ⟨hrr, hrest⟩ := List.forall_mem_cons.mp hvalid
    have hsoa : equalFold rr.type (lit "SOA") = false := by
      have howner := hrr.owner
      simp only [validatePrivateRecordOwner, Except.bind_eq_ok, failIf_eq_ok] at howner
      obtain ⟨-, -, -, -, -, hsoa, -⟩ := howner
      rw [Bool.eq_false_iff]
      exact fun h => hsoa (equalFold_toUpper E.cases (by decide) h)
    have hparses : ∀ rec ∈ rr.records, (E.dns.newRR (zoneLine E rr rec)).isSome := by
      intro rec hrec
      simpa [zoneLine, RRSet.owner, RRSet.rrType] using hrr.parses rec hrec
    have hstep : renderRRSet E acc rr = .ok (addRecords E acc
        ((rr.records.filter (·.eligible)).map fun record => (rr, record))) := by
      rw [← renderRecords_eq_ok hparses]
      simp [renderRRSet, failIf, hsoa]
      rfl
    rw [loop_cons, hstep]
    change loop (renderRRSet E) (addRecords E acc _) rrsets = _
    rw [ih hrest, addRecords_append, List.flatMap_cons]

/-- **What is rendered.**  `renderZone` succeeds exactly on valid plans, and prints the text of
the zone. -/
theorem renderZone_eq_ok {p : PublicationState} {text : GoString} :
    renderZone E p = .ok text ↔ p.plan.Valid E ∧ text = zoneText E p := by
  simp only [renderZone, Except.bind_eq_ok, wrap_eq_ok]
  constructor
  · rintro ⟨⟨⟩, hplan, acc, hloop, htext⟩
    have hvalid := PublicationPlan.validate_eq_ok.mp hplan
    rw [renderRRSets_eq_ok hvalid.rrsets] at hloop
    cases hloop
    refine ⟨hvalid, (Except.ok.inj htext).symm.trans ?_⟩
    simp [zoneText, addRecords, PublicationPlan.eligibleRecords]
  · rintro ⟨hvalid, rfl⟩
    refine ⟨(), PublicationPlan.validate_eq_ok.mpr hvalid, _, renderRRSets_eq_ok hvalid.rrsets _, ?_⟩
    simp [zoneText, addRecords, PublicationPlan.eligibleRecords]

end Spec

end InternalDNS
