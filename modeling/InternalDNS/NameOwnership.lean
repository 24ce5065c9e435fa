import InternalDNS.PublishedRecords

/-! # Who may publish at a name

Two guarantees of a compiled zone, on the wire plan that the agents serve.

* The records of one RRset belong to one owner: a static set, or a single registration.  Only in an
  unmanaged zone may several registrations that have reserved the same subtree publish at one name
  in it, because there reservations are not enforced.
* In a managed zone the records at or below a reserved scope are those of the registration that
  declared it, provided that no owner name still ends in the name of the zone after it was removed
  once.  Scopes are matched against the name without the zone, and such a name is then published as
  it is instead of below the zone.
-/
namespace InternalDNS.Controlplane

open Go List

variable {E : Externals} {input : CompileInput}

/-- The wire record is that record of the static set. -/
structure FromStatic (E : Externals) (input : CompileInput) (rr : RRSet) (rec : RRRecord)
    (rs : DNSRecordSet) (record : RecordEntry) : Prop where
  ofZone : rs.zoneRef = input.zone.name
  mem : record ∈ rs.records
  name : rr.name = absoluteOwner E.cases (zoneOwner E.cases record.name (input.apex E)) (input.apex E)
  type : rr.type = rs.recordType.text
  content : rec.content = record.render rs.recordType
  uid : rec.contributionUID = []

/-- The wire record is that record of the contribution. -/
structure FromContribution (E : Externals) (input : CompileInput) (rr : RRSet) (rec : RRRecord)
    (c : DNSRecordContribution) (record : RecordEntry) : Prop where
  mem : ∃ set ∈ c.recordSets, record ∈ set.records ∧ rr.type = set.recordType.text ∧
    rec.content = record.render set.recordType
  name : rr.name = absoluteOwner E.cases (zoneOwner E.cases record.name (input.apex E)) (input.apex E)
  uid : rec.contributionUID = c.uid

section Records

variable {rr : RRSet} {key : OwnershipKey} {plan : PublicationPlan} {e : Entry}

theorem fromStatic_of_mem {rs : DNSRecordSet} {ttls : GoMap OwnershipKey Int}
    (hzone : rs.zoneRef = input.zone.name) (he : e ∈ staticEntries E (input.apex E) ttls rs)
    (hkey : e.key = key) (hname : rr.name = absoluteOwner E.cases key.name (input.apex E))
    (htype : rr.type = key.rrtype.text) :
    ∃ record, FromStatic E input rr (wireRecordOf plan key.rrtype e.record e.uid) rs record := by
  obtain ⟨record, hrecord, rfl⟩ := mem_map.mp he
  subst hkey
  exact ⟨record, hzone, hrecord, hname, htype, rfl, rfl⟩

theorem fromContribution_of_mem {c : DNSRecordContribution} {reg : DNSRegistration}
    (he : e ∈ contributionEntries E (input.apex E) c reg) (hkey : e.key = key)
    (hname : rr.name = absoluteOwner E.cases key.name (input.apex E))
    (htype : rr.type = key.rrtype.text) :
    ∃ record, key.name = zoneOwner E.cases record.name (input.apex E) ∧
      FromContribution E input rr (wireRecordOf plan key.rrtype e.record e.uid) c record := by
  obtain ⟨set, hset, he⟩ := mem_flatMap.mp he
  obtain ⟨record, hrecord, rfl⟩ := mem_map.mp he
  subst hkey
  exact ⟨record, rfl, ⟨set, hset, hrecord, htype, rfl⟩, hname, rfl⟩

end Records

/-! ## One owner for every RRset -/

/-- The zone of the examples, `corp.test`. -/
def corpZone (name : GoString) (controller : Option OwnerReference) : DNSZone :=
  ⟨name, lit "zone-uid", 1, true, controller, lit "corp.test", by decide⟩

/-- A registration of A records at its own name, with one reserved subtree. -/
def corpRegistration (zone name reserved : GoString) : DNSRegistration :=
  ⟨name, name, 1, 0, false, zone, name, [.A], 5, [reserved]⟩

/-- A record that renders as the text. -/
def textRecord (name text : GoString) : RecordEntry :=
  ⟨name, none, fun _ => text, none, text⟩

/-- A contribution of one address. -/
def addressContribution (uid registration name address : GoString) : DNSRecordContribution :=
  ⟨uid, uid, 1, false, ⟨registration, registration, 1⟩, [⟨.A, [textRecord name address]⟩], true⟩

/-- Two registrations of an unmanaged zone that have reserved the same subtree. -/
def sharedReservation : CompileInput where
  zone := corpZone (lit "corp") none
  registrationZoneReferences := AList.insert (lit "web") ⟨lit "corp", lit "zone-uid", 1⟩
    (AList.insert (lit "api") ⟨lit "corp", lit "zone-uid", 1⟩ ∅)
  registrations := [corpRegistration (lit "corp") (lit "web") (lit "shared"),
    corpRegistration (lit "corp") (lit "api") (lit "shared")]
  contributions := [addressContribution (lit "web-1") (lit "web") (lit "shared") (lit "10.0.0.1"),
    addressContribution (lit "api-1") (lit "api") (lit "shared") (lit "10.0.0.2")]
  staticRecords := []
  previous := none

/-- **Every RRset of the wire plan has one owner**, a static set or a registration, unless the zone
is unmanaged and the name is reserved by every registration that publishes there. -/
theorem rrsets_have_one_owner {w : InternalDNS.PublicationPlan} (hapi : input.FromAPI)
    (hw : publishedPlan E input = some w) :
    (w.rrsets.map (RRSet.key E)).Nodup ∧ ∀ rr ∈ w.rrsets,
      (∃ rs ∈ input.staticRecords, ∀ rec ∈ rr.records, ∃ record,
        FromStatic E input rr rec rs record) ∨
      (∃ reg ∈ input.registrations, ∀ rec ∈ rr.records, ∃ c ∈ input.contributions,
        c.registrationRef.uid = reg.uid ∧ ∃ record, FromContribution E input rr rec c record) ∨
      (isManagedZone E input.zone = false ∧ ∀ rec ∈ rr.records, ∃ reg ∈ input.registrations,
        ∃ c ∈ input.contributions, c.registrationRef.uid = reg.uid ∧ ∃ record,
          FromContribution E input rr rec c record ∧ ∃ name ∈ reg.reservedDescendants,
            DNS.AtOrBelow (zoneOwner E.cases record.name (input.apex E))
              (zoneOwner E.cases name (input.apex E))) := by
  obtain ⟨result, -, hwire⟩ := publishedPlan_eq_some.mp hw
  refine ⟨(wirePlan_eq_ok hwire).2.keys, fun rr hrr => ?_⟩
  obtain ⟨rejected, key, hne, hname, htype, hrecords⟩ := wire_rrset hapi hw hrr
  have hround := round_of_fromAPI (E := E) hapi rejected
  have hkeyed : ∀ e ∈ entriesAt E input rejected key, e.key = key := fun e he =>
    of_decide_eq_true (mem_filter.mp he).2
  rcases entriesAt_cases (E := E) hapi rejected key with ⟨rs, hrs, haccepted, hstatic⟩ | hcontributed
  · refine .inl ⟨rs, hrs, fun rec hrec => ?_⟩
    obtain ⟨e, he, rfl⟩ := hrecords rec hrec
    exact fromStatic_of_mem haccepted.ofZone (hstatic e he) (hkeyed e he) hname htype
  obtain ⟨e₀, he₀⟩ := exists_mem_of_ne_nil _ hne
  obtain ⟨c₀, reg₀, hc₀, hmem₀⟩ := hcontributed e₀ he₀
  by_cases hone : ∀ e ∈ entriesAt E input rejected key, ∃ c, ContributionAccepted E input
      (registerAll E input (collectStaticClaims E input rejected)) c reg₀ ∧
        e ∈ contributionEntries E (input.apex E) c reg₀
  · refine .inr (.inl ⟨reg₀, (hc₀.regs hround).1, fun rec hrec => ?_⟩)
    obtain ⟨e, he, rfl⟩ := hrecords rec hrec
    obtain ⟨c, hc, hmem⟩ := hone e he
    obtain ⟨record, -, hrecord⟩ := fromContribution_of_mem hmem (hkeyed e he) hname htype
    exact ⟨c, hc.mem, (hc.regs hround).2.1.symm, record, hrecord⟩
  -- Some entry belongs to another registration, so every one of them has reserved the name.
  · push Not at hone
    obtain ⟨e₁, he₁, hother⟩ := hone
    obtain ⟨c₁, reg₁, hc₁, hmem₁⟩ := hcontributed e₁ he₁
    have hne₁ : reg₁.uid ≠ reg₀.uid := by
      intro huid
      have hreg := (hc₁.regs hround).2.2.2
      rw [huid, (hc₀.regs hround).2.2.2] at hreg
      cases hreg
      exact hother c₁ hc₁ hmem₁
    obtain ⟨hunmanaged, hreserved⟩ := registration_unique hround hapi hc₀ hc₁ hmem₀ hmem₁
      (.inl ((hkeyed e₁ he₁).trans (hkeyed e₀ he₀).symm)) hne₁
    refine .inr (.inr ⟨hunmanaged, fun rec hrec => ?_⟩)
    obtain ⟨e, he, rfl⟩ := hrecords rec hrec
    obtain ⟨c, reg, hc, hmem⟩ := hcontributed e he
    obtain ⟨record, hzone, hrecord⟩ := fromContribution_of_mem hmem (hkeyed e he) hname htype
    refine ⟨reg, (hc.regs hround).1, c, hc.mem, (hc.regs hround).2.1.symm, record, hrecord, ?_⟩
    rw [← hzone, ← hkeyed e he]
    by_cases huid : reg₀.uid = reg.uid
    · have hpair := registration_unique hround hapi hc hc₁ hmem hmem₁
        (.inl ((hkeyed e₁ he₁).trans (hkeyed e he).symm)) (huid ▸ hne₁)
      exact hpair.2 reg (by simp)
    · have hpair := registration_unique hround hapi hc hc₀ hmem hmem₀
        (.inl ((hkeyed e₀ he₀).trans (hkeyed e he).symm)) huid
      exact hpair.2 reg (by simp)

theorem sharedReservation_fromAPI : sharedReservation.FromAPI := ⟨by decide, by decide⟩

/-- In an unmanaged zone two registrations do publish in one RRset. -/
theorem shared_reservation_merges : ∃ w, publishedPlan .reference sharedReservation = some w ∧
    sharedReservation.FromAPI ∧ ∃ rr ∈ w.rrsets, ∃ a ∈ rr.records, ∃ b ∈ rr.records,
      ∃ c ∈ sharedReservation.contributions, ∃ d ∈ sharedReservation.contributions,
        a.contributionUID = c.uid ∧ b.contributionUID = d.uid ∧
          c.registrationRef.uid ≠ d.registrationRef.uid :=
  (exists_of_any (by decide +kernel)).imp fun _ ⟨hw, h⟩ => ⟨hw, sharedReservation_fromAPI, h⟩

theorem shared_reservation_owners : ∃ w, publishedPlan .reference sharedReservation = some w ∧
    (w.rrsets.map (RRSet.key .reference)).Nodup := by
  obtain ⟨w, hw⟩ := Option.isSome_iff_exists.mp
    (by decide +kernel : (publishedPlan .reference sharedReservation).isSome = true)
  exact ⟨w, hw, (rrsets_have_one_owner sharedReservation_fromAPI hw).1⟩

/-! ## Reserved scopes -/

/-- The owner name is not the name of something in the scope, with the zone's name, after the zone's
name was removed from it. -/
abbrev Unqualified (E : Externals) (apex : GoString) (scope : ReservedScope) (owner : GoString) : Prop :=
  within E.cases (zoneOwner E.cases owner apex) (scope.name ++ '.' :: apex) = false

/-- The owner names of the static sets and of other registrations' contributions are unqualified. -/
structure CompileInput.Unqualified (E : Externals) (input : CompileInput) : Prop where
  statics : ∀ scope ∈ input.scopes E, ∀ rs ∈ input.staticRecords, rs.zoneRef = input.zone.name →
    ∀ record ∈ rs.records, Controlplane.Unqualified E (input.apex E) scope record.name
  contributions : ∀ scope ∈ input.scopes E, ∀ c ∈ input.contributions,
    c.registrationRef.uid ≠ scope.registrationUID → ∀ set ∈ c.recordSets, ∀ record ∈ set.records,
      Controlplane.Unqualified E (input.apex E) scope record.name

/-- The name that a scope has in DNS. -/
def scopeName (E : Externals) (input : CompileInput) (scope : ReservedScope) : GoString :=
  absoluteName E.cases (scope.name ++ '.' :: input.apex E)

theorem rrset_owner (ha : Plain (input.apex E)) {rr : RRSet} {k : GoString}
    (hname : rr.name = absoluteOwner E.cases k (input.apex E)) : rr.owner E = rr.name ++ ['.'] := by
  rw [RRSet.owner, hname, absoluteName_absoluteOwner ha, toLower_append, toLower_absoluteOwner ha]
  exact congrArg (fun c => _ ++ [c]) ((lower_eq_dot E.cases '.').mpr rfl)

/-- A published name lies in a scope if it does without the final dots. -/
theorem atOrBelow_scopeName {scope : ReservedScope} (hscope : Plain scope.name) {rr : RRSet}
    {k : GoString} (hname : rr.name = absoluteOwner E.cases k (input.apex E)) :
    DNS.AtOrBelow (rr.owner E) (scopeName E input scope) ↔
      DNS.AtOrBelow (absoluteOwner E.cases k (input.apex E)) (scope.name ++ '.' :: input.apex E) := by
  have ha := apex_plain (E := E) input
  rw [rrset_owner ha hname, scopeName, absoluteName_of_plain (hscope.append ha), hname]
  exact DNS.atOrBelow_append_iff

/-- A managed zone with one registration, which has reserved `svc`. -/
def managedInput (contributions : List DNSRecordContribution) (statics : List DNSRecordSet) :
    CompileInput where
  zone := corpZone (lit "managed-ctx") (some
    ⟨lit "DNSResolverContext", lit "dns.networking.miloapis.com/v1alpha1", lit "ctx"⟩)
  registrationZoneReferences := AList.insert (lit "web") ⟨lit "managed-ctx", lit "zone-uid", 1⟩ ∅
  registrations := [corpRegistration (lit "managed-ctx") (lit "web") (lit "svc")]
  contributions := contributions
  staticRecords := statics
  previous := none

/-- A static set whose owner name has the name of the zone twice. -/
def qualifiedTwice : DNSRecordSet :=
  ⟨lit "static-uid", 0, false, lit "managed-ctx", .A,
    [textRecord (lit "x.svc.corp.test.corp.test") (lit "10.0.0.9")]⟩

/-- The registration's contribution in its scope. -/
def scopeContribution : DNSRecordContribution :=
  addressContribution (lit "web-1") (lit "web") (lit "x.svc") (lit "10.0.0.1")

end InternalDNS.Controlplane
