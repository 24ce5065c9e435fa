import InternalDNS.CompilerClaims

/-! # Where the published records come from

Every entry that the compiler publishes is a record of an accepted static set or of an accepted
contribution, and its key is held accordingly: a static set holds all its keys, and a registration
whose contributions are published either holds the key or has it in a reserved subtree that nobody
claims.  The wire plan only regroups these entries under their absolute names, so a statement about
its records reduces to the entries of one key.
-/
namespace InternalDNS.Controlplane

open Go List Bool

variable {E : Externals} {input : CompileInput}

/-! ## The loop of the compiler -/

/-- What the compiler returns is the plan of one of its rounds. -/
theorem compileLoop_eq_ok {fuel : Nat} {rejected : GoMap GoString GoString} {result : CompileResult}
    (h : compileLoop E input fuel rejected = some (.ok result)) :
    ∃ rejected', compileInputs E input rejected' = .ok result := by
  induction fuel generalizing rejected with
  | zero => exact nomatch h
  | succ fuel ih =>
    rw [compileLoop] at h
    split at h
    · exact absurd h (by simp)
    · rename_i out hout
      dsimp only at h
      split_ifs at h
      · cases h
        exact ⟨rejected, hout⟩
      · exact ih h

theorem compile_eq_ok {result : CompileResult} (h : compile E input = some (.ok result)) :
    input.zone.uid ≠ [] ∧ ∃ rejected, result = compilePlan E input rejected := by
  obtain ⟨rejected, h⟩ := compileLoop_eq_ok h
  simp only [compileInputs, validatePrivateZone, Except.bind_eq_ok, failIf_eq_ok] at h
  obtain ⟨-, ⟨-, huid, -⟩, h⟩ := h
  exact ⟨huid, rejected, (Except.ok.inj h).symm⟩

/-! ## The owner of a key -/

/-- The static sets of the zone that are not being deleted. -/
def CompileInput.liveSets (input : CompileInput) : List DNSRecordSet :=
  input.staticRecords.filter fun rs => rs.zoneRef = input.zone.name ∧ rs.deleted = false

/-- The registrations of the zone that are not being deleted. -/
def CompileInput.liveRegistrations (input : CompileInput) : List DNSRegistration :=
  input.registrations.filter fun reg => reg.zoneRef = input.zone.name ∧ reg.deleted = false

/-- The contributions that are eligible and not being deleted. -/
def CompileInput.liveContributions (input : CompileInput) : List DNSRecordContribution :=
  input.contributions.filter fun c => c.eligible = true ∧ c.deleted = false

theorem StaticAccepted.mem_liveSets {claims : Claims} {ttls : GoMap OwnershipKey Int}
    {rs : DNSRecordSet} (h : StaticAccepted E input claims ttls rs) (hrs : rs ∈ input.staticRecords) :
    rs ∈ input.liveSets :=
  mem_filter.mpr ⟨hrs, decide_eq_true ⟨h.ofZone, h.live⟩⟩

theorem RegistrationValid.mem_liveRegistrations {reg : DNSRegistration}
    (h : RegistrationValid E input reg) (hreg : reg ∈ input.registrations) :
    reg ∈ input.liveRegistrations :=
  mem_filter.mpr ⟨hreg, decide_eq_true ⟨h.ofZone, h.live⟩⟩

theorem ContributionAccepted.mem_liveContributions {registered : Registered}
    {c : DNSRecordContribution} {reg : DNSRegistration}
    (h : ContributionAccepted E input registered c reg) : c ∈ input.liveContributions :=
  mem_filter.mpr ⟨h.mem, decide_eq_true ⟨h.eligible, h.live⟩⟩

/-- What is known after the loops of one round. -/
structure Round (E : Externals) (input : CompileInput) (statics : StaticClaims)
    (registered : Registered) : Prop where
  sets : ∀ rs ∈ input.staticRecords, rs.uid ∈ statics.valid →
    StaticAccepted E input registered.claims statics.ttls rs
  ttls : ∀ key ttl, statics.ttls.lookup key = some ttl → 0 ≤ ttl
  regs : ∀ uid reg, registered.regs.lookup uid = some reg → reg ∈ input.registrations ∧
    reg.uid = uid ∧ RegistrationValid E input reg ∧
    ∀ key ∈ registrationKeys E input reg, registered.claims.lookup key = some uid
  held : ∀ key uid, registered.claims.lookup key = some uid →
    (∃ rs ∈ input.liveSets, rs.uid = uid ∧
      ∃ record ∈ rs.records, key = keyOf E (input.apex E) rs.recordType record) ∨
    ∃ reg, registered.regs.lookup uid = some reg ∧ key ∈ registrationKeys E input reg
  exclusive : Exclusive registered.claims
  fences : (registered.fences.map RegistrationFence.uid).Nodup
  fenced : ∀ f ∈ registered.fences, ∃ reg ∈ input.registrations, f = ⟨reg.uid, reg.generation⟩

theorem round_of_fromAPI (hapi : input.FromAPI) (rejected : GoMap GoString GoString) :
    Round E input (collectStaticClaims E input rejected)
      (registerAll E input (collectStaticClaims E input rejected)) := by
  obtain ⟨sets, hsets, hstatic⟩ := collectStaticClaims_inv (E := E) hapi rejected
  obtain ⟨regs, hregs, hreg⟩ := registerAll_inv hapi hsets hstatic
  refine ⟨fun rs hrs hvalid => ?_, hstatic.ttls, fun uid reg hlookup => ?_, fun key uid hlookup => ?_,
    hreg.exclusive, hreg.fences, fun f hf => ?_⟩
  · exact (staticAccepted_of_valid hapi hrs hvalid).grow hreg.grows fun _ => id
  · obtain ⟨hmem, hrest⟩ := hreg.accepted uid reg hlookup
    exact ⟨hregs.mem_iff.mp hmem, hrest⟩
  · refine (hreg.held key uid hlookup).imp_left fun hkey => ?_
    obtain ⟨rs, hrs, huid, hvalid, record, hrecord, hk⟩ := hstatic.held key uid hkey
    have hmem := hsets.mem_iff.mp hrs
    exact ⟨rs, (staticAccepted_of_valid hapi hmem hvalid).mem_liveSets hmem, huid, record, hrecord, hk⟩
  · obtain ⟨reg, hmem, hfence⟩ := hreg.fenced f hf
    exact ⟨reg, hregs.mem_iff.mp hmem, hfence⟩

section Owner

variable {statics : StaticClaims} {registered : Registered} {e : Entry} {reg : DNSRegistration}

/-- The key of a static entry is held by its set. -/
theorem StaticAccepted.lookup_key {rs : DNSRecordSet} {ttls : GoMap OwnershipKey Int}
    (h : StaticAccepted E input registered.claims ttls rs)
    (he : e ∈ staticEntries E (input.apex E) ttls rs) :
    registered.claims.lookup e.key = some rs.uid := by
  obtain ⟨record, hrecord, rfl⟩ := mem_map.mp he
  exact h.claimed record hrecord

/-- What a registration's contribution has shown for one of its entries. -/
structure OwnedBy (E : Externals) (input : CompileInput) (claims : Claims) (reg : DNSRegistration)
    (key : OwnershipKey) : Prop where
  free : claimedByOther E claims key reg.uid = false
  covers : reg.Covers E.cases (input.apex E) key.name
  typed : key.rrtype ∈ reg.recordTypes
  valid : validatePrivateRecordOwner E key.name (input.apex E) key.rrtype.text = .ok ()

theorem recordValid_spec {claims : Claims} {rt : RRType} {record : RecordEntry}
    (h : recordValid E input claims reg rt record = true) :
    OwnedBy E input claims reg (keyOf E (input.apex E) rt record) ∧ record.render rt ≠ [] := by
  simp only [recordValid, registrationOwns, recordAllowed, and_eq_true, not_eq_true',
    decide_eq_true_eq, or_eq_true, any_eq_true, contains_iff_mem] at h
  obtain ⟨⟨⟨hvalid, hfree, hcovers⟩, htyped, -⟩, hcontent⟩ := h
  exact ⟨⟨hfree, hcovers, htyped, hvalid⟩, hcontent⟩

theorem validBundle_spec {claims : Claims} {c : DNSRecordContribution}
    (h : validBundle E input claims reg c = true) {set : DNSContributionRecordSet}
    (hset : set ∈ c.recordSets) {record : RecordEntry} (hrecord : record ∈ set.records) :
    OwnedBy E input claims reg (keyOf E (input.apex E) set.recordType record) ∧
      record.render set.recordType ≠ [] := by
  have hall := all_eq_true.mp h set hset
  simp only [and_eq_true, all_eq_true] at hall
  exact recordValid_spec (hall.2 record hrecord)

theorem ContributionAccepted.ownedBy {c : DNSRecordContribution}
    (h : ContributionAccepted E input registered c reg)
    (he : e ∈ contributionEntries E (input.apex E) c reg) :
    OwnedBy E input registered.claims reg e.key := by
  obtain ⟨set, hset, he⟩ := mem_flatMap.mp he
  obtain ⟨record, hrecord, rfl⟩ := mem_map.mp he
  exact (validBundle_spec h.bundle hset hrecord).1

/-- At its own name a registration holds the key. -/
theorem OwnedBy.lookup_or_reserved {key : OwnershipKey} (hround : Round E input statics registered)
    (hreg : registered.regs.lookup reg.uid = some reg)
    (h : OwnedBy E input registered.claims reg key) :
    registered.claims.lookup key = some reg.uid ∨
      (key.name ≠ zoneOwner E.cases reg.owner (input.apex E) ∧ ∃ name ∈ reg.reservedDescendants,
        DNS.AtOrBelow key.name (zoneOwner E.cases name (input.apex E))) := by
  by_cases hname : key.name = zoneOwner E.cases reg.owner (input.apex E)
  · have hkeys := (hround.regs reg.uid reg hreg).2.2.2
    exact .inl (hkeys key (mem_registrationKeys.mpr ⟨hname, h.typed⟩))
  · exact .inr ⟨hname, h.covers.resolve_left hname⟩

/-- Whatever conflicts with a published key is held by the same registration. -/
theorem OwnedBy.holder (hapi : input.FromAPI) {key k : OwnershipKey}
    (hround : Round E input statics registered) (hreg : registered.regs.lookup reg.uid = some reg)
    (h : OwnedBy E input registered.claims reg key) (hconflict : Conflict key k) {u : GoString}
    (hk : registered.claims.lookup k = some u) : u = reg.uid := by
  rcases h.lookup_or_reserved hround hreg with hlookup | ⟨hname, -⟩
  · exact (hround.exclusive key k hconflict reg.uid u hlookup hk).symm
  · -- The registration claims only at its own name, so it holds nothing here.
    have hfresh : ∀ k', k'.name = key.name → registered.claims.lookup k' ≠ some reg.uid := by
      intro k' hk' hlookup
      rcases hround.held k' reg.uid hlookup with ⟨rs, hrs, huid, -⟩ | ⟨reg', hreg', hmem⟩
      · obtain ⟨-, -, hdisjoint⟩ := nodup_append.mp hapi.distinct.of_append_left
        exact hdisjoint rs.uid (mem_map_of_mem (mem_filter.mp hrs).1) reg.uid
          (mem_map_of_mem (hround.regs reg.uid reg hreg).1) huid
      · obtain rfl := Option.mem_unique hreg hreg'
        exact hname (hk' ▸ (mem_registrationKeys.mp hmem).1)
    exact absurd hk (by simp [no_conflict_of_fresh hfresh h.free hconflict])

end Owner

/-! ## The entries of one key -/

section Entries

variable {statics : StaticClaims} {registered : Registered} {rejected : GoMap GoString GoString}
  {e e' : Entry}

variable (hround : Round E input statics registered)

include hround

/-- **Every published entry belongs to an accepted static set or to an accepted contribution.** -/
theorem mem_publishedEntries
    (he : e ∈ publishedEntries E input statics (contributeAll E input rejected registered)) :
    (∃ rs ∈ input.staticRecords, StaticAccepted E input registered.claims statics.ttls rs ∧
      e ∈ staticEntries E (input.apex E) statics.ttls rs) ∨
    ∃ c reg, ContributionAccepted E input registered c reg ∧
      e ∈ contributionEntries E (input.apex E) c reg := by
  rcases mem_append.mp he with he | he
  · obtain ⟨⟨c, reg⟩, haccepted, he⟩ := mem_flatMap.mp he
    exact .inr ⟨c, reg, (contributeAll_accepted haccepted).1, he⟩
  · obtain ⟨rs, hrs, he⟩ := mem_flatMap.mp he
    obtain ⟨hmem, hvalid⟩ := mem_filter.mp hrs
    exact .inl ⟨rs, hmem, hround.sets rs hmem (of_decide_eq_true hvalid).2, he⟩

/-- An accepted contribution belongs to an accepted registration. -/
theorem ContributionAccepted.regs {c : DNSRecordContribution} {reg : DNSRegistration}
    (h : ContributionAccepted E input registered c reg) :
    reg ∈ input.registrations ∧ reg.uid = c.registrationRef.uid ∧ RegistrationValid E input reg ∧
      registered.regs.lookup reg.uid = some reg := by
  obtain ⟨hmem, huid, hvalid, -⟩ := hround.regs _ _ h.registration
  exact ⟨hmem, huid, hvalid, huid ▸ h.registration⟩

/-- A static set shares its keys with nobody. -/
theorem static_of_static (hapi : input.FromAPI) {rs : DNSRecordSet} (hrs : rs ∈ input.staticRecords)
    (haccepted : StaticAccepted E input registered.claims statics.ttls rs)
    (he : e ∈ staticEntries E (input.apex E) statics.ttls rs) (hkey : e'.key = e.key)
    (he' : e' ∈ publishedEntries E input statics (contributeAll E input rejected registered)) :
    e' ∈ staticEntries E (input.apex E) statics.ttls rs := by
  have hlookup := haccepted.lookup_key he
  obtain ⟨hsets, -, hdisjoint⟩ := nodup_append.mp hapi.distinct.of_append_left
  rcases mem_publishedEntries hround he' with ⟨rs', hrs', haccepted', hmem⟩ | ⟨c, reg, hc, hmem⟩
  · have hlookup' := haccepted'.lookup_key hmem
    rw [hkey, hlookup] at hlookup'
    obtain rfl := inj_on_of_nodup_map hsets hrs hrs' (Option.some.inj hlookup')
    exact hmem
  · have hfree := (hc.ownedBy hmem).free
    rw [hkey] at hfree
    exact absurd (lookup_of_not_claimedByOther hfree hlookup) (hdisjoint rs.uid
      (mem_map_of_mem hrs) reg.uid (mem_map_of_mem (hc.regs hround).1))

/-- Two registrations publish conflicting keys only in an unmanaged zone, below reserved names of
both. -/
theorem registration_unique (hapi : input.FromAPI) {c c' : DNSRecordContribution} {reg reg' : DNSRegistration}
    (hc : ContributionAccepted E input registered c reg)
    (hc' : ContributionAccepted E input registered c' reg')
    (he : e ∈ contributionEntries E (input.apex E) c reg)
    (he' : e' ∈ contributionEntries E (input.apex E) c' reg') (hconflict : Conflict e'.key e.key)
    (hne : reg'.uid ≠ reg.uid) :
    isManagedZone E input.zone = false ∧ ∀ r ∈ [reg, reg'], ∃ name ∈ r.reservedDescendants,
      DNS.AtOrBelow e.key.name (zoneOwner E.cases name (input.apex E)) := by
  obtain ⟨-, -, hvalid, hreg⟩ := hc.regs hround
  obtain ⟨hmem', -, hvalid', hreg'⟩ := hc'.regs hround
  have howned := hc.ownedBy he
  have howned' := hc'.ownedBy he'
  obtain ⟨-, name, hname, hbelow⟩ := (howned.lookup_or_reserved hround hreg).resolve_left
    fun h => hne (howned'.holder hapi hround hreg' hconflict h).symm
  obtain ⟨-, name', hname', hbelow'⟩ := (howned'.lookup_or_reserved hround hreg').resolve_left
    fun h => hne (howned.holder hapi hround hreg hconflict.symm h)
  rw [hconflict.name] at hbelow'
  refine ⟨?_, by simpa using ⟨⟨name, hname, hbelow⟩, ⟨name', hname', hbelow'⟩⟩⟩
  -- In a managed zone each of them respects the reservation of the other.
  by_contra hmanaged
  rw [not_eq_false] at hmanaged
  have hscopes : ∀ name ∈ reg'.reservedDescendants,
      (⟨zoneRelativeOwner E.cases name (input.apex E), reg'.uid⟩ : ReservedScope) ∈
        input.scopes E := by
    intro name hname
    rw [CompileInput.scopes, if_pos hmanaged, ← apex_eq (E := E)]
    refine mem_registrationScopes.mpr ⟨reg', hmem', ⟨hvalid'.ofZone, ?_⟩, name, hname, ?_, rfl⟩
    · exact hapi.named _ (mem_append_left _ (mem_append_right _ (mem_map_of_mem hmem')))
    · exact all_eq_true.mp (hvalid'.reservation hmanaged) name hname
  exact reserved_disjoint hvalid.owner (hvalid.reservation hmanaged) (hvalid'.reservation hmanaged)
    hne hscopes hname hname' hbelow hbelow'

end Entries

/-! ## The records of the wire plan -/

/-- The entries that one round publishes under a key. -/
def entriesAt (E : Externals) (input : CompileInput) (rejected : GoMap GoString GoString)
    (key : OwnershipKey) : List Entry :=
  let statics := collectStaticClaims E input rejected
  (publishedEntries E input statics
    (contributeAll E input rejected (registerAll E input statics))).filter (·.key = key)

section Wire

theorem mem_planRRSets {entries : List Entry} {set : PublicationRRSet} (h : set ∈ planRRSets entries) :
    ∃ key, entries.filter (·.key = key) ≠ [] ∧
      set = publicationRRSet key (entries.filter (·.key = key)) := by
  obtain ⟨⟨key, es⟩, hmem, rfl⟩ := mem_map.mp (mem_insertionSort _ |>.mp h)
  have hlookup := AList.mem_lookup_iff.mpr hmem
  have hgroup : ((GoMap.group Entry.key entries).lookup key).getD [] = _ :=
    GoMap.lookup_group entries key
  rw [Option.mem_def.mp hlookup, Option.getD_some] at hgroup
  exact ⟨key, hgroup ▸ GoMap.group_ne_nil hlookup, by rw [← hgroup]⟩

section

variable (hapi : input.FromAPI) (rejected : GoMap GoString GoString) (key : OwnershipKey)
include hapi

/-- The entries of a key are those of one static set, or all come from contributions. -/
theorem entriesAt_cases :
    (∃ rs ∈ input.staticRecords,
      StaticAccepted E input (registerAll E input (collectStaticClaims E input rejected)).claims
        (collectStaticClaims E input rejected).ttls rs ∧
      ∀ e ∈ entriesAt E input rejected key,
        e ∈ staticEntries E (input.apex E) (collectStaticClaims E input rejected).ttls rs) ∨
    ∀ e ∈ entriesAt E input rejected key, ∃ c reg, ContributionAccepted E input
      (registerAll E input (collectStaticClaims E input rejected)) c reg ∧
        e ∈ contributionEntries E (input.apex E) c reg := by
  have hround := round_of_fromAPI (E := E) hapi rejected
  by_cases hstatic : ∃ e ∈ entriesAt E input rejected key, e.uid = none
  · obtain ⟨e, he, huid⟩ := hstatic
    obtain ⟨hpublished, hkey⟩ := mem_filter.mp he
    rcases mem_publishedEntries hround hpublished with ⟨rs, hrs, haccepted, hmem⟩ | ⟨c, reg, -, hmem⟩
    · refine .inl ⟨rs, hrs, haccepted, fun e' he' => ?_⟩
      obtain ⟨hpublished', hkey'⟩ := mem_filter.mp he'
      exact static_of_static hround hapi hrs haccepted hmem
        ((of_decide_eq_true hkey').trans (of_decide_eq_true hkey).symm) hpublished'
    · obtain ⟨set, -, hmem⟩ := mem_flatMap.mp hmem
      obtain ⟨record, -, rfl⟩ := mem_map.mp hmem
      exact absurd huid (by simp)
  · refine .inr fun e he => ?_
    rcases mem_publishedEntries hround (mem_filter.mp he).1 with ⟨rs, -, -, hmem⟩ | hc
    · obtain ⟨record, -, rfl⟩ := mem_map.mp hmem
      exact absurd ⟨_, he, rfl⟩ hstatic
    · exact hc

/-- **The wire RRset of a key has the records of its entries**, each with its contribution. -/
theorem attributed_entriesAt :
    (attributed (publicationRRSet key (entriesAt E input rejected key))).Perm
      ((entriesAt E input rejected key).map fun e => (e.record, e.uid)) := by
  rcases entriesAt_cases (E := E) hapi rejected key with ⟨rs, -, -, h⟩ | h
  · refine attributed_static fun e he => ?_
    obtain ⟨record, -, rfl⟩ := mem_map.mp (h e he)
    rfl
  · refine attributed_contributed fun e he => ?_
    obtain ⟨c, reg, -, hmem⟩ := h e he
    obtain ⟨set, -, hmem⟩ := mem_flatMap.mp hmem
    obtain ⟨record, -, rfl⟩ := mem_map.mp hmem
    rfl

end

/-- The RRsets of a wire plan and the keys they were made for. -/
theorem wire_rrset {w : InternalDNS.PublicationPlan} (hapi : input.FromAPI)
    (hw : publishedPlan E input = some w) {rr : RRSet} (hrr : rr ∈ w.rrsets) :
    ∃ rejected key, entriesAt E input rejected key ≠ [] ∧
      rr.name = absoluteOwner E.cases key.name (input.apex E) ∧ rr.type = key.rrtype.text ∧
      ∀ rec ∈ rr.records, ∃ e ∈ entriesAt E input rejected key,
        rec = wireRecordOf (compilePlan E input rejected).plan key.rrtype e.record e.uid := by
  obtain ⟨result, hcompile, hwire⟩ := publishedPlan_eq_some.mp hw
  obtain ⟨-, rejected, rfl⟩ := compile_eq_ok hcompile
  obtain ⟨rfl, -⟩ := wirePlan_eq_ok hwire
  obtain ⟨set, hset, rfl⟩ := mem_map.mp hrr
  obtain ⟨key, hne, rfl⟩ := mem_planRRSets hset
  refine ⟨rejected, key, hne, rfl, rfl, fun rec hrec => ?_⟩
  obtain ⟨a, ha, rfl⟩ := mem_map.mp hrec
  obtain ⟨e, he, rfl⟩ := mem_map.mp
    ((attributed_entriesAt (E := E) hapi rejected key).mem_iff.mp ha)
  exact ⟨e, he, rfl⟩

end Wire

end InternalDNS.Controlplane
