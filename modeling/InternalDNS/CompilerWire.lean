import InternalDNS.CompilerFences
import InternalDNS.NameOwnership

/-! # When a compiled plan can be published

The compiler accepts and rejects objects one by one; the wire plan is then validated as a whole.
`wirePlan_of_publishable` says for which inputs every accepted set of objects passes that
validation.  The inputs that are left out are those whose owner names the compiler takes although
they are not names of the zone, and those in which one owner gives a name two CNAME targets or a
CNAME beside other records: both are accepted object by object, and then block the zone.
-/
namespace InternalDNS.Controlplane

open Go List Except

variable {E : Externals} {input : CompileInput}

/-! ## Types -/

theorem toUpper_text (U : CaseMap) (rt : RRType) : toUpper U rt.text = rt.text := by
  have hchars : ∀ c ∈ rt.text, U.upper c = c := by
    intro c hc
    have hall : rt.text.all (fun c => c.toNat < 128 && (c.toNat < 97 || 122 < c.toNat)) = true := by
      cases rt <;> decide
    have hascii := all_eq_true.mp hall c hc
    simp only [Bool.and_eq_true, Bool.or_eq_true, decide_eq_true_eq] at hascii
    rw [U.upper_ascii c hascii.1, toUpper_of_not_lower hascii.2]
  exact (map_congr_left hchars).trans (map_id _)

theorem validatePrivateRecordOwner_eq_ok {owner apex : GoString} {rt : RRType} :
    validatePrivateRecordOwner E owner apex rt.text = .ok () ↔
      rt ≠ .ALIAS ∧ rt ≠ .SOA ∧ (rt = .CNAME → trimSpace owner ≠ [] ∧ trimSpace owner ≠ ['@'] ∧
        absoluteName E.cases (trimSpace owner) ≠ absoluteName E.cases apex) := by
  have hmarker : equalFold rt.text ownershipMarkerType = false := by cases rt <;> decide
  have halias : equalFold rt.text (lit "ALIAS") = true ↔ rt = .ALIAS := by cases rt <;> decide
  have hsoa : equalFold rt.text (lit "SOA") = true ↔ rt = .SOA := by cases rt <;> decide
  have hcname : equalFold rt.text (lit "CNAME") = true ↔ rt = .CNAME := by cases rt <;> decide
  simp only [validatePrivateRecordOwner, bind_eq_ok, failIf_eq_ok, exists_const, hmarker,
    halias, hsoa, hcname, Bool.false_eq_true, not_false_eq_true, true_and, not_and, not_or]

/-! ## Names -/

/-- A relative owner that is published as a name of the zone, different for different owners. -/
structure PublishableName (E : Externals) (apex k : GoString) : Prop where
  canonical : canonicalName E.cases k = k
  relative : ¬ DNS.AtOrBelow k apex
  inside : insideZone E (absoluteName E.cases apex)
    (absoluteName E.cases (absoluteOwner E.cases k apex)) = true

section Names

variable {apex k k' : GoString}

theorem PublishableName.absoluteOwner_eq (h : PublishableName E apex k) (ha : Plain apex) :
    absoluteOwner E.cases k apex = if k = ['@'] then apex else k ++ '.' :: apex := by
  simp only [absoluteOwner, h.canonical, canonicalName_of_plain ha, hasSuffix_iff]
  have hrelative := h.relative
  rw [DNS.AtOrBelow] at hrelative
  rw [if_neg hrelative]

/-- Different owners are published at different names. -/
theorem PublishableName.injective (h : PublishableName E apex k) (h' : PublishableName E apex k')
    (ha : Plain apex) (heq : absoluteOwner E.cases k apex = absoluteOwner E.cases k' apex) :
    k = k' := by
  have hlonger : ∀ s : GoString, apex ≠ s ++ '.' :: apex := by
    intro s hs
    have hlength := congrArg List.length hs
    simp at hlength
    omega
  rw [h.absoluteOwner_eq ha, h'.absoluteOwner_eq ha] at heq
  split_ifs at heq with hk hk' hk'
  · rw [hk, hk']
  · exact absurd heq (hlonger k')
  · exact absurd heq.symm (hlonger k)
  · exact (append_left_inj _).mp heq

/-- A CNAME that is not at the apex of the zone is not published there either. -/
theorem PublishableName.valid {rt : RRType} (h : PublishableName E apex k) (ha : Plain apex)
    (hvalid : validatePrivateRecordOwner E k apex rt.text = .ok ()) :
    validatePrivateRecordOwner E (absoluteName E.cases (absoluteOwner E.cases k apex))
      (absoluteName E.cases apex) rt.text = .ok () := by
  obtain ⟨halias, hsoa, hcname⟩ := validatePrivateRecordOwner_eq_ok.mp hvalid
  refine validatePrivateRecordOwner_eq_ok.mpr ⟨halias, hsoa, fun hrt => ?_⟩
  obtain ⟨-, hat, -⟩ := hcname hrt
  have hk : k ≠ ['@'] := by
    rintro rfl
    exact hat (by decide)
  rw [trimSpace_of_trimmed (trimmed_absoluteName E.cases _), absoluteName_absoluteName,
    absoluteName_absoluteName]
  have hne : absoluteOwner E.cases k apex ≠ apex := by
    rw [h.absoluteOwner_eq ha, if_neg hk]
    intro heq
    have hlength := congrArg List.length heq
    simp at hlength
    omega
  refine ⟨absoluteName_ne_nil E.cases _, fun heq => ?_, fun heq => ?_⟩
  · have hdot := dot_suffix_absoluteName E.cases (absoluteOwner E.cases k apex)
    rw [heq] at hdot
    exact absurd (suffix_cons_iff.mp hdot) (by simp)
  · rw [absoluteName_absoluteOwner ha, absoluteName_of_plain ha] at heq
    exact hne ((append_left_inj _).mp heq)

end Names

/-! ## Conditions on the inputs -/

section

variable (E : Externals) (input : CompileInput)

/-- The keys that a contribution publishes at. -/
def contributedKeys (apex : GoString) (c : DNSRecordContribution) :
    List OwnershipKey :=
  c.recordSets.flatMap fun set => set.records.map (keyOf E apex set.recordType)

/-- At a common name, neither is a CNAME. -/
def Apart (a b : OwnershipKey) : Prop :=
  a.name = b.name → a.rrtype ≠ .CNAME ∧ b.rrtype ≠ .CNAME

theorem Apart.symm {a b : OwnershipKey} (h : Apart a b) : Apart b a :=
  fun hname => (h hname.symm).symm

theorem apart_or_conflict (a b : OwnershipKey) : Apart a b ∨ Conflict a b := by
  by_cases hcname : a.rrtype = .CNAME ∨ b.rrtype = .CNAME
  · by_cases hname : a.name = b.name
    · exact .inr (.inr ⟨hname, hcname⟩)
    · exact .inl fun h => absurd h hname
  · exact .inl fun _ => not_or.mp hcname

/-- The DNS library parses the record's data, at every owner and TTL. -/
def Parses (rt : RRType) (record : RecordEntry) : Prop :=
  ∀ owner ttl, E.dns.isDomainName owner = true →
    (E.dns.newRR (recordLine owner ttl rt.text (record.render rt))).isSome

/-- What the API and the caller promise of the inputs: generations start at one, and the previous
plan was validated when it was loaded. -/
structure CompileInput.Complete : Prop where
  generations : ∀ reg ∈ input.registrations, reg.generation ≠ 0
  previous : ∀ f ∈ input.previousContributions, f.uid ≠ [] ∧ f.generation ≠ 0 ∧ f.sequence ≠ 0

/-- All data of the inputs parses. -/
structure CompileInput.Parses : Prop where
  statics : ∀ rs ∈ input.staticRecords, ∀ record ∈ rs.records,
    Controlplane.Parses E rs.recordType record
  contributions : ∀ c ∈ input.contributions, ∀ set ∈ c.recordSets, ∀ record ∈ set.records,
    Controlplane.Parses E set.recordType record

/-- The registration of the contribution has reserved the name. -/
def Reserves (c : DNSRecordContribution) (k : GoString) : Prop :=
  ∃ reg ∈ input.registrations, reg.uid = c.registrationRef.uid ∧ ∃ name ∈ reg.reservedDescendants,
    DNS.AtOrBelow k (zoneOwner E.cases name (input.apex E))

/-- **The inputs that cannot block their zone**: all owner names are names of the zone, and no owner
gives a name a CNAME and anything else. -/
structure CompileInput.Publishable : Prop where
  apex : E.dns.isDomainName (absoluteName E.cases (input.apex E)) = true
  registrations : ∀ reg ∈ input.liveRegistrations,
    PublishableName E (input.apex E) (zoneOwner E.cases reg.owner (input.apex E))
  statics : ∀ rs ∈ input.liveSets, ∀ record ∈ rs.records,
    PublishableName E (input.apex E) (zoneOwner E.cases record.name (input.apex E))
  contributions : ∀ c ∈ input.liveContributions, ∀ key ∈ contributedKeys E (input.apex E) c,
    PublishableName E (input.apex E) key.name
  staticTargets : ∀ rs ∈ input.liveSets, rs.recordType = .CNAME →
    (rs.records.map fun record => zoneOwner E.cases record.name (input.apex E)).Nodup
  contributedTargets : ∀ c ∈ input.liveContributions,
    (contributedKeys E (input.apex E) c).Pairwise Apart
  registrationTargets : ∀ c ∈ input.liveContributions, ∀ d ∈ input.liveContributions, c.uid ≠ d.uid →
    c.registrationRef.uid = d.registrationRef.uid → ∀ a ∈ contributedKeys E (input.apex E) c,
      ∀ b ∈ contributedKeys E (input.apex E) d, Apart a b
  sharedTargets : isManagedZone E input.zone = false → ∀ c ∈ input.liveContributions,
    ∀ d ∈ input.liveContributions, c.registrationRef.uid ≠ d.registrationRef.uid →
      ∀ a ∈ contributedKeys E (input.apex E) c, ∀ b ∈ contributedKeys E (input.apex E) d,
        Reserves E input c a.name → Reserves E input d b.name → Apart a b

end

/-! ## No CNAME beside anything else -/

section Pairwise

variable {rejected : GoMap GoString GoString} {registered : Registered} {statics : StaticClaims}

theorem contribute_appends {st : Contributed} {c : DNSRecordContribution} :
    (contribute E input rejected registered st c).accepted = st.accepted ∨
      ∃ reg, (contribute E input rejected registered st c).accepted = st.accepted ++ [(c, reg)] := by
  unfold contribute
  dsimp only
  split
  · rename_i reg _ _
    split_ifs
    · exact .inl rfl
    · exact .inl rfl
    · exact .inr ⟨reg, rfl⟩
    · exact .inl rfl
    · exact .inl rfl
  · exact .inl rfl

theorem accepted_sublist :
    ((contributeAll E input rejected registered).accepted.map Prod.fst).Sublist input.contributions := by
  refine foldl_invariant (P := fun done (st : Contributed) =>
    (st.accepted.map Prod.fst).Sublist done) (List.Sublist.refl _) ?_
  intro done c rest st _ ih
  rcases contribute_appends (E := E) with h | ⟨reg, h⟩
  · rw [h]
    exact ih.trans (sublist_append_left ..)
  · rw [h, map_append]
    exact ih.append (List.Sublist.refl _)

theorem keys_contributionEntries (apex : GoString) (c : DNSRecordContribution) (reg : DNSRegistration) :
    (contributionEntries E apex c reg).map Entry.key = contributedKeys E apex c := by
  simp only [contributionEntries, contributedKeys, map_flatMap, map_map]
  rfl

/-- Entries of two accepted contributions. -/
theorem apart_contributions (hapi : input.FromAPI) (hinput : input.Publishable E)
    (hround : Round E input statics registered) {c d : DNSRecordContribution}
    {reg reg' : DNSRegistration} (hc : ContributionAccepted E input registered c reg)
    (hd : ContributionAccepted E input registered d reg') (hne : c.uid ≠ d.uid) {a b : Entry}
    (ha : a ∈ contributionEntries E (input.apex E) c reg)
    (hb : b ∈ contributionEntries E (input.apex E) d reg') : Apart a.key b.key := by
  have hakey : a.key ∈ contributedKeys E (input.apex E) c :=
    keys_contributionEntries (E := E) _ c reg ▸ mem_map_of_mem ha
  have hbkey : b.key ∈ contributedKeys E (input.apex E) d :=
    keys_contributionEntries (E := E) _ d reg' ▸ mem_map_of_mem hb
  obtain ⟨hreg, huid, -, -⟩ := hc.regs hround
  obtain ⟨hreg', huid', -, -⟩ := hd.regs hround
  by_cases hsame : c.registrationRef.uid = d.registrationRef.uid
  · exact hinput.registrationTargets c hc.mem_liveContributions d
      hd.mem_liveContributions hne hsame _ hakey _ hbkey
  · rcases apart_or_conflict a.key b.key with hapart | hconflict
    · exact hapart
    · have hother : reg'.uid ≠ reg.uid := fun h => hsame (huid ▸ huid' ▸ h.symm)
      obtain ⟨hunmanaged, hreserved⟩ := registration_unique hround hapi hc hd ha hb hconflict.symm hother
      refine hinput.sharedTargets hunmanaged c hc.mem_liveContributions d hd.mem_liveContributions hsame
        _ hakey _ hbkey ?_ ?_
      · exact ⟨reg, hreg, huid, hreserved reg (by simp)⟩
      · exact ⟨reg', hreg', huid', hconflict.name ▸ hreserved reg' (by simp)⟩

/-- Entries of static sets. -/
theorem apart_statics (hinput : input.Publishable E) {rs : DNSRecordSet}
    (hrs : rs ∈ input.staticRecords)
    (haccepted : StaticAccepted E input registered.claims statics.ttls rs) :
    (staticEntries E (input.apex E) statics.ttls rs).Pairwise fun a b => Apart a.key b.key := by
  rw [staticEntries, pairwise_map]
  by_cases hcname : rs.recordType = .CNAME
  · have hnodup := hinput.staticTargets rs (haccepted.mem_liveSets hrs) hcname
    exact (pairwise_map.mp hnodup).imp fun hne hname => absurd hname hne
  · exact pairwise_of_forall fun _ _ _ => ⟨hcname, hcname⟩

/-- **In the entries of a publishable input no CNAME stands beside anything else.** -/
theorem entries_apart (hapi : input.FromAPI) (hinput : input.Publishable E)
    (hround : Round E input statics registered) (rejected : GoMap GoString GoString) :
    (publishedEntries E input statics (contributeAll E input rejected registered)).Pairwise
      fun a b => Apart a.key b.key := by
  obtain ⟨hall, hcontributions, -⟩ := nodup_append.mp hapi.distinct
  obtain ⟨hsets, -, hdisjoint⟩ := nodup_append.mp hall
  have hfilter : ∀ rs ∈ input.staticRecords.filter (fun rs => rs.zoneRef = input.zone.name ∧
      rs.uid ∈ statics.valid), rs ∈ input.staticRecords ∧
        StaticAccepted E input registered.claims statics.ttls rs := by
    intro rs hrs
    obtain ⟨hmem, hvalid⟩ := mem_filter.mp hrs
    exact ⟨hmem, hround.sets rs hmem (of_decide_eq_true hvalid).2⟩
  refine pairwise_append.mpr ⟨pairwise_flatMap.mpr ⟨?_, ?_⟩, pairwise_flatMap.mpr ⟨?_, ?_⟩, ?_⟩
  · -- within a contribution
    rintro ⟨c, reg⟩ hmem
    have hpairs := hinput.contributedTargets c (contributeAll_accepted hmem).1.mem_liveContributions
    rw [← keys_contributionEntries (E := E) _ c reg, pairwise_map] at hpairs
    exact hpairs
  · -- between contributions
    have hdistinct : (((contributeAll E input rejected registered).accepted.map Prod.fst).map
        DNSRecordContribution.uid).Nodup := (accepted_sublist.map _).nodup hcontributions
    rw [map_map] at hdistinct
    refine (pairwise_map.mp hdistinct).imp_of_mem fun {x y} hx hy hne a ha b hb => ?_
    exact apart_contributions hapi hinput hround (contributeAll_accepted hx).1
      (contributeAll_accepted hy).1 hne ha hb
  · -- within a static set
    intro rs hrs
    obtain ⟨hmem, haccepted⟩ := hfilter rs hrs
    exact apart_statics hinput hmem haccepted
  · -- between static sets
    have hdistinct : ((input.staticRecords.filter fun rs => rs.zoneRef = input.zone.name ∧
        rs.uid ∈ statics.valid).map DNSRecordSet.uid).Nodup :=
      (filter_sublist.map _).nodup hsets
    refine (pairwise_map.mp hdistinct).imp_of_mem fun {x y} hx hy hne a ha b hb => ?_
    rcases apart_or_conflict a.key b.key with hapart | hconflict
    · exact hapart
    · exact absurd (hround.exclusive _ _ hconflict _ _ ((hfilter x hx).2.lookup_key ha)
        ((hfilter y hy).2.lookup_key hb)) hne
  · -- between a contribution and a static set
    intro a ha b hb
    obtain ⟨⟨c, reg⟩, hmem, ha⟩ := mem_flatMap.mp ha
    obtain ⟨rs, hrs, hb⟩ := mem_flatMap.mp hb
    have hc := (contributeAll_accepted hmem).1
    obtain ⟨hreg, -, -, hlookup⟩ := hc.regs hround
    rcases apart_or_conflict a.key b.key with hapart | hconflict
    · exact hapart
    · have huid := (hc.ownedBy ha).holder hapi hround hlookup hconflict
        ((hfilter rs hrs).2.lookup_key hb)
      exact absurd huid (hdisjoint rs.uid (mem_map_of_mem (hfilter rs hrs).1) reg.uid
        (mem_map_of_mem hreg))

end Pairwise

/-! ## What the wire plan asks of an entry -/

section Entries

variable {rejected : GoMap GoString GoString} {registered : Registered} {statics : StaticClaims}

/-- What holds of a published entry. -/
structure EntryValid (E : Externals) (input : CompileInput)
    (fences : GoMap GoString ContributionFence) (e : Entry) : Prop where
  name : PublishableName E (input.apex E) e.key.name
  owner : validatePrivateRecordOwner E e.key.name (input.apex E) e.key.rrtype.text = .ok ()
  content : e.record.render e.key.rrtype ≠ []
  ttl : 0 ≤ e.ttl
  parses : Parses E e.key.rrtype e.record
  fence : ∀ uid, e.uid = some uid → uid ≠ [] ∧ ∃ f, fences.lookup uid = some f ∧ f.retired = false

theorem entryValid_of_mem (hapi : input.FromAPI) (hinput : input.Publishable E)
    (hparses : input.Parses E) (hround : Round E input statics registered) {e : Entry}
    (he : e ∈ publishedEntries E input statics (contributeAll E input rejected registered)) :
    EntryValid E input (contributeAll E input rejected registered).fences e := by
  rcases mem_publishedEntries hround he with ⟨rs, hrs, haccepted, hmem⟩ | ⟨c, reg, hc, hmem⟩
  · obtain ⟨record, hrecord, rfl⟩ := mem_map.mp hmem
    have hvalid := haccepted.records record hrecord
    refine ⟨hinput.statics rs (haccepted.mem_liveSets hrs) record hrecord, hvalid.owner, hvalid.content, ?_,
      hparses.statics rs hrs record hrecord, nofun⟩
    obtain ⟨ttl, httl⟩ := Option.isSome_iff_exists.mp (haccepted.ttls record hrecord)
    have hpos := hround.ttls _ ttl httl
    simpa [httl] using hpos
  · obtain ⟨hreg, -, hvalid, -⟩ := hc.regs hround
    have howned := hc.ownedBy hmem
    have hkey : e.key ∈ contributedKeys E (input.apex E) c :=
      keys_contributionEntries (E := E) _ c reg ▸ mem_map_of_mem hmem
    have hname := hinput.contributions c hc.mem_liveContributions e.key hkey
    obtain ⟨-, hcontributions, -⟩ := nodup_append.mp hapi.distinct
    obtain ⟨set, hset, hmem⟩ := mem_flatMap.mp hmem
    obtain ⟨record, hrecord, rfl⟩ := mem_map.mp hmem
    refine ⟨hname, howned.valid, (validBundle_spec hc.bundle hset hrecord).2,
      zero_le_one.trans hvalid.ttl, hparses.contributions c hc.mem set hset record hrecord, ?_⟩
    rintro uid huid
    cases huid
    exact ⟨hapi.named _ (mem_append_right _ (mem_map_of_mem hc.mem)),
      accepted_fence hcontributions rejected hc⟩

end Entries

/-! ## The wire plan is valid -/

section Sets

variable {plan : PublicationPlan} {set : PublicationRRSet}

@[simp] theorem map_fst_attributed (set : PublicationRRSet) : (attributed set).map Prod.fst = set.records := by
  rw [attributed, List.map_map]
  exact List.zipIdx_map_fst 0 set.records

theorem wireRRSetOf_owner (set : PublicationRRSet) (hplain : Plain (input.apex E))
    (hapex : plan.zoneApex = input.apex E) :
    (wireRRSetOf E plan set).owner E =
      absoluteName E.cases (absoluteOwner E.cases set.name (input.apex E)) := by
  have hname : (wireRRSetOf E plan set).name = absoluteOwner E.cases set.name (input.apex E) :=
    congrArg (absoluteOwner E.cases set.name) hapex
  rw [rrset_owner hplain hname, hname, absoluteName_absoluteOwner hplain]

@[simp] theorem wireRRSetOf_rrType : (wireRRSetOf E plan set).rrType E = set.recordType.text :=
  toUpper_text E.cases set.recordType

/-- Two RRsets with one wire key have one name and type. -/
theorem wireRRSetOf_key_inj {set' : PublicationRRSet} (hplain : Plain (input.apex E))
    (hapex : plan.zoneApex = input.apex E)
    (hname : PublishableName E (input.apex E) set.name)
    (hname' : PublishableName E (input.apex E) set'.name)
    (h : (wireRRSetOf E plan set).key E = (wireRRSetOf E plan set').key E) :
    set.name = set'.name ∧ set.recordType = set'.recordType := by
  have hnul : ∀ rt : RRType, '\x00' ∉ rt.text := by
    intro rt
    cases rt <;> decide
  simp only [RRSet.key, wireRRSetOf_rrType, wireRRSetOf_owner _ hplain hapex, append_assoc,
    singleton_append] at h
  obtain ⟨howner, htype⟩ := append_sep_inj (hnul _) (hnul _) h
  refine ⟨hname.injective hname' hplain ?_, RRType.text_injective htype⟩
  rw [absoluteName_absoluteOwner hplain, absoluteName_absoluteOwner hplain] at howner
  exact (append_left_inj _).mp howner

end Sets

section Valid

variable {rejected : GoMap GoString GoString} {key : OwnershipKey} {e : Entry}

/-- The assumptions on the inputs and on the DNS library. -/
structure Publication (E : Externals) (input : CompileInput) : Prop where
  api : input.FromAPI
  complete : input.Complete
  parses : input.Parses E
  publishable : input.Publishable E
  /-- The DNS library knows all record types but the one that it cannot serve. -/
  known : ∀ rt : RRType, rt ≠ .ALIAS → E.dns.knownType rt.text = true

section

variable (h : Publication E input)
include h

theorem entriesAt_valid (he : e ∈ entriesAt E input rejected key) :
    e.key = key ∧ EntryValid E input (roundFences E input rejected) e := by
  obtain ⟨hmem, hkey⟩ := mem_filter.mp he
  exact ⟨of_decide_eq_true hkey, entryValid_of_mem h.api h.publishable h.parses
    (round_of_fromAPI h.api rejected) hmem⟩

/-- Entries at two keys, or two entries at one key. -/
theorem entriesAt_apart {k k' : OwnershipKey} (hne : k ≠ k') {e e' : Entry}
    (he : e ∈ entriesAt E input rejected k) (he' : e' ∈ entriesAt E input rejected k') : Apart k k' := by
  have hsymm : Std.Symm fun a b : Entry => Apart a.key b.key := ⟨fun _ _ => Apart.symm⟩
  have hpairs := entries_apart h.api h.publishable (round_of_fromAPI h.api rejected) rejected
  obtain ⟨hmem, hkey⟩ := mem_filter.mp he
  obtain ⟨hmem', hkey'⟩ := mem_filter.mp he'
  obtain rfl := of_decide_eq_true hkey
  obtain rfl := of_decide_eq_true hkey'
  exact hpairs.forall hmem hmem' fun heq => hne (congrArg Entry.key heq)

/-- A CNAME has one target. -/
theorem entriesAt_cname (hne : entriesAt E input rejected key ≠ []) (hcname : key.rrtype = .CNAME) :
    (entriesAt E input rejected key).length = 1 := by
  have hpairs := (entries_apart h.api h.publishable (round_of_fromAPI h.api rejected) rejected).filter
    (·.key = key)
  match hlist : entriesAt E input rejected key with
  | [] => exact absurd hlist hne
  | [_] => rfl
  | a :: b :: rest =>
    have ha := (entriesAt_valid h (by simp [hlist] : a ∈ entriesAt E input rejected key)).1
    have hb := (entriesAt_valid h (by simp [hlist] : b ∈ entriesAt E input rejected key)).1
    rw [show List.filter _ _ = _ from hlist] at hpairs
    have hapart := (pairwise_cons.mp hpairs).1 b (by simp)
    rw [ha, hb] at hapart
    exact absurd hcname (hapart rfl).1

/-- The fence of a published record is that of its contribution. -/
theorem fence_matches (he : EntryValid E input (roundFences E input rejected) e) (rt : RRType) :
    (wireRecordOf (compilePlan E input rejected).plan rt e.record e.uid).FenceMatches
      (wirePlanOf E (compilePlan E input rejected).plan []).observationFences := by
  obtain ⟨-, hnodup, -⟩ := nodup_append.mp h.api.distinct
  cases huid : e.uid with
  | none => exact ⟨fun _ => ⟨rfl, rfl⟩, fun hne => absurd rfl hne⟩
  | some uid =>
    obtain ⟨hne, f, hf, hlive⟩ := he.fence uid huid
    have hfuid := (fence_origin hnodup rejected _ hf).1
    have hmem : f ∈ (compilePlan E input rejected).plan.contributions :=
      (mem_plan_contributions hnodup).mpr (hfuid ▸ hf)
    -- the plan has no other fence with this UID
    have hfind : (compilePlan E input rejected).plan.contributions.find? (·.uid = uid) = some f := by
      have hsome : ((compilePlan E input rejected).plan.contributions.find? (·.uid = uid)).isSome :=
        List.find?_isSome.mpr ⟨f, hmem, decide_eq_true hfuid⟩
      obtain ⟨g, hg⟩ := Option.isSome_iff_exists.mp hsome
      have hguid : g.uid = uid := by simpa using List.find?_some hg
      have hlookup := (mem_plan_contributions hnodup).mp (mem_of_find?_eq_some hg)
      rw [hguid, show (roundFences E input rejected).lookup uid = some f from hf] at hlookup
      rw [hg, hlookup]
    refine ⟨fun hempty => absurd hempty hne, fun _ => ?_⟩
    refine ⟨⟨f.uid, f.generation, f.sequence, f.retired, f.sourceName⟩, ?_, hfuid, hlive, ?_, ?_⟩
    · exact (mem_insertionSort _).mpr (mem_map.mpr ⟨f, hmem, rfl⟩)
    · simp [wireRecordOf, hfind]
    · simp [wireRecordOf, hfind]

/-- The RRset of a key passes the checks of its own. -/
theorem rrset_valid (hne : entriesAt E input rejected key ≠ []) :
    wireRRSet E (compilePlan E input rejected).plan
        (publicationRRSet key (entriesAt E input rejected key)) =
      .ok (wireRRSetOf E (compilePlan E input rejected).plan
        (publicationRRSet key (entriesAt E input rejected key))) ∧
    RRSet.Valid E (absoluteName E.cases (input.apex E))
      (wirePlanOf E (compilePlan E input rejected).plan []).observationFences
      (wireRRSetOf E (compilePlan E input rejected).plan
        (publicationRRSet key (entriesAt E input rejected key))) := by
  have hplain := apex_plain (E := E) input
  have hperm := attributed_entriesAt (E := E) h.api rejected key
  generalize hset : publicationRRSet key (entriesAt E input rejected key) = set at hperm ⊢
  have hname : set.name = key.name := hset ▸ rfl
  have htype : set.recordType = key.rrtype := hset ▸ rfl
  have howner : (wireRRSetOf E (compilePlan E input rejected).plan set).owner E =
      absoluteName E.cases (absoluteOwner E.cases set.name (input.apex E)) :=
    wireRRSetOf_owner set hplain rfl
  obtain ⟨e₀, he₀⟩ := exists_mem_of_ne_nil _ hne
  obtain ⟨hkey₀, hvalid₀⟩ := entriesAt_valid h he₀
  have hpublishable : PublishableName E (input.apex E) set.name := by
    rw [hname, ← hkey₀]
    exact hvalid₀.name
  have hprivate : validatePrivateRecordOwner E set.name (input.apex E) set.recordType.text = .ok () := by
    rw [hname, htype, ← hkey₀]
    exact hvalid₀.owner
  have hrecords : ∀ rec ∈ (wireRRSetOf E (compilePlan E input rejected).plan set).records,
      ∃ e ∈ entriesAt E input rejected key,
        rec = wireRecordOf (compilePlan E input rejected).plan key.rrtype e.record e.uid := by
    intro rec hrec
    obtain ⟨a, ha, rfl⟩ := mem_map.mp hrec
    obtain ⟨e, he, rfl⟩ := mem_map.mp (hperm.mem_iff.mp ha)
    exact ⟨e, he, by rw [htype]⟩
  have hlength : (wireRRSetOf E (compilePlan E input rejected).plan set).records.length =
      (entriesAt E input rejected key).length := by
    rw [wireRRSetOf, length_map, hperm.length_eq, length_map]
  constructor
  · have hcontents : ∀ entry ∈ set.records, entry.render set.recordType ≠ [] := by
      intro entry hentry
      rw [← map_fst_attributed, mem_map] at hentry
      obtain ⟨a, ha, rfl⟩ := hentry
      obtain ⟨e, he, rfl⟩ := mem_map.mp (hperm.mem_iff.mp ha)
      obtain ⟨hkey, hvalid⟩ := entriesAt_valid h he
      rw [htype, ← hkey]
      exact hvalid.content
    have httl : ¬ set.ttlSeconds < 0 := by
      obtain ⟨first, rest, hlist⟩ := exists_cons_of_ne_nil hne
      have hfirst := (entriesAt_valid h (by simp [hlist] : first ∈ entriesAt E input rejected key)).2
      rw [← hset, publicationRRSet, hlist]
      exact not_lt.mpr hfirst.ttl
    simp only [wireRRSet, bind_eq_ok, failIf_eq_ok, forEach_eq_ok, recordContent]
    exact ⟨(), httl, (), fun entry hentry => ⟨_, ⟨(), hcontents entry hentry, rfl⟩, trivial⟩, trivial⟩
  · obtain ⟨halias, -, -⟩ := validatePrivateRecordOwner_eq_ok.mp hprivate
    refine ⟨?_, ?_, ?_, ?_, ?_, ?_, fun rec hrec => ?_, fun rec hrec => ?_, fun rec hrec => ?_⟩
    · rw [howner, wireRRSetOf_rrType]
      exact hpublishable.valid hplain hprivate
    · intro hcname
      rw [wireRRSetOf_rrType] at hcname
      have hrt : key.rrtype = .CNAME := htype ▸ RRType.text_injective hcname
      rw [hlength, entriesAt_cname h hne hrt]
    · rw [← length_pos_iff, hlength]
      exact length_pos_iff.mpr hne
    · have hsome : ∀ rt : RRType, rt.text ≠ [] := by
        intro rt
        cases rt <;> decide
      exact hsome _
    · rw [howner]
      exact hpublishable.inside
    · rw [wireRRSetOf_rrType]
      exact h.known _ halias
    · obtain ⟨e, he, rfl⟩ := hrecords rec hrec
      obtain ⟨hkey, hvalid⟩ := entriesAt_valid h he
      rw [← hkey]
      exact hvalid.content
    · obtain ⟨e, he, rfl⟩ := hrecords rec hrec
      exact fence_matches h (entriesAt_valid h he).2 _
    · obtain ⟨e, he, rfl⟩ := hrecords rec hrec
      obtain ⟨hkey, hvalid⟩ := entriesAt_valid h he
      have hinside := hpublishable.inside
      rw [insideZone, Bool.and_eq_true] at hinside
      rw [howner, wireRRSetOf_rrType, htype, ← hkey]
      exact hvalid.parses _ _ hinside.1

end

/-- The RRsets of a plan have different names or types. -/
theorem rrsets_distinct : (compilePlan E input rejected).plan.rrsets.Pairwise fun a b =>
    (a.name, a.recordType) ≠ (b.name, b.recordType) := by
  refine (perm_insertionSort _ _).pairwise_iff (fun h => Ne.symm h) |>.mpr ?_
  rw [pairwise_map]
  refine (nodupKeys_iff_pairwise.mp (AList.nodupKeys _)).imp fun {a b} hne heq => hne ?_
  obtain ⟨⟨name, rt⟩, es⟩ := a
  obtain ⟨⟨name', rt'⟩, es'⟩ := b
  obtain ⟨rfl, rfl⟩ := Prod.mk.inj heq
  rfl

section

variable (h : Publication E input)
include h

theorem rrset_publishable {set : PublicationRRSet}
    (hset : set ∈ (compilePlan E input rejected).plan.rrsets) :
    PublishableName E (input.apex E) set.name := by
  obtain ⟨key, hne, rfl⟩ := mem_planRRSets hset
  obtain ⟨e, he⟩ := exists_mem_of_ne_nil _ hne
  obtain ⟨hkey, hvalid⟩ := entriesAt_valid h he
  exact hkey ▸ hvalid.name

theorem owner_publishable {po : PublicationOwner}
    (hpo : po ∈ (compilePlan E input rejected).plan.owners) :
    PublishableName E (input.apex E) po.name := by
  have hround := round_of_fromAPI (E := E) h.api rejected
  obtain ⟨e, he, rfl⟩ := mem_map.mp hpo
  have hlookup := AList.mem_lookup_iff.mpr ((mem_insertionSort _).mp he)
  have hname : PublishableName E (input.apex E) e.1.name := by
    rcases hround.held e.1 e.2 hlookup with ⟨rs, hrs, -, record, hrecord, hkey⟩ | ⟨reg, hreg, hmem⟩
    · rw [hkey]
      exact h.publishable.statics rs hrs record hrecord
    · obtain ⟨hregs, -, hvalid, -⟩ := hround.regs _ _ hreg
      rw [(mem_registrationKeys.mp hmem).1]
      exact h.publishable.registrations reg (hvalid.mem_liveRegistrations hregs)
  cases hstatic : (collectStaticClaims E input rejected).staticClaim.lookup e.1 with
  | some uid => exact hname
  | none => exact hname

/-- The wire plan of a publishable input. -/
theorem wirePlan_valid (hzone : input.zone.uid ≠ []) (rejected : GoMap GoString GoString) :
    (wirePlanOf E (compilePlan E input rejected).plan
      ((compilePlan E input rejected).plan.rrsets.map
        (wireRRSetOf E (compilePlan E input rejected).plan))).Valid E := by
  have hplain := apex_plain (E := E) input
  have hround := round_of_fromAPI (E := E) h.api rejected
  obtain ⟨-, hnodup, -⟩ := nodup_append.mp h.api.distinct
  have hapex : absoluteName E.cases (input.apex E) = input.apex E ++ ['.'] := absoluteName_of_plain hplain
  have hobservations : ∀ o ∈ (wirePlanOf E (compilePlan E input rejected).plan []).observationFences,
      ∃ f ∈ (compilePlan E input rejected).plan.contributions,
        o = ⟨f.uid, f.generation, f.sequence, f.retired, f.sourceName⟩ := by
    intro o ho
    obtain ⟨f, hf, rfl⟩ := mem_map.mp ((mem_insertionSort _).mp ho)
    exact ⟨f, hf, rfl⟩
  refine ⟨hzone, ?_, h.publishable.apex, fun f hf => ?_, sorted_by_key RegistrationFence.uid hround.fences,
    fun o ho => ?_, ?_, fun owner howner => ?_, fun rr hrr => ?_, ?_, ?_⟩
  · intro hroot
    replace hroot := hapex.symm.trans hroot
    have hnil : input.apex E = [] := (append_left_inj _).mp (hroot.trans (nil_append _).symm)
    exact hplain.ne_nil hnil
  · obtain ⟨reg, hreg, rfl⟩ := hround.fenced f ((mem_insertionSort _).mp hf)
    refine ⟨h.api.named _ ?_, h.complete.generations reg hreg⟩
    exact mem_append_left _ (mem_append_right _ (mem_map_of_mem hreg))
  · obtain ⟨f, hf, rfl⟩ := hobservations o ho
    obtain ⟨huid, horigin⟩ := fence_origin hnodup rejected _ ((mem_plan_contributions hnodup).mp hf)
    rcases horigin with ⟨g, hg, hguid, hgeneration, hsequence⟩ | ⟨c, hc, hcuid, hpos, hgeneration, hsequence⟩
    · obtain ⟨h1, h2, h3⟩ := h.complete.previous g hg
      exact ⟨hguid ▸ h1, hgeneration ▸ h2, hsequence ▸ h3⟩
    · have hne : c.generation ≠ 0 := Nat.one_le_iff_ne_zero.mp hpos
      refine ⟨hcuid ▸ h.api.named _ ?_, hgeneration ▸ hne, hsequence ▸ hne⟩
      exact mem_append_right _ (mem_map_of_mem hc)
  · refine sorted_by_key ObservationFence.contributionUID ?_
    have hsorted := plan_contributions_sorted (E := E) hnodup rejected
    rw [map_map]
    exact hsorted.imp ne_of_lt
  · obtain ⟨po, hpo, rfl⟩ := mem_map.mp (mem_dedup.mp ((mem_insertionSort _).mp howner))
    exact (owner_publishable h hpo).inside
  · obtain ⟨set, hset, rfl⟩ := mem_map.mp hrr
    obtain ⟨key, hne, rfl⟩ := mem_planRRSets hset
    exact (rrset_valid h hne).2
  · refine pairwise_map.mpr (pairwise_map.mpr (rrsets_distinct.imp_of_mem fun {a b} ha hb hne heq => hne ?_))
    obtain ⟨hname, htype⟩ := wireRRSetOf_key_inj hplain rfl (rrset_publishable h ha)
      (rrset_publishable h hb) heq
    rw [hname, htype]
  · refine pairwise_map.mpr (rrsets_distinct.imp_of_mem fun {a b} ha hb hne howner => ?_)
    rw [wireRRSetOf_owner a hplain rfl, wireRRSetOf_owner b hplain rfl,
      absoluteName_absoluteOwner hplain, absoluteName_absoluteOwner hplain] at howner
    have hname := (rrset_publishable h ha).injective (rrset_publishable h hb) hplain
      ((append_left_inj _).mp howner)
    obtain ⟨ka, hna, rfl⟩ := mem_planRRSets ha
    obtain ⟨kb, hnb, rfl⟩ := mem_planRRSets hb
    obtain ⟨ea, hea⟩ := exists_mem_of_ne_nil _ hna
    obtain ⟨eb, heb⟩ := exists_mem_of_ne_nil _ hnb
    have hkeys : ka ≠ kb := fun heq => hne (by rw [heq])
    obtain ⟨h1, h2⟩ := entriesAt_apart h hkeys hea heb hname
    rw [wireRRSetOf_rrType, wireRRSetOf_rrType]
    exact ⟨fun heq => h1 (RRType.text_injective heq), fun heq => h2 (RRType.text_injective heq)⟩

end

end Valid

/-- The reference library knows the types. -/
theorem reference_known (rt : RRType) (h : rt ≠ .ALIAS) :
    Externals.reference.dns.knownType rt.text = true := by
  revert h
  cases rt <;> decide

/-- A static set with two targets for one name. -/
def twoTargets : CompileInput where
  zone := corpZone (lit "corp") none
  registrationZoneReferences := ∅
  registrations := []
  contributions := []
  staticRecords := [⟨lit "static-uid", 0, false, lit "corp", .CNAME,
    [textRecord (lit "www") (lit "a.corp.test."), textRecord (lit "www") (lit "b.corp.test.")]⟩]
  previous := none

theorem scopeContribution_publication :
    Publication .reference (managedInput [scopeContribution] []) where
  api := ⟨by decide, by decide⟩
  complete := ⟨by decide, nofun⟩
  parses := ⟨nofun, fun _ _ _ _ _ _ _ _ _ => rfl⟩
  known := reference_known
  publishable :=
    { apex := by decide +kernel
      registrations := by
        intro reg hreg
        obtain rfl := mem_singleton.mp (mem_filter.mp hreg).1
        exact ⟨by decide +kernel, by decide +kernel, by decide +kernel⟩
      statics := nofun
      contributions := by
        intro c hc key hkey
        obtain rfl := mem_singleton.mp (mem_filter.mp hc).1
        obtain rfl := mem_singleton.mp
          (show key ∈ [keyOf .reference _ .A (textRecord (lit "x.svc") (lit "10.0.0.1"))] from hkey)
        exact ⟨by decide +kernel, by decide +kernel, by decide +kernel⟩
      staticTargets := nofun
      contributedTargets := by
        intro c hc
        obtain rfl := mem_singleton.mp (mem_filter.mp hc).1
        exact pairwise_singleton ..
      registrationTargets := by
        intro c hc d hd hne
        obtain rfl := mem_singleton.mp (mem_filter.mp hc).1
        obtain rfl := mem_singleton.mp (mem_filter.mp hd).1
        exact absurd rfl hne
      sharedTargets := by
        intro hunmanaged
        exact absurd hunmanaged (by decide +kernel) }

end InternalDNS.Controlplane
