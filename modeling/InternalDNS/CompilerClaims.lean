import InternalDNS.WirePlan

/-! # Who owns which name

The invariants of the compiler's two claiming loops.  Every claim is held by an accepted object, a
claim is never taken over, and nothing is claimed beside a CNAME of another object.  They rest on the
API server's promise that objects have distinct identities: an object that is about to claim names
holds none yet.
-/
namespace InternalDNS.Controlplane

open Go List AList GoMap DNSRegistration

variable {E : Externals} {input : CompileInput} {claims : Claims} {rs : DNSRecordSet}
  {reg : DNSRegistration}

/-- What the API server promises of the objects: nonempty and distinct UIDs. -/
structure CompileInput.FromAPI (input : CompileInput) : Prop where
  distinct : (input.staticRecords.map DNSRecordSet.uid ++ input.registrations.map DNSRegistration.uid ++
    input.contributions.map DNSRecordContribution.uid).Nodup
  named : ∀ uid ∈ input.staticRecords.map DNSRecordSet.uid ++
    input.registrations.map DNSRegistration.uid ++
    input.contributions.map DNSRecordContribution.uid, uid ≠ []

theorem apex_plain (input : CompileInput) : Plain (input.apex E) := by
  have h := isPlain_iff.mp input.zone.domain
  rw [CompileInput.apex, canonicalName_of_plain h]
  exact h

theorem apex_eq (input : CompileInput) : input.apex E = input.zone.domainName :=
  canonicalName_of_plain (isPlain_iff.mp input.zone.domain)

/-! ## Conflicts -/

section Conflicts

variable {claims : Claims} {key : OwnershipKey} {uid : GoString}

theorem lookup_claimAll (keys : List OwnershipKey) (k : OwnershipKey) :
    (claimAll uid keys claims).lookup k = if k ∈ keys then some uid else claims.lookup k :=
  lookup_foldl_insert keys

/-- A key that nobody else claims is unclaimed or one's own. -/
theorem lookup_of_not_claimedByOther (h : claimedByOther E claims key uid = false) {holder : GoString}
    (hholder : claims.lookup key = some holder) : holder = uid := by
  simpa [claimedByOther, conflictingClaim, hholder] using h

/-- Two keys that cannot both be published: the same one, or two of one name of which one is a
CNAME. -/
def Conflict (a b : OwnershipKey) : Prop :=
  a = b ∨ (a.name = b.name ∧ (a.rrtype = .CNAME ∨ b.rrtype = .CNAME))

theorem Conflict.symm {a b : OwnershipKey} (h : Conflict a b) : Conflict b a :=
  h.imp Eq.symm fun ⟨hname, hc⟩ => ⟨hname.symm, hc.symm⟩

theorem Conflict.name {a b : OwnershipKey} (h : Conflict a b) : a.name = b.name := by
  rcases h with rfl | ⟨hname, -⟩
  · rfl
  · exact hname

/-- **An object that holds no claim at a name may take a key there only if nothing conflicts.** -/
theorem no_conflict_of_fresh (hfresh : ∀ k, k.name = key.name → claims.lookup k ≠ some uid)
    (h : claimedByOther E claims key uid = false) {k : OwnershipKey} (hk : Conflict key k) :
    claims.lookup k = none := by
  have hnone : conflictingClaim E claims key = none := by
    by_contra hsome
    obtain ⟨holder, hholder⟩ := Option.ne_none_iff_exists'.mp hsome
    have heq : holder = uid := by simpa [claimedByOther, hholder] using h
    subst heq
    unfold conflictingClaim at hholder
    split at hholder
    · rename_i u hu
      exact hfresh key rfl (hu.trans hholder)
    · split_ifs at hholder
      · obtain ⟨e, he, rfl⟩ := mem_map.mp (E.mapOrder.first_mem hholder)
        obtain ⟨hmem, hname⟩ := mem_filter.mp he
        exact hfresh e.1 (of_decide_eq_true hname) (mem_lookup_iff.mpr hmem)
      · exact hfresh ⟨key.name, .CNAME⟩ rfl hholder
  unfold conflictingClaim at hnone
  split at hnone
  · exact absurd hnone (by simp)
  rename_i hkey
  rcases hk with rfl | ⟨hname, hcname⟩
  · exact hkey
  by_contra hsome
  obtain ⟨holder, hholder⟩ := Option.ne_none_iff_exists'.mp hsome
  split_ifs at hnone with hrr
  · -- the search for a CNAME passes over every claim at the name
    have hmem : (⟨k, holder⟩ : Sigma fun _ : OwnershipKey => GoString) ∈
        claims.entries.filter (·.1.name = key.name) :=
      mem_filter.mpr ⟨mem_lookup_iff.mp hholder, by simp [hname]⟩
    have hempty := map_eq_nil_iff.mp (E.mapOrder.first_none hnone)
    rw [hempty] at hmem
    exact not_mem_nil hmem
  · have hk : k = ⟨key.name, .CNAME⟩ := by
      obtain ⟨name, rr⟩ := k
      simp only at hname hcname
      rw [hname, hcname.resolve_left hrr]
    rw [hk, hnone] at hholder
    exact absurd hholder (by simp)

/-- Conflicting claims are held by one object. -/
def Exclusive (claims : Claims) : Prop :=
  ∀ a b, Conflict a b → ∀ u v, claims.lookup a = some u → claims.lookup b = some v → u = v

/-- Claims that were checked keep the order of ownership. -/
theorem Exclusive.claimAll (h : Exclusive claims) (hfresh : ∀ k, claims.lookup k ≠ some uid)
    {keys : List OwnershipKey} (hfree : ∀ key ∈ keys, claimedByOther E claims key uid = false) :
    Exclusive (claimAll uid keys claims) := by
  intro a b hab u v hu hv
  have hsymm := hab.symm
  rw [lookup_claimAll] at hu hv
  split_ifs at hu hv with ha hb hb
  · exact (Option.some.inj hu).symm.trans (Option.some.inj hv)
  · rw [no_conflict_of_fresh (fun k _ => hfresh k) (hfree a ha) hab] at hv
    exact absurd hv (by simp)
  · rw [no_conflict_of_fresh (fun k _ => hfresh k) (hfree b hb) hsymm] at hu
    exact absurd hu (by simp)
  · exact h a b hab u v hu hv

/-- No claim is taken over. -/
theorem grows_claimAll {keys : List OwnershipKey}
    (hfree : ∀ key ∈ keys, claimedByOther E claims key uid = false) :
    GoMap.Grows Eq claims (claimAll uid keys claims) := by
  intro k holder hk
  rw [lookup_claimAll]
  split_ifs with hmem
  · exact ⟨uid, rfl, lookup_of_not_claimedByOther (hfree k hmem) hk⟩
  · exact ⟨holder, hk, rfl⟩

end Conflicts

/-! ## Static record sets -/

/-- What an accepted record of a static set has passed. -/
structure StaticRecordValid (E : Externals) (input : CompileInput) (rs : DNSRecordSet)
    (record : RecordEntry) : Prop where
  owner : validatePrivateRecordOwner E (zoneOwner E.cases record.name (input.apex E)) (input.apex E)
    rs.recordType.text = .ok ()
  unreserved : scopesMatch E (input.scopes E) record.name input.zone.domainName = false
  content : record.render rs.recordType ≠ []
  ttl : 0 ≤ record.ttl.getD 300

theorem staticRecord_ok {pending out : GoMap OwnershipKey Int} {record : RecordEntry}
    (h : staticRecord E input claims rs pending record = .ok out) :
    StaticRecordValid E input rs record ∧
      claimedByOther E claims (keyOf E (input.apex E) rs.recordType record) rs.uid = false ∧
      out = pending.insert (keyOf E (input.apex E) rs.recordType record) (record.ttl.getD 300) := by
  simp only [staticRecord, Except.bind_eq_ok, failIf_eq_ok, exists_const, not_not, Bool.not_eq_true,
    not_or, not_lt] at h
  obtain ⟨howner, hmatch, hcontent, httl, -, hfree, hout⟩ := h
  exact ⟨⟨howner, hmatch, hcontent, httl.1⟩, hfree, (Except.ok.inj hout).symm⟩

/-- What an accepted static set has passed, and the keys it claims. -/
theorem staticRecords_ok {pending : GoMap OwnershipKey Int}
    (h : loop (staticRecord E input claims rs) ∅ rs.records = .ok pending) :
    (∀ record ∈ rs.records, StaticRecordValid E input rs record) ∧
      (∀ key, key ∈ pending.keys ↔ ∃ record ∈ rs.records,
        key = keyOf E (input.apex E) rs.recordType record) ∧
      (∀ key ∈ pending.keys, claimedByOther E claims key rs.uid = false) ∧
      ∀ key ttl, pending.lookup key = some ttl → 0 ≤ ttl := by
  refine loop_invariant (P := fun done pending =>
    (∀ record ∈ done, StaticRecordValid E input rs record) ∧
      (∀ key, key ∈ pending.keys ↔ ∃ record ∈ done,
        key = keyOf E (input.apex E) rs.recordType record) ∧
      (∀ key ∈ pending.keys, claimedByOther E claims key rs.uid = false) ∧
      ∀ key ttl, pending.lookup key = some ttl → 0 ≤ ttl) ?_ ?_ h
  · exact ⟨nofun, fun key => by simp [AList.keys_empty], by simp [AList.keys_empty], by simp⟩
  rintro done record rest pending out - ⟨hvalid, hkeys, hfree, httl⟩ hstep
  obtain ⟨hrecord, hkey, rfl⟩ := staticRecord_ok hstep
  have hmem : ∀ key, key ∈ (pending.insert (keyOf E (input.apex E) rs.recordType record)
      (record.ttl.getD 300)).keys ↔
      key = keyOf E (input.apex E) rs.recordType record ∨ key ∈ pending.keys := by
    intro key
    rw [← AList.mem_keys, AList.mem_insert, AList.mem_keys]
  refine ⟨?_, fun key => ?_, fun key hk => ?_, forall_insert httl hrecord.ttl⟩
  · simpa [or_imp, forall_and] using ⟨hvalid, hrecord⟩
  · rw [hmem, hkeys]
    constructor
    · rintro (rfl | ⟨r, hr, rfl⟩)
      · exact ⟨record, by simp, rfl⟩
      · exact ⟨r, by simp [hr], rfl⟩
    · rintro ⟨r, hr, rfl⟩
      rcases mem_append.mp hr with hr | hr
      · exact .inr ⟨r, hr, rfl⟩
      · exact .inl (mem_singleton.mp hr ▸ rfl)
  · rcases (hmem key).mp hk with rfl | hk
    · exact hkey
    · exact hfree key hk

/-- What holds of an accepted static set after the loop. -/
structure StaticAccepted (E : Externals) (input : CompileInput) (claims : Claims)
    (ttls : GoMap OwnershipKey Int) (rs : DNSRecordSet) : Prop where
  ofZone : rs.zoneRef = input.zone.name
  live : rs.deleted = false
  records : ∀ record ∈ rs.records, StaticRecordValid E input rs record
  claimed : ∀ record ∈ rs.records,
    claims.lookup (keyOf E (input.apex E) rs.recordType record) = some rs.uid
  ttls : ∀ record ∈ rs.records,
    (ttls.lookup (keyOf E (input.apex E) rs.recordType record)).isSome

/-- The invariant of the loop over the static sets. -/
structure StaticInv (E : Externals) (input : CompileInput) (done : List DNSRecordSet)
    (st : StaticClaims) : Prop where
  accepted : ∀ uid ∈ st.valid, ∃ rs ∈ done, rs.uid = uid ∧
    StaticAccepted E input st.claims st.ttls rs
  held : ∀ key uid, st.claims.lookup key = some uid → ∃ rs ∈ done, rs.uid = uid ∧
    rs.uid ∈ st.valid ∧ ∃ record ∈ rs.records, key = keyOf E (input.apex E) rs.recordType record
  exclusive : Exclusive st.claims
  same : st.staticClaim = st.claims
  ttls : ∀ key ttl, st.ttls.lookup key = some ttl → 0 ≤ ttl

theorem StaticAccepted.grow {claims claims' : Claims} {ttls ttls' : GoMap OwnershipKey Int}
    (h : StaticAccepted E input claims ttls rs) (hclaims : GoMap.Grows Eq claims claims')
    (httls : ∀ key, (ttls.lookup key).isSome → (ttls'.lookup key).isSome) :
    StaticAccepted E input claims' ttls' rs := by
  refine ⟨h.ofZone, h.live, h.records, fun record hr => ?_, fun record hr =>
    httls _ (h.ttls record hr)⟩
  obtain ⟨holder, hholder, rfl⟩ := hclaims _ _ (h.claimed record hr)
  exact hholder

theorem staticInv_step {done : List DNSRecordSet} {st : StaticClaims}
    (hnew : rs.uid ∉ done.map DNSRecordSet.uid) (h : StaticInv E input done st) :
    StaticInv E input (done ++ [rs]) (collectStaticClaim E input st rs) := by
  -- A set that is passed over or refused leaves the claims as they are.
  have hkeep : ∀ reasons, StaticInv E input (done ++ [rs]) { st with reasons := reasons } := by
    intro reasons
    refine { h with accepted := fun uid huid => ?_, held := fun key uid hlookup => ?_ }
    · obtain ⟨r, hr, hrest⟩ := h.accepted uid huid
      exact ⟨r, by simp [hr], hrest⟩
    · obtain ⟨r, hr, hrest⟩ := h.held key uid hlookup
      exact ⟨r, by simp [hr], hrest⟩
  unfold collectStaticClaim
  split_ifs with hskip
  · exact hkeep st.reasons
  rw [not_or, not_not, not_or, Bool.not_eq_true] at hskip
  split
  · exact hkeep _
  rename_i pending hpending
  obtain ⟨hrecords, hkeys, hfree, httl⟩ := staticRecords_ok hpending
  have hfresh : ∀ k, st.claims.lookup k ≠ some rs.uid := by
    intro k hk
    obtain ⟨r, hr, huid, -⟩ := h.held k rs.uid hk
    exact hnew (huid ▸ mem_map_of_mem hr)
  have hgrow := grows_claimAll hfree
  have httls : ∀ key, (st.ttls.lookup key).isSome →
      ((insertAll pending st.ttls).lookup key).isSome := by
    intro key hsome
    rw [lookup_insertAll]
    cases pending.lookup key <;> simp [hsome]
  refine ⟨fun uid huid => ?_, fun key uid hlookup => ?_, h.exclusive.claimAll hfresh hfree, ?_,
    fun key ttl hlookup => ?_⟩
  · rcases mem_cons.mp huid with rfl | huid
    · refine ⟨rs, by simp, rfl, hskip.1, hskip.2.1, hrecords, fun record hr => ?_, fun record hr => ?_⟩
      · rw [lookup_claimAll, if_pos ((hkeys _).mpr ⟨record, hr, rfl⟩)]
      · have hmem : keyOf E (input.apex E) rs.recordType record ∈ pending :=
          mem_keys.mpr ((hkeys _).mpr ⟨record, hr, rfl⟩)
        obtain ⟨ttl, httl⟩ := Option.isSome_iff_exists.mp (lookup_isSome.mpr hmem)
        rw [lookup_insertAll, httl]
        rfl
    · obtain ⟨r, hr, huid, haccepted⟩ := h.accepted uid huid
      exact ⟨r, by simp [hr], huid, haccepted.grow hgrow httls⟩
  · rw [lookup_claimAll] at hlookup
    split_ifs at hlookup with hmem
    · cases hlookup
      exact ⟨rs, by simp, rfl, by simp, (hkeys key).mp hmem⟩
    · obtain ⟨r, hr, huid, hvalid, hrecord⟩ := h.held key uid hlookup
      exact ⟨r, by simp [hr], huid, by simp [hvalid], hrecord⟩
  · exact congrArg (claimAll rs.uid pending.keys) h.same
  · rw [lookup_insertAll, Option.or_eq_some_iff] at hlookup
    rcases hlookup with hlookup | ⟨-, hlookup⟩
    · exact httl key ttl hlookup
    · exact h.ttls key ttl hlookup

theorem collectStaticClaims_inv (hapi : input.FromAPI) (reasons : GoMap GoString GoString) :
    ∃ done, done.Perm input.staticRecords ∧
      StaticInv E input done (collectStaticClaims E input reasons) := by
  refine ⟨_, perm_insertionSort _ input.staticRecords, foldl_invariant ?_ ?_⟩
  · exact ⟨nofun, fun key uid h => absurd h (by simp), fun a b _ u v hu => absurd hu (by simp), rfl,
      fun key ttl h => absurd h (by simp)⟩
  · intro done rs rest st hsplit h
    have hnodup := ((perm_insertionSort (fun a b => older DNSRecordSet.creationTimestamp
      DNSRecordSet.uid a b) input.staticRecords).map DNSRecordSet.uid).nodup_iff.mpr
        hapi.distinct.of_append_left.of_append_left
    exact staticInv_step (not_mem_map_of_nodup hnodup hsplit) h

theorem staticAccepted_of_valid (hapi : input.FromAPI) {reasons : GoMap GoString GoString}
    (hrs : rs ∈ input.staticRecords) (hvalid : rs.uid ∈ (collectStaticClaims E input reasons).valid) :
    StaticAccepted E input (collectStaticClaims E input reasons).claims
      (collectStaticClaims E input reasons).ttls rs := by
  obtain ⟨sets, hsets, hinv⟩ := collectStaticClaims_inv (E := E) hapi reasons
  obtain ⟨rs', hrs', huid, haccepted⟩ := hinv.accepted rs.uid hvalid
  obtain rfl := inj_on_of_nodup_map hapi.distinct.of_append_left.of_append_left
    (hsets.mem_iff.mp hrs') hrs huid
  exact haccepted

/-! ## Registrations -/

/-- What an accepted registration has passed. -/
structure RegistrationValid (E : Externals) (input : CompileInput) (reg : DNSRegistration) : Prop where
  live : reg.deleted = false
  ttl : 1 ≤ reg.ttlSeconds
  ofZone : reg.zoneRef = input.zone.name
  owner : scopesOwner E (input.scopes E) reg (input.apex E) = true
  reservation : isManagedZone E input.zone = true → validateReservation E reg (input.apex E) = true
  types : ∀ rt ∈ reg.recordTypes, validatePrivateRecordOwner E
    (zoneOwner E.cases reg.owner (input.apex E)) (input.apex E) rt.text = .ok ()

/-- The keys that a registration claims. -/
def registrationKeys (E : Externals) (input : CompileInput) (reg : DNSRegistration) :
    List OwnershipKey :=
  (uniqueTypes reg.recordTypes).map fun rt => ⟨zoneOwner E.cases reg.owner (input.apex E), rt⟩

theorem mem_registrationKeys {key : OwnershipKey} : key ∈ registrationKeys E input reg ↔
      key.name = zoneOwner E.cases reg.owner (input.apex E) ∧ key.rrtype ∈ reg.recordTypes := by
  obtain ⟨name, rt⟩ := key
  simp only [registrationKeys, uniqueTypes, mem_map, mem_insertionSort, mem_dedup,
    OwnershipKey.mk.injEq]
  constructor
  · rintro ⟨t, ht, rfl, rfl⟩
    exact ⟨rfl, ht⟩
  · rintro ⟨rfl, ht⟩
    exact ⟨rt, ht, rfl, rfl⟩

theorem checkRegistration_ok (h : checkRegistration E input claims reg = .ok true) :
    RegistrationValid E input reg ∧
      ∀ key ∈ registrationKeys E input reg, claimedByOther E claims key reg.uid = false := by
  unfold checkRegistration at h
  split_ifs at h with hdeleted httl hzone
  · exact absurd h (by simp)
  simp only [Except.bind_eq_ok, failIf_eq_ok, exists_const, not_not, not_and, not_exists,
    Bool.not_eq_true, Bool.not_eq_false] at h
  obtain ⟨-, -, howner, hreservation, htypes, hfree, -⟩ := h
  rw [not_or, not_lt] at httl
  refine ⟨⟨by simpa using hdeleted, httl.1, not_not.mp hzone, howner, hreservation, htypes⟩, ?_⟩
  intro key hkey
  obtain ⟨rt, hrt, rfl⟩ := mem_map.mp hkey
  exact hfree rt hrt

/-- The invariant of the loop over the registrations. -/
structure RegisteredInv (E : Externals) (input : CompileInput) (statics : StaticClaims)
    (done : List DNSRegistration) (st : Registered) : Prop where
  grows : GoMap.Grows Eq statics.claims st.claims
  accepted : ∀ uid reg, st.regs.lookup uid = some reg → reg ∈ done ∧ reg.uid = uid ∧
    RegistrationValid E input reg ∧
    ∀ key ∈ registrationKeys E input reg, st.claims.lookup key = some uid
  held : ∀ key uid, st.claims.lookup key = some uid → statics.claims.lookup key = some uid ∨
    ∃ reg, st.regs.lookup uid = some reg ∧ key ∈ registrationKeys E input reg
  exclusive : Exclusive st.claims
  fences : (st.fences.map RegistrationFence.uid).Nodup
  fenced : ∀ f ∈ st.fences, ∃ reg ∈ done, f = ⟨reg.uid, reg.generation⟩

theorem registeredInv_step {statics : StaticClaims} {done : List DNSRegistration} {st : Registered}
    (hnew : reg.uid ∉ done.map DNSRegistration.uid)
    (hstatic : ∀ key, statics.claims.lookup key ≠ some reg.uid)
    (h : RegisteredInv E input statics done st) :
    RegisteredInv E input statics (done ++ [reg]) (register E input st reg) := by
  have hkeep : ∀ reasons, RegisteredInv E input statics (done ++ [reg])
      { st with reasons := reasons } := by
    intro reasons
    refine { h with accepted := fun uid r hr => ?_, fenced := fun f hf => ?_ }
    · obtain ⟨hmem, hrest⟩ := h.accepted uid r hr
      exact ⟨by simp [hmem], hrest⟩
    · obtain ⟨r, hr, hfence⟩ := h.fenced f hf
      exact ⟨r, by simp [hr], hfence⟩
  unfold register
  split
  · exact hkeep _
  · exact hkeep st.reasons
  rename_i hcheck
  split_ifs
  · exact hkeep st.reasons
  obtain ⟨hvalid, hfree⟩ := checkRegistration_ok hcheck
  have hlookup : st.regs.lookup reg.uid = none := by
    by_contra hsome
    obtain ⟨r, hr⟩ := Option.ne_none_iff_exists'.mp hsome
    obtain ⟨hmem, huid, -⟩ := h.accepted reg.uid r hr
    exact hnew (huid ▸ mem_map_of_mem hmem)
  have hfresh : ∀ k, st.claims.lookup k ≠ some reg.uid := by
    intro k hk
    rcases h.held k reg.uid hk with hk | ⟨r, hr, -⟩
    · exact hstatic k hk
    · exact absurd (hr.symm.trans hlookup) (by simp)
  have hgrow := grows_claimAll hfree
  refine ⟨GoMap.Grows.trans (R := Eq) (fun _ _ _ => Eq.trans) h.grows hgrow, fun uid r hr => ?_, fun key uid hk => ?_,
    h.exclusive.claimAll hfresh hfree, ?_, fun f hf => ?_⟩
  · rcases of_lookup_insert hr with ⟨rfl, rfl⟩ | hr
    · refine ⟨by simp, rfl, hvalid, fun key hkey => ?_⟩
      exact (lookup_claimAll (registrationKeys E input _) key).trans (by rw [if_pos hkey])
    · obtain ⟨hmem, hreg, hrvalid, hkeys⟩ := h.accepted uid r hr
      refine ⟨by simp [hmem], hreg, hrvalid, fun key hkey => ?_⟩
      obtain ⟨holder, hholder, rfl⟩ := hgrow key uid (hkeys key hkey)
      exact hholder
  · have hk' : (if key ∈ registrationKeys E input reg then some reg.uid
        else st.claims.lookup key) = some uid := (lookup_claimAll _ key).symm.trans hk
    split_ifs at hk' with hmem
    · cases hk'
      exact .inr ⟨reg, lookup_insert _, hmem⟩
    · rcases h.held key uid hk' with hs | ⟨r, hr, hkey⟩
      · exact .inl hs
      · refine .inr ⟨r, ?_, hkey⟩
        have hne : uid ≠ reg.uid := by
          rintro rfl
          exact absurd (hr.symm.trans hlookup) (by simp)
        rw [lookup_insert_ne hne, hr]
  · refine nodup_map_concat h.fences fun f hf hfuid => ?_
    obtain ⟨r, hr, rfl⟩ := h.fenced f hf
    exact hnew (mem_map.mpr ⟨r, hr, hfuid⟩)
  · rcases mem_append.mp hf with hf | hf
    · obtain ⟨r, hr, hfence⟩ := h.fenced f hf
      exact ⟨r, by simp [hr], hfence⟩
    · exact ⟨reg, by simp, mem_singleton.mp hf⟩

theorem registerAll_inv (hapi : input.FromAPI) {statics : StaticClaims} {sets : List DNSRecordSet}
    (hsets : sets.Perm input.staticRecords) (h : StaticInv E input sets statics) :
    ∃ done, done.Perm input.registrations ∧
      RegisteredInv E input statics done (registerAll E input statics) := by
  refine ⟨_, perm_insertionSort _ input.registrations, foldl_invariant ?_ ?_⟩
  · exact ⟨GoMap.Grows.refl (fun _ => rfl) _, fun uid reg h => absurd h (by simp),
      fun key uid h => .inl h, h.exclusive, nodup_nil, nofun⟩
  · intro done reg rest st hsplit hst
    have hperm := perm_insertionSort (fun a b =>
      older creationTimestamp uid a b) input.registrations
    have hmem : reg.uid ∈ input.registrations.map uid :=
      mem_map_of_mem (hperm.mem_iff.mp (by rw [hsplit]; simp))
    obtain ⟨-, hregs, hdisjoint⟩ := nodup_append.mp hapi.distinct.of_append_left
    have hnodup := (hperm.map uid).nodup_iff.mpr hregs
    refine registeredInv_step (not_mem_map_of_nodup hnodup hsplit) ?_ hst
    intro key hkey
    obtain ⟨rs, hrs, huid, -⟩ := h.held key reg.uid hkey
    exact hdisjoint rs.uid (mem_map_of_mem (hsets.mem_iff.mp hrs)) reg.uid hmem huid

/-! ## Contributions -/

section

variable {rejected : GoMap GoString GoString} {registered : Registered}

/-- What an accepted contribution has passed. -/
structure ContributionAccepted (E : Externals) (input : CompileInput) (registered : Registered)
    (c : DNSRecordContribution) (reg : DNSRegistration) : Prop where
  mem : c ∈ input.contributions
  registration : registered.regs.lookup c.registrationRef.uid = some reg
  current : validateContribution c (some reg) ((previousFences input).lookup c.uid) = []
  live : c.deleted = false
  eligible : c.eligible = true
  bundle : validBundle E input registered.claims reg c = true

theorem contribute_accepted {st : Contributed} {c d : DNSRecordContribution}
    (hc : c ∈ input.contributions)
    (h : (d, reg) ∈ (contribute E input rejected registered st c).accepted) :
    (d, reg) ∈ st.accepted ∨
      (d = c ∧ ContributionAccepted E input registered c reg ∧ reasonOf rejected c.uid = []) := by
  unfold contribute at h
  dsimp only at h
  split at h
  · rename_i r hreg hcurrent
    split_ifs at h with hrejected hdeleted heligible hbundle
    · exact .inl h
    · exact .inl h
    · rcases mem_append.mp h with h | h
      · exact .inl h
      · obtain ⟨rfl, rfl⟩ := Prod.mk.inj (mem_singleton.mp h)
        rw [hreg] at hcurrent
        exact .inr ⟨rfl, ⟨hc, hreg, hcurrent, by simpa using hdeleted, heligible, hbundle⟩,
          not_not.mp hrejected⟩
    · exact .inl h
    · exact .inl h
  · exact .inl h

theorem contributeAll_accepted {c : DNSRecordContribution}
    (h : (c, reg) ∈ (contributeAll E input rejected registered).accepted) :
    ContributionAccepted E input registered c reg ∧ reasonOf rejected c.uid = [] := by
  refine foldl_invariant (P := fun _ st => ∀ c reg, (c, reg) ∈ Contributed.accepted st →
    ContributionAccepted E input registered c reg ∧ reasonOf rejected c.uid = []) ?_ ?_ c reg h
  · exact fun _ _ h => absurd h not_mem_nil
  · intro done x rest st hsplit ih c reg hmem
    rcases contribute_accepted (by rw [hsplit]; simp) hmem with h | ⟨rfl, h⟩
    · exact ih c reg h
    · exact h

end

end InternalDNS.Controlplane
