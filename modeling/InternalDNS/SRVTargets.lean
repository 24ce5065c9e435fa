import InternalDNS.CompilerWire

/-! # SRV targets

Every SRV record of a private zone must name a host of which the zone publishes an address.
`Compile` rejects the sources of the records that do not, and compiles again: without them other
addresses may be missing, and names that they held may be claimed by others.

A source is rejected only in a round that accepted it, so each round but the last rejects a new one,
and the loop ends after at most one more round than there are sources.  In the last round nobody is
to blame, so every target has its address.

A record of a contribution is blamed on its contribution.  A record of a static set is blamed on all
static sets that own its name, of whatever type.
-/
namespace InternalDNS.Controlplane

open Go List AList

/-- The plan publishes an address of the target. -/
def PublicationPlan.HasAddress (E : Externals) (plan : PublicationPlan) (target : GoString) : Prop :=
  ∃ set ∈ plan.rrsets, (set.recordType = .A ∨ set.recordType = .AAAA) ∧
    absoluteOwner E.cases set.name plan.zoneApex = srvTargetOwner E.cases target plan.zoneApex

/-- A static set owns the name in the plan. -/
def PublicationPlan.StaticAt (plan : PublicationPlan) (name uid : GoString) : Prop :=
  ∃ owner ∈ plan.owners, owner.name = name ∧ owner.staticRecordUID ≠ [] ∧ owner.staticRecordUID = uid

section Round

variable (E : Externals) (input : CompileInput) (rejected : GoMap GoString GoString)

/-- The record names a target without an address in the plan of the round. -/
def Lacks (record : RecordEntry) : Prop :=
  ∃ target, record.srvTarget = some target ∧ ¬ (compilePlan E input rejected).plan.HasAddress E target

/-- The contributions that the round publishes. -/
def publishedContributions : List DNSRecordContribution :=
  (contributeAll E input rejected
    (registerAll E input (collectStaticClaims E input rejected))).accepted.map Prod.fst

/-- The sources that the round blames for a missing address. -/
def blamed : List GoString :=
  invalidSRVSources E (compilePlan E input rejected).plan

/-- The static sets that the round publishes. -/
def publishedSets : List DNSRecordSet :=
  input.staticRecords.filter fun rs =>
    rs.zoneRef = input.zone.name ∧ rs.uid ∈ (collectStaticClaims E input rejected).valid

end Round

variable {E : Externals} {input : CompileInput} {rejected : GoMap GoString GoString} {uid : GoString}

/-! ## Whom a round blames -/

/-- A plan blames the contribution of a record, or else the static sets at its name. -/
theorem mem_invalidSRVSources {plan : PublicationPlan} :
    uid ∈ invalidSRVSources E plan ↔ ∃ set ∈ plan.rrsets, set.recordType = .SRV ∧
      ∃ a ∈ attributed set, (∃ target, a.1.srvTarget = some target ∧ ¬ plan.HasAddress E target) ∧
        (a.2 = some uid ∨ a.2 = none ∧ plan.StaticAt set.name uid) := by
  have hsources : ∀ (set : PublicationRRSet) i, uid ∈ srvSources plan set i ↔
      set.contributionUIDs[i]? = some uid ∨
        set.contributionUIDs[i]? = none ∧ plan.StaticAt set.name uid := by
    intro set i
    unfold srvSources PublicationPlan.StaticAt
    cases set.contributionUIDs[i]? with
    | some u => simp [eq_comm]
    | none => simp [and_assoc]
  simp only [invalidSRVSources, attributed, mem_flatMap, mem_filter, mem_map,
    decide_eq_true_eq, and_assoc]
  constructor
  · rintro ⟨set, hset, hsrv, ⟨entry, i⟩, hentry, huid⟩
    cases htarget : entry.srvTarget with
    | none => simp [htarget] at huid
    | some target =>
      simp only [htarget] at huid
      split_ifs at huid with hhas
      · cases huid
      · exact ⟨set, hset, hsrv, _, ⟨(entry, i), hentry, rfl⟩,
          ⟨target, htarget, hhas⟩, (hsources set i).mp huid⟩
  · rintro ⟨set, hset, hsrv, _, ⟨⟨entry, i⟩, hentry, rfl⟩, ⟨target, htarget, hhas⟩, huid⟩
    refine ⟨set, hset, hsrv, (entry, i), hentry, ?_⟩
    unfold PublicationPlan.HasAddress at hhas
    rw [htarget]
    dsimp only
    rw [if_neg hhas]
    exact (hsources set i).mpr huid

section Blame

variable (hapi : input.FromAPI)
include hapi

/-- The static sets that own a name are those with a record there. -/
theorem staticAt_iff {name : GoString} :
    (compilePlan E input rejected).plan.StaticAt name uid ↔
      ∃ rs ∈ publishedSets E input rejected, rs.uid = uid ∧
        ∃ record ∈ rs.records, zoneOwner E.cases record.name (input.apex E) = name := by
  obtain ⟨sets, hsets, hinv⟩ := collectStaticClaims_inv (E := E) hapi rejected
  constructor
  · rintro ⟨owner, howner, rfl, hne, rfl⟩
    obtain ⟨⟨key, holder⟩, -, rfl⟩ := mem_map.mp howner
    cases hclaim : (collectStaticClaims E input rejected).staticClaim.lookup key with
    | none => simp [hclaim] at hne
    | some uid =>
      rw [hinv.same] at hclaim
      obtain ⟨rs, hrs, rfl, hvalid, record, hrecord, rfl⟩ := hinv.held key uid hclaim
      have hmem := hsets.mem_iff.mp hrs
      have hzone := (staticAccepted_of_valid hapi hmem hvalid).ofZone
      exact ⟨rs, mem_filter.mpr ⟨hmem, decide_eq_true ⟨hzone, hvalid⟩⟩, rfl, record, hrecord, rfl⟩
  · rintro ⟨rs, hrs, rfl, record, hrecord, rfl⟩
    obtain ⟨hmem, hvalid⟩ := mem_filter.mp hrs
    have hvalid := (of_decide_eq_true hvalid).2
    have hstatic := (staticAccepted_of_valid (E := E) hapi hmem hvalid).claimed record hrecord
    have hround := round_of_fromAPI (E := E) hapi rejected
    have hclaim := (hround.sets rs hmem hvalid).claimed record hrecord
    refine ⟨_, mem_map.mpr ⟨⟨_, rs.uid⟩, (mem_insertionSort _).mpr
      (mem_lookup_iff.mp hclaim), rfl⟩, ?_⟩
    rw [← hinv.same] at hstatic
    simp only [hstatic]
    refine ⟨rfl, hapi.named _ (mem_append_left _ (mem_append_left _ ?_)), trivial⟩
    exact mem_map_of_mem hmem

section Source

variable {set : PublicationRRSet} (hset : set ∈ (compilePlan E input rejected).plan.rrsets)
  (hsrv : set.recordType = .SRV) {a : RecordEntry × Option GoString} (ha : a ∈ attributed set)
include hset hsrv ha

/-- Where an SRV record of the plan comes from. -/
theorem srv_source :
    (∃ c ∈ publishedContributions E input rejected, a.2 = some c.uid ∧
      ∃ s ∈ c.recordSets, s.recordType = .SRV ∧ ∃ r ∈ s.records, r.srvTarget = a.1.srvTarget) ∨
    a.2 = none ∧ ∃ rs ∈ publishedSets E input rejected, rs.recordType = .SRV ∧
      ∃ r ∈ rs.records, r.srvTarget = a.1.srvTarget ∧
        zoneOwner E.cases r.name (input.apex E) = set.name := by
  obtain ⟨⟨name, rt⟩, -, rfl⟩ := mem_planRRSets hset
  obtain ⟨e, he, rfl⟩ := mem_map.mp ((attributed_entriesAt hapi rejected _).mem_iff.mp ha)
  obtain ⟨he, hkey⟩ := mem_filter.mp he
  rcases mem_append.mp he with he | he
  · obtain ⟨c, hc, he⟩ := mem_flatMap.mp he
    obtain ⟨s, hs, he⟩ := mem_flatMap.mp he
    obtain ⟨r, hr, rfl⟩ := mem_map.mp he
    obtain ⟨-, rfl⟩ := OwnershipKey.mk.inj (of_decide_eq_true hkey)
    exact .inl ⟨c.1, mem_map_of_mem hc, rfl, s, hs, hsrv, r, hr, rfl⟩
  · obtain ⟨rs, hrs, he⟩ := mem_flatMap.mp he
    obtain ⟨r, hr, rfl⟩ := mem_map.mp he
    obtain ⟨rfl, rfl⟩ := OwnershipKey.mk.inj (of_decide_eq_true hkey)
    exact .inr ⟨rfl, rs, hrs, hsrv, r, hr, rfl, rfl⟩

/-- **A record without an address is blamed on somebody.** -/
theorem exists_blamed (hlacks : Lacks E input rejected a.1) : blamed E input rejected ≠ [] := by
  rcases srv_source hapi hset hsrv ha with ⟨c, -, huid, -⟩ | ⟨hnone, rs, hrs, -, r, hr, -, hname⟩
  · exact ne_nil_of_mem (mem_invalidSRVSources.mpr ⟨set, hset, hsrv, a, ha, hlacks, .inl huid⟩)
  · have hat := (staticAt_iff hapi).mpr ⟨rs, hrs, rfl, r, hr, hname⟩
    exact ne_nil_of_mem (mem_invalidSRVSources.mpr
      ⟨set, hset, hsrv, a, ha, hlacks, .inr ⟨hnone, hat⟩⟩)

end Source

/-- **A round blames a source that it has published**: a contribution with a record that lacks an
address, or a static set with a record at the name of such a record. -/
theorem blamed_source (h : uid ∈ blamed E input rejected) :
    (∃ c ∈ publishedContributions E input rejected, c.uid = uid ∧ ∃ s ∈ c.recordSets,
      s.recordType = .SRV ∧ ∃ r ∈ s.records, Lacks E input rejected r) ∨
    ∃ rs ∈ publishedSets E input rejected, rs.recordType = .SRV ∧
      ∃ r ∈ rs.records, Lacks E input rejected r ∧ ∃ rs' ∈ publishedSets E input rejected,
        rs'.uid = uid ∧ ∃ r' ∈ rs'.records, zoneOwner E.cases r'.name (input.apex E) =
          zoneOwner E.cases r.name (input.apex E) := by
  obtain ⟨set, hset, hsrv, a, ha, htarget, hblame⟩ := mem_invalidSRVSources.mp h
  rcases srv_source hapi hset hsrv ha with ⟨c, hc, huid, s, hs, hs', r, hr, hr'⟩ |
    ⟨hnone, rs, hrs, hrs', r, hr, hr', hname⟩
  · rcases hblame with hblame | ⟨hblame, -⟩
    · obtain rfl := Option.some.inj (huid.symm.trans hblame)
      exact .inl ⟨c, hc, rfl, s, hs, hs', r, hr, by rw [Lacks, hr']; exact htarget⟩
    · exact absurd (huid.symm.trans hblame) nofun
  · rcases hblame with hblame | ⟨-, hblame⟩
    · exact absurd (hnone.symm.trans hblame) nofun
    · rw [← hname, staticAt_iff hapi] at hblame
      exact .inr ⟨rs, hrs, hrs', r, hr, by rw [Lacks, hr']; exact htarget, hblame⟩

end Blame

/-! ## The loop -/

/-- The UIDs of the contributions and static sets. -/
def CompileInput.sources (input : CompileInput) : List GoString :=
  input.contributions.map DNSRecordContribution.uid ++ input.staticRecords.map DNSRecordSet.uid

/-- A static set that is rejected is not accepted. -/
theorem reasonOf_of_mem_valid (h : uid ∈ (collectStaticClaims E input rejected).valid) :
    reasonOf rejected uid = [] := by
  by_contra hrejected
  have hinv : reasonOf (collectStaticClaims E input rejected).reasons uid ≠ [] ∧
      uid ∉ (collectStaticClaims E input rejected).valid := by
    refine foldl_invariant (P := fun _ (st : StaticClaims) => reasonOf st.reasons uid ≠ [] ∧
      uid ∉ st.valid) ⟨hrejected, not_mem_nil⟩ ?_
    intro done rs rest st _ ⟨hreason, hvalid⟩
    unfold collectStaticClaim
    split_ifs with hskip
    · exact ⟨hreason, hvalid⟩
    -- the set that is looked at has no reason yet, so it is another one
    have hne : uid ≠ rs.uid := fun huid => hskip (.inr (.inr (huid ▸ hreason)))
    split
    · refine ⟨?_, hvalid⟩
      rw [reasonOf, lookup_insert_ne hne]
      exact hreason
    · exact ⟨hreason, fun hmem => (mem_cons.mp hmem).elim hne hvalid⟩
  exact hinv.2 h

/-- The rejected sources after a round. -/
def reject (E : Externals) (input : CompileInput) (rejected : GoMap GoString GoString) :
    GoMap GoString GoString :=
  (blamed E input rejected).foldl
    (fun m uid => m.insert uid (lit "MissingSRVTargetAddress")) rejected

theorem reasonOf_reject : reasonOf (reject E input rejected) uid =
    if uid ∈ blamed E input rejected then
      lit "MissingSRVTargetAddress" else reasonOf rejected uid := by
  rw [reject, reasonOf, GoMap.lookup_foldl_insert]
  split_ifs <;> rfl

/-- The sources that are not rejected yet. -/
def CompileInput.unrejected (input : CompileInput) (rejected : GoMap GoString GoString) :
    Finset GoString :=
  input.sources.toFinset.filter (reasonOf rejected · = [])

/-- One round of the loop. -/
theorem compileLoop_succ (hzone : validatePrivateZone input.zone = .ok ()) (fuel : Nat) :
    compileLoop E input (fuel + 1) rejected =
      if blamed E input rejected = [] then
        some (.ok (compilePlan E input rejected))
      else compileLoop E input fuel (reject E input rejected) := by
  have hinputs : compileInputs E input rejected = .ok (compilePlan E input rejected) := by
    rw [compileInputs, hzone]
    rfl
  rw [compileLoop, hinputs]
  rfl

section Loop

variable (hapi : input.FromAPI)
include hapi

/-- **Only sources that were not rejected before are blamed.** -/
theorem blamed_fresh (h : uid ∈ blamed E input rejected) :
    uid ∈ input.sources ∧ reasonOf rejected uid = [] := by
  rcases blamed_source hapi h with ⟨c, hc, rfl, -⟩ | ⟨-, -, -, -, -, -, rs, hrs, rfl, -⟩
  · obtain ⟨⟨c, reg⟩, hmem, rfl⟩ := mem_map.mp hc
    obtain ⟨haccepted, hfresh⟩ := contributeAll_accepted hmem
    exact ⟨mem_append_left _ (mem_map_of_mem haccepted.mem), hfresh⟩
  · obtain ⟨hmem, hvalid⟩ := mem_filter.mp hrs
    exact ⟨mem_append_right _ (mem_map_of_mem hmem),
      reasonOf_of_mem_valid (of_decide_eq_true hvalid).2⟩

/-- Each round but the last rejects a source. -/
theorem card_unrejected_lt (h : blamed E input rejected ≠ []) :
    (input.unrejected (reject E input rejected)).card < (input.unrejected rejected).card := by
  obtain ⟨uid, huid⟩ := exists_mem_of_ne_nil _ h
  obtain ⟨hsource, hfresh⟩ := blamed_fresh hapi huid
  refine Finset.card_lt_card ((Finset.ssubset_iff_of_subset fun v hv => ?_).mpr ⟨uid, ?_, ?_⟩)
  · obtain ⟨hv, hreason⟩ := Finset.mem_filter.mp hv
    rw [reasonOf_reject] at hreason
    split_ifs at hreason
    · cases hreason
    · exact Finset.mem_filter.mpr ⟨hv, hreason⟩
  · exact Finset.mem_filter.mpr ⟨mem_toFinset.mpr hsource, hfresh⟩
  · intro hmem
    have hreason := (Finset.mem_filter.mp hmem).2
    rw [reasonOf_reject, if_pos huid] at hreason
    cases hreason

theorem compileLoop_ends (hzone : validatePrivateZone input.zone = .ok ()) {fuel : Nat}
    (hfuel : (input.unrejected rejected).card < fuel) :
    ∃ rejected', compileLoop E input fuel rejected = some (.ok (compilePlan E input rejected')) ∧
      blamed E input rejected' = [] := by
  induction fuel generalizing rejected with
  | zero => omega
  | succ fuel ih =>
    rw [compileLoop_succ hzone]
    split_ifs with hinvalid
    · exact ⟨rejected, rfl, hinvalid⟩
    · have hless := card_unrejected_lt hapi hinvalid
      exact ih (by omega)

end Loop

/-- An SRV record to a host without an address, and a text at the same name. -/
def strandedService : CompileInput where
  zone := corpZone (lit "corp") none
  registrationZoneReferences := ∅
  registrations := []
  contributions := []
  staticRecords := [⟨lit "srv-uid", 0, false, lit "corp", .SRV, [⟨lit "_sip._tcp", none,
      fun _ => lit "0 0 5060 sip.corp.test.", some (lit "sip.corp.test."), []⟩]⟩,
    ⟨lit "txt-uid", 0, false, lit "corp", .TXT, [textRecord (lit "_sip._tcp") (lit "\"v=1\"")]⟩]
  previous := none

/-- **`Compile` ends, and every SRV target has an address.**  The loop takes at most one more round
than there are contributions and static sets. -/
theorem compile_ends (hapi : input.FromAPI) (hzone : validatePrivateZone input.zone = .ok ()) :
    ∃ result, compileLoop E input (input.contributions.length + input.staticRecords.length + 1) ∅ =
        some (.ok result) ∧
      ∀ set ∈ result.plan.rrsets, set.recordType = .SRV → ∀ entry ∈ set.records,
        ∀ target, entry.srvTarget = some target → result.plan.HasAddress E target := by
  have hfuel : (input.unrejected ∅).card <
      input.contributions.length + input.staticRecords.length + 1 := by
    have hsources := (Finset.card_filter_le input.sources.toFinset (reasonOf ∅ · = [])).trans
      (toFinset_card_le input.sources)
    rw [CompileInput.sources, length_append, length_map, length_map] at hsources
    exact Nat.lt_succ_of_le hsources
  obtain ⟨rejected, hcompile, hinvalid⟩ := compileLoop_ends (E := E) hapi hzone hfuel
  refine ⟨_, hcompile, fun set hset hsrv entry hentry target htarget => ?_⟩
  by_contra hmissing
  obtain ⟨a, ha, rfl⟩ := mem_map.mp (map_fst_attributed set ▸ hentry)
  exact exists_blamed hapi hset hsrv ha ⟨target, htarget, hmissing⟩ hinvalid

theorem compile_ends_stranded : ∃ result,
    compileLoop .reference strandedService 3 ∅ = some (.ok result) ∧
      ∀ set ∈ result.plan.rrsets, set.recordType = .SRV → ∀ entry ∈ set.records,
        ∀ target, entry.srvTarget = some target → result.plan.HasAddress .reference target :=
  compile_ends ⟨by decide, by decide⟩ (by decide +kernel)

/-! ## Whose records lack an address -/

/-- The rejected sources with which the rounds of the loop start. -/
def rounds (E : Externals) (input : CompileInput) : Nat → GoMap GoString GoString →
    List (GoMap GoString GoString)
  | 0, _ => []
  | fuel + 1, rejected => rejected ::
    if blamed E input rejected = [] then []
    else rounds E input fuel (reject E input rejected)

/-- An SRV record of the source itself lacks an address in the round. -/
def OwnLacks (E : Externals) (input : CompileInput) (rejected : GoMap GoString GoString)
    (uid : GoString) : Prop :=
  (∃ c ∈ input.contributions, c.uid = uid ∧ ∃ s ∈ c.recordSets, s.recordType = .SRV ∧
    ∃ r ∈ s.records, Lacks E input rejected r) ∨
  ∃ rs ∈ input.staticRecords, rs.uid = uid ∧ rs.recordType = .SRV ∧
    ∃ r ∈ rs.records, Lacks E input rejected r

/-- No static set of another type is at the name of a static SRV record that lacks an address. -/
def SRVApart (E : Externals) (input : CompileInput) (rejected : GoMap GoString GoString) : Prop :=
  ∀ rs ∈ publishedSets E input rejected, rs.recordType = .SRV → ∀ r ∈ rs.records,
    Lacks E input rejected r → ∀ rs' ∈ publishedSets E input rejected, ∀ r' ∈ rs'.records,
      zoneOwner E.cases r'.name (input.apex E) = zoneOwner E.cases r.name (input.apex E) →
        rs'.recordType = .SRV

section

variable (hapi : input.FromAPI)
include hapi

/-- The set of a published key. -/
theorem published_claimed {rs : DNSRecordSet} (hrs : rs ∈ publishedSets E input rejected)
    (hsrv : rs.recordType = .SRV) {r : RecordEntry} (hr : r ∈ rs.records) :
    (collectStaticClaims E input rejected).claims.lookup
      ⟨zoneOwner E.cases r.name (input.apex E), .SRV⟩ = some rs.uid := by
  obtain ⟨hmem, hvalid⟩ := mem_filter.mp hrs
  have hclaim := (staticAccepted_of_valid (E := E) hapi hmem (of_decide_eq_true hvalid).2).claimed r hr
  rwa [keyOf, hsrv] at hclaim

theorem own_of_blamed (hapart : SRVApart E input rejected) (h : uid ∈ blamed E input rejected) :
    OwnLacks E input rejected uid := by
  rcases blamed_source hapi h with ⟨c, hc, rfl, hown⟩ |
    ⟨rs, hrs, hsrv, r, hr, hlacks, rs', hrs', rfl, r', hr', hname⟩
  · obtain ⟨⟨c, reg⟩, hmem, rfl⟩ := mem_map.mp hc
    exact .inl ⟨c, (contributeAll_accepted hmem).1.mem, rfl, hown⟩
  · -- two SRV sets at one name are the same set
    have hclaim := published_claimed hapi hrs hsrv hr
    have hsrv' := hapart rs hrs hsrv r hr hlacks rs' hrs' r' hr' hname
    have hclaim' := published_claimed hapi hrs' hsrv' hr'
    rw [hname, hclaim] at hclaim'
    exact .inr ⟨rs, (mem_filter.mp hrs).1, Option.some.inj hclaim', hsrv, r, hr, hlacks⟩

/-- Every set at the name of a static record that lacks an address is blamed. -/
theorem blamed_of_static {rs rs' : DNSRecordSet} {r r' : RecordEntry}
    (hrs : rs ∈ publishedSets E input rejected) (hsrv : rs.recordType = .SRV) (hr : r ∈ rs.records)
    (hlacks : Lacks E input rejected r) (hrs' : rs' ∈ publishedSets E input rejected)
    (hr' : r' ∈ rs'.records)
    (hname : zoneOwner E.cases r'.name (input.apex E) = zoneOwner E.cases r.name (input.apex E)) :
    rs'.uid ∈ blamed E input rejected := by
  obtain ⟨e, he, hkey, htarget, huid⟩ : ∃ e ∈ publishedEntries E input
      (collectStaticClaims E input rejected) (contributeAll E input rejected
        (registerAll E input (collectStaticClaims E input rejected))),
      e.key = keyOf E (input.apex E) rs.recordType r ∧
        e.record.srvTarget = r.srvTarget ∧ e.uid = none :=
    ⟨_, mem_append_right _ (mem_flatMap.mpr ⟨rs, hrs, mem_map_of_mem hr⟩), rfl, rfl, rfl⟩
  have hentry : e ∈ entriesAt E input rejected e.key := mem_filter.mpr ⟨he, decide_eq_true rfl⟩
  have hset : publicationRRSet e.key (entriesAt E input rejected e.key) ∈
      (compilePlan E input rejected).plan.rrsets := by
    refine (mem_insertionSort _).mpr (mem_map.mpr ⟨⟨e.key, _⟩, ?_, rfl⟩)
    exact mem_lookup_iff.mp (GoMap.lookup_group_of_mem he)
  refine mem_invalidSRVSources.mpr ⟨_, hset, ?_, (e.record, e.uid), ?_, ?_, .inr ⟨huid, ?_⟩⟩
  · exact (congrArg OwnershipKey.rrtype hkey).trans hsrv
  · exact (attributed_entriesAt hapi rejected e.key).mem_iff.mpr (mem_map_of_mem hentry)
  · rw [htarget]
    exact hlacks
  · exact (staticAt_iff hapi).mpr
      ⟨rs', hrs', rfl, r', hr', hname.trans (congrArg OwnershipKey.name hkey).symm⟩

/-- A static set of another type has no SRV record of its own. -/
theorem not_ownLacks {rs : DNSRecordSet} (hrs : rs ∈ input.staticRecords)
    (hother : rs.recordType ≠ .SRV) : ¬ OwnLacks E input rejected rs.uid := by
  rintro (⟨c, hc, huid, -⟩ | ⟨rs', hrs', huid, hsrv, -⟩)
  · exact (nodup_append.mp hapi.distinct).2.2 _ (mem_append_left _ (mem_map_of_mem hrs)) _
      (mem_map_of_mem hc) huid.symm
  · obtain rfl := inj_on_of_nodup_map hapi.distinct.of_append_left.of_append_left hrs' hrs huid
    exact hother hsrv

end

/-! ## The reasons -/

/-- The reasons `after` blame `uid` for a missing address only if those `before` do, and if it is a
static set then also the other way. -/
structure KeepsBlame (input : CompileInput) (uid : GoString) (before after : GoMap GoString GoString) :
    Prop where
  old : reasonOf after uid = lit "MissingSRVTargetAddress" →
    reasonOf before uid = lit "MissingSRVTargetAddress"
  kept : uid ∈ input.staticRecords.map DNSRecordSet.uid →
    reasonOf before uid = lit "MissingSRVTargetAddress" →
    reasonOf after uid = lit "MissingSRVTargetAddress"

theorem KeepsBlame.insert {before after : GoMap GoString GoString}
    (h : KeepsBlame input uid before after) {u reason : GoString} (hreason : reason ≠ lit "MissingSRVTargetAddress")
    (hother : u = uid → uid ∈ input.staticRecords.map DNSRecordSet.uid →
      reasonOf before uid ≠ lit "MissingSRVTargetAddress") :
    KeepsBlame input uid before (after.insert u reason) := by
  by_cases hu : uid = u
  · subst hu
    refine ⟨fun hafter => absurd ?_ hreason, fun hstatic hbefore => absurd hbefore (hother rfl hstatic)⟩
    rwa [reasonOf, lookup_insert] at hafter
  · have hsame : reasonOf (after.insert u reason) uid = reasonOf after uid := by
      rw [reasonOf, lookup_insert_ne hu, reasonOf]
    exact ⟨fun hafter => h.old (hsame ▸ hafter), fun hstatic hbefore => hsame ▸ h.kept hstatic hbefore⟩

theorem staticRecord_reason {claims : Claims} {rs : DNSRecordSet} {pending : GoMap OwnershipKey Int}
    {r : RecordEntry} :
    staticRecord E input claims rs pending r ≠ .error (lit "MissingSRVTargetAddress") := by
  simp +decide [staticRecord, Except.bind_eq_error, failIf_eq_error]

theorem checkRegistration_reason {claims : Claims} {reg : DNSRegistration} :
    checkRegistration E input claims reg ≠ .error (lit "MissingSRVTargetAddress") := by
  unfold checkRegistration
  split_ifs <;> simp +decide [Except.bind_eq_error, failIf_eq_error]

theorem validateContribution_reason {c : DNSRecordContribution} {reg : Option DNSRegistration}
    {previous : Option ContributionFence} :
    validateContribution c reg previous ≠ lit "MissingSRVTargetAddress" := by
  unfold validateContribution
  split_ifs <;> decide

/-- **The compiler gives no other source the reason**, and leaves it to the static sets that have it. -/
theorem keepsBlame_reasons (hapi : input.FromAPI) (rejected : GoMap GoString GoString)
    (uid : GoString) : KeepsBlame input uid rejected (compilePlan E input rejected).reasons := by
  obtain ⟨hall, -, hdisjoint⟩ := nodup_append.mp hapi.distinct
  obtain ⟨-, -, hdisjoint'⟩ := nodup_append.mp hall
  have hstatic : KeepsBlame input uid rejected (collectStaticClaims E input rejected).reasons := by
    refine foldl_invariant (P := fun _ (st : StaticClaims) => KeepsBlame input uid rejected st.reasons)
      ⟨id, fun _ => id⟩ fun done rs rest st _ ih => ?_
    unfold collectStaticClaim
    split_ifs with hskip
    · exact ih
    split
    · rename_i reason hreason
      refine ih.insert ?_ fun huid hmem hbefore => hskip (.inr (.inr ?_))
      · rintro rfl
        exact loop_ne_error (fun _ _ _ => staticRecord_reason) hreason
      · rw [huid, ih.kept hmem hbefore]
        nofun
    · exact ih
  have hregistered : KeepsBlame input uid rejected
      (registerAll E input (collectStaticClaims E input rejected)).reasons := by
    refine foldl_invariant (P := fun _ (st : Registered) => KeepsBlame input uid rejected st.reasons)
      hstatic fun done reg rest st hsplit ih => ?_
    unfold register
    split
    · rename_i reason hreason
      refine ih.insert (fun h => checkRegistration_reason (h ▸ hreason)) fun huid hmem => ?_
      have hsorted : reg ∈ done ++ reg :: rest := by simp
      rw [← hsplit] at hsorted
      have hreg : reg ∈ input.registrations := (mem_insertionSort _).mp hsorted
      exact absurd huid.symm (hdisjoint' uid hmem _ (mem_map_of_mem hreg))
    · exact ih
    · split_ifs <;> exact ih
  refine foldl_invariant (P := fun _ (st : Contributed) => KeepsBlame input uid rejected st.reasons)
    hregistered fun done c rest st hsplit ih => ?_
  have hrefuse : ∀ reason, reason ≠ lit "MissingSRVTargetAddress" →
      KeepsBlame input uid rejected (st.reasons.insert c.uid reason) := by
    refine fun reason hreason => ih.insert hreason fun huid hmem => ?_
    have hc : c ∈ input.contributions := by
      rw [hsplit]
      simp
    exact absurd huid.symm (hdisjoint uid (mem_append_left _ hmem) _ (mem_map_of_mem hc))
  unfold contribute
  dsimp only
  split
  · split_ifs
    · exact ih
    · exact hrefuse _ (by decide)
    · exact ih
    · exact hrefuse _ (by decide)
    · exact hrefuse _ (by decide)
  · exact hrefuse _ validateContribution_reason

/-- The loop returns the plan of its last round, which rejects all that any round has blamed. -/
theorem compileLoop_last (hzone : validatePrivateZone input.zone = .ok ()) {fuel : Nat}
    {result : CompileResult} (h : compileLoop E input fuel rejected = some (.ok result)) :
    ∃ last, result = compilePlan E input last ∧ ∀ uid, reasonOf last uid =
      if ∃ r ∈ rounds E input fuel rejected, uid ∈ blamed E input r then
        lit "MissingSRVTargetAddress" else reasonOf rejected uid := by
  induction fuel generalizing rejected with
  | zero => cases h
  | succ fuel ih =>
    rw [compileLoop_succ hzone] at h
    split_ifs at h with hinvalid
    · refine ⟨rejected, (Except.ok.inj (Option.some.inj h)).symm, fun uid => ?_⟩
      simp [rounds, hinvalid]
    · obtain ⟨last, hlast, hreason⟩ := ih h
      refine ⟨last, hlast, fun uid => ?_⟩
      rw [hreason, reasonOf_reject, rounds, if_neg hinvalid]
      simp only [exists_mem_cons_iff]
      by_cases hrest : ∃ r ∈ rounds E input fuel (reject E input rejected), uid ∈ blamed E input r
      · rw [if_pos hrest, if_pos (.inr hrest)]
      by_cases hhere : uid ∈ blamed E input rejected
      · rw [if_neg hrest, if_pos hhere, if_pos (.inl hhere)]
      · rw [if_neg hrest, if_neg hhere, if_neg (not_or.mpr ⟨hhere, hrest⟩)]

theorem compile_strandedService : ∃ result, compile .reference strandedService = some (.ok result) ∧
    reasonOf result.reasons (lit "txt-uid") = lit "MissingSRVTargetAddress" :=
  exists_ok_of_any (by decide +kernel)

end InternalDNS.Controlplane
