import InternalDNS.Checkpoint

/-! # Keeping the approved configuration

When an update cannot be installed, the agent may keep serving the configuration it approved
before, but only if the new desired state withdraws nothing that it serves.  `canRetainActive`
makes that decision.

`retained_answers_authorised` is what the decision is for: whatever the approved configuration
holds as private data is still part of the desired state.  Records are compared by one string
that joins name, type and content with NUL characters, so the result needs names and types
without NUL; `joined_key_is_ambiguous` shows that it fails otherwise.
-/
namespace InternalDNS

open Go List

variable (hash : GoString → GoString)

/-- The text that `canRetainActive` compares records by. -/
def recordKey (rr : RRSet) (record : RRRecord) : GoString :=
  rr.name ++ '\x00' :: (rr.type ++ '\x00' :: record.content)

/-- An approved zone is still attached to the candidate, unless it was pending. -/
def zoneRetained (candidate : Binding) (zone : ZoneAttachment) : Bool :=
  zone.pending || candidate.zones.any fun attached =>
    attached.zoneUID = zone.zoneUID && attached.apex = zone.apex && !attached.pending

/-- An approved binding is still in the snapshot, unless it answered nothing. -/
def bindingRetained (next : GoMap GoString Binding) (binding : Binding) : Bool :=
  binding.tombstone || binding.configurationPending ||
    (next.lookup binding.bindingUID).any fun candidate =>
      !candidate.tombstone && !candidate.configurationPending &&
        bindingIdentity hash binding = bindingIdentity hash candidate &&
        binding.version = candidate.version && binding.zones.all (zoneRetained candidate)

/-- Every eligible record of an approved publication is still eligible. -/
def publicationRetained (current : GoMap GoString PublicationState) (uid : GoString)
    (publication : PublicationState) : Bool :=
  publication.manifest.tombstone || (current.lookup uid).any fun candidate =>
    !candidate.manifest.tombstone && candidate.plan.apex = publication.plan.apex &&
      publication.plan.eligibleRecords.all fun (rr, record) =>
        recordKey rr record ∈ candidate.plan.eligibleRecords.map fun (rr, record) =>
          recordKey rr record

/-- `Agent.canRetainActive` of an agent that is or is not configured as authoritative. -/
def Checkpoint.canRetainActive (nodeAuthoritative : Bool) (state : Checkpoint) : Bool :=
  match state.active, state.snapshot with
  | some old, some snapshot =>
    old.nodeAuthoritative = nodeAuthoritative &&
      let next := snapshot.bindings.foldl (fun m b => m.insert b.bindingUID b)
        (∅ : GoMap GoString Binding)
      old.snapshot.bindings.all (bindingRetained hash next) &&
      old.publications.entries.all fun e => publicationRetained state.publications e.1 e.2
  | _, _ => false

/-! ## What is kept -/

variable {hash}

/-- The names and types of a publication have no NUL in them. -/
def PublicationState.NulFree (p : PublicationState) : Prop :=
  ∀ rr ∈ p.plan.rrsets, '\x00' ∉ rr.name ∧ '\x00' ∉ rr.type

theorem mem_eligibleRecords {plan : PublicationPlan} {rr : RRSet} {record : RRRecord} :
    (rr, record) ∈ plan.eligibleRecords ↔
      rr ∈ plan.rrsets ∧ record ∈ rr.records ∧ record.eligible = true := by
  simp only [PublicationPlan.eligibleRecords, mem_flatMap, mem_map, mem_filter, Prod.mk.injEq]
  constructor
  · rintro ⟨rr', hrr, record', ⟨hrec, helig⟩, rfl, rfl⟩
    exact ⟨hrr, hrec, helig⟩
  · rintro ⟨hrr, hrec, helig⟩
    exact ⟨rr, hrr, record, ⟨hrec, helig⟩, rfl, rfl⟩

/-- Without NUL in names and types the joined text tells records apart. -/
theorem recordKey_inj {rr rr' : RRSet} {record record' : RRRecord}
    (hrr : '\x00' ∉ rr.name ∧ '\x00' ∉ rr.type) (hrr' : '\x00' ∉ rr'.name ∧ '\x00' ∉ rr'.type)
    (h : recordKey rr record = recordKey rr' record') :
    rr.name = rr'.name ∧ rr.type = rr'.type ∧ record.content = record'.content := by
  obtain ⟨hname, h⟩ := append_separator_inj hrr.1 hrr'.1 h
  obtain ⟨htype, hcontent⟩ := append_separator_inj hrr.2 hrr'.2 h
  exact ⟨hname, htype, hcontent⟩

/-- The desired binding that stands for an approved one: live, with the same source and listeners
and the same access version. -/
structure Binding.StandsFor (b old : Binding) : Prop where
  bindingUID : b.bindingUID = old.bindingUID
  live : b.tombstone = false
  configured : b.configurationPending = false
  projectUID : b.projectUID = old.projectUID
  contextUID : b.contextUID = old.contextUID
  consumerAddress : b.consumerAddress = old.consumerAddress
  clusterAddress : b.clusterAddress = old.clusterAddress
  port : b.port = old.port
  transports : b.transports.Perm old.transports
  version : b.version = old.version

/-- The desired state still attaches the zone to the binding. -/
def Binding.StillAttaches (b : Binding) (zone : ZoneAttachment) : Prop :=
  ∃ z ∈ b.zones, z.zoneUID = zone.zoneUID ∧ z.apex = zone.apex ∧ z.pending = false

/-- The desired state still publishes the record in the zone. -/
def Checkpoint.StillPublishes (state : Checkpoint) (zoneUID : GoString) (rr : RRSet)
    (record : RRRecord) : Prop :=
  ∃ p, state.publications.lookup zoneUID = some p ∧ p.manifest.tombstone = false ∧
    ∃ rr' record', (rr', record') ∈ p.plan.eligibleRecords ∧ rr'.name = rr.name ∧
      rr'.type = rr.type ∧ record'.content = record.content

/-- What the test on an approved binding that answers says about the snapshot. -/
theorem standsFor_of_bindingRetained (hinj : Function.Injective hash) {bindings : List Binding}
    {old : Binding}
    (h : bindingRetained hash (bindings.foldl (fun m b => m.insert b.bindingUID b) ∅) old = true)
    (hlive : old.tombstone = false) (hconfigured : old.configurationPending = false) :
    ∃ b ∈ bindings, b.StandsFor old ∧
      ∀ zone ∈ old.zones, zone.pending = false → b.StillAttaches zone := by
  simp only [bindingRetained, hlive, hconfigured, Bool.false_or, Option.any_eq_true,
    Bool.and_eq_true, Bool.not_eq_true', decide_eq_true_eq, all_eq_true] at h
  obtain ⟨b, hlookup, ⟨⟨⟨htomb, hpending⟩, hidentity⟩, hversion⟩, hzones⟩ := h
  obtain ⟨x, hx, huid, rfl⟩ := GoMap.lookup_fill hlookup
  obtain ⟨hproject, hcontext, hconsumer, hcluster, hport, htransports⟩ :=
    identityText_inj (hinj hidentity)
  refine ⟨x, hx, ⟨huid, htomb, hpending, hproject.symm,
    hcontext.symm, hconsumer.symm, hcluster.symm, hport.symm, htransports.symm,
    hversion.symm⟩, fun zone hzone hserved => ?_⟩
  have hz := hzones zone hzone
  simp only [zoneRetained, hserved, Bool.false_or, any_eq_true, Bool.and_eq_true,
    decide_eq_true_eq, Bool.not_eq_true'] at hz
  obtain ⟨z, hmem, ⟨hzuid, hapex⟩, hzp⟩ := hz
  exact ⟨z, hmem, hzuid, hapex, hzp⟩

theorem stillPublishes_of_publicationRetained {state : Checkpoint} {uid : GoString}
    {publication : PublicationState}
    (h : publicationRetained state.publications uid publication = true)
    (htomb : publication.manifest.tombstone = false) (hold : publication.NulFree)
    (hnew : ∀ p, state.publications.lookup uid = some p → p.NulFree) :
    ∀ rr record, (rr, record) ∈ publication.plan.eligibleRecords →
      state.StillPublishes uid rr record := by
  intro rr record hserved
  simp only [publicationRetained, htomb, Bool.false_or, Option.any_eq_true, Bool.and_eq_true,
    Bool.not_eq_true', all_eq_true, decide_eq_true_eq] at h
  obtain ⟨p, hp, ⟨hptomb, -⟩, hrecords⟩ := h
  obtain ⟨⟨rr', record'⟩, hmem, hkey⟩ := mem_map.mp (hrecords _ hserved)
  have hrr := hold rr (mem_eligibleRecords.mp hserved).1
  have hrr' := hnew p hp rr' (mem_eligibleRecords.mp hmem).1
  exact ⟨p, hp, hptomb, rr', record', hmem, recordKey_inj hrr' hrr hkey⟩

variable {E : Externals} {r : CoreDNSRole} {c : CoreDNSRenderConfig}

/-- **A kept configuration answers nothing that was withdrawn.**  Take any data that a context of
the approved configuration answers from: it is the text of the approved publication of an attached
zone, the desired state still has the binding with its destination, source and access version,
still attaches the zone, and still publishes every record in the text. -/
theorem retained_answers_authorised (hinj : Function.Injective E.hash) {authoritative : Bool}
    {state : Checkpoint} {active : ActiveConfiguration} (hactive : state.active = some active)
    (hretain : state.canRetainActive E.hash authoritative = true)
    (hold : ∀ uid p, active.publications.lookup uid = some p → p.NulFree)
    (hnew : ∀ uid p, state.publications.lookup uid = some p → p.NulFree)
    {cfg : Config}
    (hcfg : renderLiveBindings E r c active.snapshot active.publications = .ok cfg)
    {context : Context} (hcontext : context ∈ cfg.contexts) (hanswers : context.pending = false)
    (hforwards : context.upstreams = []) {zone : Zone} (hzone : zone ∈ context.zones)
    (hserved : zone.pending = false) :
    ∃ snapshot, state.snapshot = some snapshot ∧ ∃ b ∈ snapshot.bindings,
      ∃ old ∈ active.snapshot.live, ∃ attachment ∈ old.zones, ∃ p,
      active.publications.lookup attachment.zoneUID = some p ∧ zone.data = zoneText E p ∧
      context.destination = r.destination b ∧ b.StandsFor old ∧
      zone.apex = absoluteName E.cases attachment.apex ∧ b.StillAttaches attachment ∧
      ∀ rr record, (rr, record) ∈ p.plan.eligibleRecords →
        state.StillPublishes attachment.zoneUID rr record := by
  obtain ⟨old, hlive, z, hz, p, hp, hdest, hpending, hapex, hdata⟩ :=
    rendered_data hcfg hcontext hforwards hzone hserved
  obtain ⟨hlookup, hzpending, htomb, -⟩ := servedPublication_eq_some.mp hp
  cases hsnapshot : state.snapshot with
  | none => simp [Checkpoint.canRetainActive, hactive, hsnapshot] at hretain
  | some snapshot =>
  simp only [Checkpoint.canRetainActive, hactive, hsnapshot, Bool.and_eq_true,
    all_eq_true] at hretain
  obtain ⟨-, hbindings, hpublications⟩ := hretain
  obtain ⟨hmem, holdlive⟩ := mem_filter.mp hlive
  obtain ⟨b, hb, hstands, hattaches⟩ := standsFor_of_bindingRetained hinj (hbindings old hmem)
    (by simpa using holdlive) (hpending ▸ hanswers)
  have hentry := hpublications ⟨z.zoneUID, p⟩ (AList.mem_lookup_iff.mp hlookup)
  refine ⟨snapshot, rfl, b, hb, old, hlive, z, hz, p, hlookup, hdata, ?_, hstands, hapex,
    hattaches z hz hzpending,
    stillPublishes_of_publicationRetained hentry htomb (hold _ p hlookup) (hnew _)⟩
  rw [hdest]
  cases r with
  | node authoritative => exact hstands.consumerAddress.symm
  | cluster => exact hstands.clusterAddress.symm

/-- An agent that approved the two tenants on an authoritative node, with what it now holds as the
desired state. -/
def approvedTenants (approved current : PublicationState) : Checkpoint where
  active := some ⟨twoTenants, (∅ : GoMap GoString PublicationState).insert (lit "zone") approved,
    ∅, true⟩
  withdrawing := none
  formatVersion := 7
  servingFence := ⟨1, 1⟩
  snapshot := some twoTenants
  publications := (∅ : GoMap GoString PublicationState).insert (lit "zone") current
  chunks := ∅
  acks := ∅
  bindingFences := ∅
  contributionFences := ∅
  renderedHash := []
  updatedAt := 1

/-- The publication of one TXT record. -/
def textPublication (name content : GoString) : PublicationState :=
  { addressPublication with
    plan := { addressPublication.plan with
      owners := []
      rrsets := [⟨name, lit "TXT", 5, [⟨content, [], 0, 0, true⟩]⟩] } }

/-- The context of the first tenant as it was approved. -/
def approvedContext : Context where
  id := (tenantBinding "a" "fd70::1" "10.0.0.1" []).viewName .reference
  destination := lit "fd70::1"
  pending := false
  upstreams := []
  zones := [⟨lit "corp.internal.", false, zoneText .reference addressPublication⟩]

/-- If the desired state is unchanged, the tenant's zone is still attached and its address record
still published. -/
theorem retained_answers_authorised_unchanged :
    ∃ cfg, renderLiveBindings .reference (.node true) loopbackMember twoTenants onePublication =
        .ok cfg ∧ approvedContext ∈ cfg.contexts ∧
      ∃ b ∈ twoTenants.bindings, b.consumerAddress = lit "fd70::1" ∧ b.tombstone = false := by
  have hclean : ∀ uid p, onePublication.lookup uid = some p → p.NulFree := by
    intro uid p hp
    by_cases huid : uid = lit "zone"
    · rw [huid, onePublication, AList.lookup_insert] at hp
      cases hp
      intro rr hrr
      obtain rfl := mem_singleton.mp hrr
      decide
    · rw [onePublication, AList.lookup_insert_ne huid] at hp
      simp at hp
  have hcfg : renderLiveBindings .reference (.node true) loopbackMember twoTenants onePublication =
      .ok { coreDNSConfig loopbackMember with
        contexts := [approvedContext,
          ⟨(tenantBinding "b" "fd70::2" "10.0.0.2" []).viewName .reference, lit "fd70::2", false, [],
            []⟩] } := by decide +kernel
  obtain ⟨snapshot, hsnapshot, b, hb, old, -, -, -, -, -, -, hdest, hstands, -⟩ :=
    retained_answers_authorised (E := .reference) (r := .node true) (c := loopbackMember)
      (fun _ _ h => h)
      (rfl : (approvedTenants addressPublication addressPublication).active = some _)
      (by decide +kernel : Checkpoint.canRetainActive _ true _ = true) hclean hclean hcfg
      (mem_cons_self ..) rfl rfl (mem_cons_self ..) rfl
  cases hsnapshot
  exact ⟨_, hcfg, mem_cons_self .., b, hb, hdest.symm, hstands.live⟩

/-- Two different records have one joined text.  The approved record is no longer published under
its name, and the approved configuration is kept. -/
theorem joined_key_is_ambiguous :
    let approved := textPublication (lit "n.corp.internal") (lit "a.corp.internal\x00TXT\x00foo")
    let current := textPublication (lit "n.corp.internal\x00TXT\x00a.corp.internal") (lit "foo")
    approved.plan.validate .reference = .ok () ∧ current.plan.validate .reference = .ok () ∧
      (approvedTenants approved current).canRetainActive Externals.reference.hash true = true ∧
      (renderLiveBindings .reference (.node true) loopbackMember twoTenants
          ((∅ : GoMap GoString PublicationState).insert (lit "zone") approved)).toOption.any
        (fun cfg => cfg.contexts.any fun context => !context.pending && context.upstreams = [] &&
          context.zones.any fun zone => !zone.pending && zone.data = zoneText .reference approved) ∧
      ∃ rr record, (rr, record) ∈ approved.plan.eligibleRecords ∧
        ∀ e ∈ current.plan.eligibleRecords, e.1.name ≠ rr.name := by
  refine ⟨by decide +kernel, by decide +kernel, by decide +kernel, by decide +kernel, _, _,
    mem_singleton.mpr rfl, by decide +kernel⟩

end InternalDNS
