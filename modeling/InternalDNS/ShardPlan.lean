import InternalDNS.ResolverBindings
import InternalDNS.ServingSnapshot

/-! # The plan of a shard

The planner of a shard puts the bindings of all tenants on the shard into one snapshot.  A zone is
attached once the publication of the zone targets the shard, and until then it is pending, so that
its namespace is reserved; a binding with a zone whose apex is not known serves nothing at all, but
stays in the snapshot.  What does not fit into the budgets is left out by `fitSnapshot`.

`planSnapshot` is the part of `Planner.Step` between its reads and its writes.  `planSnapshot_eq_ok`
says which bindings a plan has: one for every stored binding of the shard that the prior snapshot
had, none that is being deleted, and each either as it is stored or as it was in the prior snapshot.
-/
namespace InternalDNS.Platform

open Go Except

/-- `platform.PlannerConfig`, without what concerns leases and names. -/
structure PlannerConfig where
  region : GoString
  shard : GoString
  nodeBackends : List Backend
  clusterBackends : List Backend
  members : List Member
  memberPatterns : List MemberPattern
  maxBindings : Int
  maxSnapshotBytes : Int

variable (c : PlannerConfig)

/-- The budgets with their defaults. -/
def PlannerConfig.budgets : Budgets where
  maxBindings := if c.maxBindings ≤ 0 then 256 else c.maxBindings.toNat
  maxBytes := if c.maxSnapshotBytes ≤ 0 then 512 * 1024 else c.maxSnapshotBytes.toNat

/-- `platform.shardState`. -/
structure ShardState where
  holder : GoString
  epoch : Nat
  nextRevision : Nat
  leaseUntil : Time
  activeOutbox : GoString
  contentHash : GoString
  deriving DecidableEq

/-- What the planner reads of an active manifest. -/
structure ActiveManifest where
  name : GoString
  zoneUID : GoString
  zoneApex : GoString
  writerEpoch : Nat
  revision : Nat
  tombstone : Bool
  servingTargets : List (GoString × GoString)

/-- The active manifest of each zone, if its ownership names one and it is found. -/
abbrev Publications := GoString → Option ActiveManifest

variable (E : Externals)

/-- `strings.Trim(name, "-")`. -/
def trimDashes (s : GoString) : GoString := (s.dropWhile (· = '-')).rdropWhile (· = '-')

/-- `model.PublicationActivationName`. -/
def publicationActivationName (manifest region shard : GoString) : GoString :=
  let name := manifest ++ '-' :: safeToken E region ++ '-' :: safeToken E shard ++ lit "-activate"
  if name.length ≤ 63 then trimDashes name
  else trimDashes (name.take 50) ++ '-' :: (E.hash name).take 12

variable {E}

/-- The zone as the prior form of the binding requires it: record updates do not change the minimum
activation dependency of a view. -/
def keepRequirement (old : Option Binding) (generation : Nat) (attachment : ZoneAttachment) :
    ZoneAttachment :=
  match old with
  | none => attachment
  | some old =>
    if old.bindingGeneration ≠ generation then attachment
    else old.zones.foldl (fun a z =>
      if !z.pending && z.zoneUID = a.zoneUID && z.apex = a.apex then
        { a with
          requiredPublicationEpoch := z.requiredPublicationEpoch
          requiredPublicationRevision := z.requiredPublicationRevision }
      else a) attachment

/-- The manifest that the zone is attached with, if it is of this zone and targets the shard. -/
def usableManifest (publications : Publications) (uid : GoString) :
    Option ActiveManifest :=
  (publications uid).filter fun m =>
    m.zoneUID = uid && !m.tombstone && m.servingTargets.contains (c.region, c.shard)

/-- One zone of a binding; `none` if nothing is known of it, not even the apex. -/
def attachZone (publications : Publications) (spec : ResolverBindingSpec) (old : Option Binding)
    (zoneRef : ObjectReference) : Option ZoneAttachment :=
  match usableManifest c publications zoneRef.uid with
  | some m => some (keepRequirement old spec.generation
      ⟨false, zoneRef.uid, m.zoneApex, m.writerEpoch, m.revision⟩)
  | none =>
    let apex := (spec.zoneApices.lookup zoneRef.uid).getD []
    if apex = [] then none else some ⟨true, zoneRef.uid, apex, 1, 1⟩

/-- The view without its zones. -/
def bareView (o : ResolverBinding) : Binding where
  bindingUID := o.uid
  projectUID := o.spec.projectUID
  contextUID := o.spec.resolverContextRef.uid
  bindingGeneration := o.spec.generation
  configurationRevision := o.spec.revision
  consumerAddress := o.spec.nodeAddress
  clusterAddress := o.spec.regionalAddress
  port := 53
  transports := [lit "UDP", lit "TCP"]
  zones := []
  nodeBackends := c.nodeBackends
  clusterBackends := c.clusterBackends
  version := o.spec.version
  tombstone := o.spec.tombstone
  configurationPending := false

/-- The view of a binding. -/
def bindingView (publications : Publications) (prior : GoMap GoString Binding) (o : ResolverBinding)
    : Binding :=
  if o.spec.tombstone then bareView c o
  else
    let zones := o.spec.zoneRefs.map (attachZone c publications o.spec (prior.lookup o.uid))
    if zones.all Option.isSome then
      { bareView c o with
        zones := (zones.filterMap id).insertionSort fun y z => y.zoneUID ≤ z.zoneUID }
    else { bareView c o with configurationPending := true }

variable (E) in
/-- The activation that each attached zone waits for. -/
def activations (c : PlannerConfig) (publications : Publications) (selected : List ResolverBinding) :
    GoMap GoString GoString :=
  (selected.filter (!·.spec.tombstone)).foldl (fun m o =>
    o.spec.zoneRefs.foldl (fun m zoneRef =>
      match usableManifest c publications zoneRef.uid with
      | some manifest =>
        m.insert zoneRef.uid (publicationActivationName E manifest.name c.region c.shard)
      | none => m) m) ∅

variable (E) in
/-- The binding is listed by its labels, is placed on the shard and is not being deleted. -/
def selects (c : PlannerConfig) (o : ResolverBinding) : Bool :=
  (o.labels.region = safeToken E c.region && o.labels.shard = safeToken E c.shard) &&
    (o.spec.region = c.region && o.spec.shard = c.shard && !o.deleting)

variable (E) in
/-- The snapshot before it is fitted. -/
def candidate (c : PlannerConfig) (state : ShardState) (now : Time) (listed : List ResolverBinding)
    (publications : Publications) (prior : ServingSnapshot) : ServingSnapshot where
  region := c.region
  shard := c.shard
  configurationEpoch := state.epoch
  configurationRevision := state.nextRevision
  bindings := ((listed.filter (selects E c)).map
    (bindingView c publications (byUID prior.bindings))).insertionSort
      fun a b => a.bindingUID ≤ b.bindingUID
  members := c.members.insertionSort fun a b => a.memberID ≤ b.memberID
  memberPatterns := c.memberPatterns
  requiredPublications := []
  generatedAt := now

/-- The requirement of one attached zone; the accumulator is the activations and the highest
requirement of each zone. -/
def requireZone (activations : GoMap GoString GoString)
    (acc : List GoString × GoMap GoString PublicationRequirement) (zone : ZoneAttachment) :
    Except GoString (List GoString × GoMap GoString PublicationRequirement) :=
  if zone.pending then .ok acc
  else do
    let activation := (activations.lookup zone.zoneUID).getD []
    failIf (activation = []) (lit "zone " ++ zone.zoneUID ++ lit " has no publication activation")
    let requirement : PublicationRequirement :=
      ⟨zone.zoneUID, zone.requiredPublicationEpoch, zone.requiredPublicationRevision⟩
    let old := acc.2.lookup zone.zoneUID
    let higher := compare requirement.epoch requirement.revision
      (old.elim 0 PublicationRequirement.epoch) (old.elim 0 PublicationRequirement.revision) > 0
    .ok (activation :: acc.1,
      if higher then acc.2.insert zone.zoneUID requirement else acc.2)

/-- `platform.publicationDependencies`: the snapshot with what it requires, and the outboxes it
depends on. -/
def publicationDependencies (snapshot : ServingSnapshot) (activations : GoMap GoString GoString) :
    Except GoString (ServingSnapshot × List GoString) := do
  let (dependencies, requirements) ← loop (requireZone activations) ([], ∅)
    (snapshot.bindings.flatMap Binding.zones)
  .ok ({ snapshot with
      requiredPublications := (requirements.entries.map Sigma.snd).insertionSort
        fun a b => a.zoneUID ≤ b.zoneUID },
    dependencies.dedup.insertionSort (· ≤ ·))

variable (E) in
/-- What `Planner.Step` computes from what it has read: the snapshot and its dependencies. -/
def planSnapshot (c : PlannerConfig) (state : ShardState) (now : Time) (listed : List ResolverBinding)
    (publications : Publications) (prior : ServingSnapshot) :
    Except GoString (ServingSnapshot × List GoString) :=
  match fitSnapshot E (candidate E c state now listed publications prior) prior c.budgets with
  | .error failure => .error failure.text
  | .ok (fitted, _) => do
    let (snapshot, dependsOn) ← publicationDependencies fitted
      (activations E c publications (listed.filter (selects E c)))
    snapshot.validate E
    .ok (snapshot, dependsOn)

variable (E) in
/-- The JSON text of a `model.ServingSnapshot`. -/
def snapshotJSON (s : ServingSnapshot) : GoString := jsonObject <|
  [(lit "region", jsonString s.region), (lit "shard", jsonString s.shard),
    (lit "configurationEpoch", itoa s.configurationEpoch),
    (lit "configurationRevision", itoa s.configurationRevision),
    (lit "bindings", jsonSlice (s.bindings.map bindingJSON)),
    (lit "members", jsonSlice (s.members.map memberJSON))] ++
  omitEmpty s.memberPatterns.isEmpty (lit "memberPatterns")
    (jsonSlice (s.memberPatterns.map memberPatternJSON)) ++
  omitEmpty s.requiredPublications.isEmpty (lit "requiredPublications")
    (jsonSlice (s.requiredPublications.map requirementJSON)) ++
  [(lit "generatedAt", E.timeJSON s.generatedAt)]

variable (E) in
/-- The hash by which a plan is compared with what is published: of the text without time and
number. -/
def contentHash (s : ServingSnapshot) : GoString :=
  E.hash (snapshotJSON E { s with generatedAt := 0, configurationEpoch := 0, configurationRevision := 0 })

variable (E) in
/-- The name of an outbox of the shard. -/
def outboxName (region shard : GoString) (epoch revision : Nat) : GoString :=
  lit "dns-serving-" ++ E.opaqueToken (region ++ '/' :: shard) ++ lit "-e" ++ itoa epoch ++ lit "-r" ++
    itoa revision

variable (E) in
/-- The name of the outbox of a snapshot. -/
def snapshotName (s : ServingSnapshot) : GoString :=
  outboxName E s.region s.shard s.configurationEpoch s.configurationRevision

variable (E) in
/-- The size of the envelope around a snapshot. -/
def envelopeSize (ownerUID : GoString) (s : ServingSnapshot) : Nat :=
  byteLength <| jsonObject
    [(lit "apiVersion", jsonString apiVersion), (lit "kind", jsonString (lit "ServingSnapshot")),
      (lit "eventID", jsonString (snapshotName E s)), (lit "region", jsonString s.region),
      (lit "shard", jsonString s.shard), (lit "resourceUID", jsonString ownerUID),
      (lit "epoch", itoa s.configurationEpoch), (lit "revision", itoa s.configurationRevision),
      (lit "publishedAt", E.timeJSON s.generatedAt), (lit "payload", snapshotJSON E s)]

/-! ## Which bindings a plan has -/

/-- The view shows the binding as it is stored, up to its zones and backends. -/
structure FormOf (o : ResolverBinding) (b : Binding) : Prop where
  uid : b.bindingUID = o.uid
  project : b.projectUID = o.spec.projectUID
  context : b.contextUID = o.spec.resolverContextRef.uid
  generation : b.bindingGeneration = o.spec.generation
  revision : b.configurationRevision = o.spec.revision
  consumer : b.consumerAddress = o.spec.nodeAddress
  cluster : b.clusterAddress = o.spec.regionalAddress
  port : b.port = 53
  transports : b.transports = [lit "UDP", lit "TCP"]
  version : b.version = o.spec.version
  tombstone : b.tombstone = o.spec.tombstone

theorem bindingView_form (publications : Publications) (prior : GoMap GoString Binding)
    (o : ResolverBinding) :
    FormOf o (bindingView c publications prior o) := by
  unfold bindingView
  dsimp only
  split_ifs
  all_goals exact ⟨rfl, rfl, rfl, rfl, rfl, rfl, rfl, rfl, rfl, rfl, rfl⟩

/-- The bindings of a snapshot that may follow the prior snapshot, given the stored bindings that
were listed. -/
structure Follows (E : Externals) (c : PlannerConfig) (prior : List Binding)
    (listed : List ResolverBinding) (bindings : List Binding) : Prop where
  /-- Every view is of a stored binding of the shard, as it is or as the prior snapshot had it. -/
  forms : ∀ b ∈ bindings, ∃ o ∈ listed, selects E c o = true ∧ b.bindingUID = o.uid ∧
    (FormOf o b ∨ b ∈ prior)
  /-- No binding of the prior snapshot is left out while it is stored on the shard. -/
  kept : ∀ o ∈ listed, selects E c o = true → (∃ b ∈ prior, b.bindingUID = o.uid) →
    ∃ b ∈ bindings, b.bindingUID = o.uid
  uids : (bindings.map Binding.bindingUID).Nodup

section Spec

variable {c : PlannerConfig} {state : ShardState} {now : Time} {listed : List ResolverBinding}
  {publications : Publications} {prior : ServingSnapshot}

theorem mem_candidate {b : Binding} :
    b ∈ (candidate E c state now listed publications prior).bindings ↔
      ∃ o ∈ listed, selects E c o = true ∧
        bindingView c publications (byUID prior.bindings) o = b := by
  simp only [candidate, List.mem_insertionSort, List.mem_map, List.mem_filter, and_assoc]

theorem publicationDependencies_eq_ok {snapshot s : ServingSnapshot}
    {activations : GoMap GoString GoString} {dependsOn : List GoString}
    (h : publicationDependencies snapshot activations = .ok (s, dependsOn)) :
    s = { snapshot with requiredPublications := s.requiredPublications } := by
  simp only [publicationDependencies, bind_eq_ok] at h
  obtain ⟨acc, -, hout⟩ := h
  obtain ⟨rfl, -⟩ := Prod.mk.inj (ok.inj hout)
  rfl

/-- A form that a fit keeps of an established binding. -/
theorem form_of_established {b form : Binding} (h : form = b ∨ priorForm prior b = some form) :
    form.bindingUID = b.bindingUID ∧ (form = b ∨ form ∈ prior.bindings) := by
  rcases h with rfl | h
  · exact ⟨rfl, .inl rfl⟩
  · obtain ⟨hlookup, -⟩ := Option.filter_eq_some_iff.mp h
    obtain ⟨hmem, huid⟩ := lookup_byUID hlookup
    exact ⟨huid, .inr hmem⟩

/-- **Which bindings a plan has.** -/
theorem planSnapshot_eq_ok {s : ServingSnapshot} {dependsOn : List GoString}
    (h : planSnapshot E c state now listed publications prior = .ok (s, dependsOn)) :
    s.region = c.region ∧ s.shard = c.shard ∧ s.configurationEpoch = state.epoch ∧
      s.configurationRevision = state.nextRevision ∧ s.validate E = .ok () ∧
      Follows E c prior.bindings listed s.bindings := by
  unfold planSnapshot at h
  split at h
  · cases h
  · rename_i fitted rejected hfit
    simp only [bind_eq_ok, Prod.exists] at h
    obtain ⟨s', dependsOn', hdeps, _, hvalid, hout⟩ := h
    obtain ⟨rfl, -⟩ := Prod.mk.inj (ok.inj hout)
    obtain ⟨forms, added, hforms, hsub, hperm, -, hfitted⟩ := fitSnapshot_eq_ok hfit
    have hs := publicationDependencies_eq_ok hdeps
    have hbindings : s'.bindings = fitted.bindings := by rw [hs]
    refine ⟨by rw [hs, hfitted]; rfl, by rw [hs, hfitted]; rfl, by rw [hs, hfitted]; rfl,
      by rw [hs, hfitted]; rfl, hvalid, ?_, ?_,
      (ServingSnapshot.validate_eq_ok.mp hvalid).uids⟩
    · intro b hb
      rw [hbindings] at hb
      rcases List.mem_append.mp (hperm.mem_iff.mp hb) with hb | hb
      · obtain ⟨x, hx, hform⟩ := exists_of_forall₂_right hforms hb
        obtain ⟨huid, hcases⟩ := form_of_established hform
        obtain ⟨o, ho, hsel, rfl⟩ := mem_candidate.mp (mem_established.mp hx).1
        have hview := bindingView_form c publications (byUID prior.bindings) o
        refine ⟨o, ho, hsel, huid.trans hview.uid, hcases.imp_left ?_⟩
        rintro rfl
        exact hview
      · obtain ⟨o, ho, hsel, rfl⟩ := mem_candidate.mp (mem_newBindings.mp (hsub.subset hb)).1
        have hview := bindingView_form c publications (byUID prior.bindings) o
        exact ⟨o, ho, hsel, hview.uid, .inl hview⟩
    · rintro o ho hsel ⟨b, hb, huid⟩
      have hview := bindingView_form c publications (byUID prior.bindings) o
      have hest : Established prior (bindingView c publications (byUID prior.bindings) o) := by
        unfold Established
        rw [hview.uid, ← huid]
        exact isSome_lookup_byUID hb
      obtain ⟨form, hform, hrel⟩ := exists_of_forall₂_left hforms
        (mem_established.mpr ⟨mem_candidate.mpr ⟨o, ho, hsel, rfl⟩, hest⟩)
      refine ⟨form, ?_, (form_of_established hrel).1.trans hview.uid⟩
      rw [hbindings]
      exact hperm.mem_iff.mpr (List.mem_append_left _ hform)

end Spec

end InternalDNS.Platform
