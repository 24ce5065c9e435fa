import InternalDNS.ContextZones

/-! # When a plan is valid

A planner puts the bindings of all tenants of a shard into one snapshot and refuses to publish it
unless `ServingSnapshot.validate` accepts it.  Most of what is validated is the doing of the planner
itself.  What is left to the stored bindings are the rules of `ShardServable`: bindings that are not
both withdrawn have different addresses, and the names of their zones are domain names.

`buildSnapshot_valid` says that these are enough, for all budgets, publications and prior snapshots.
`buildSnapshot_everything` is for the converse: with budgets that are large enough, every stored
binding of the shard is part of the snapshot.
-/
namespace InternalDNS.Platform

open Go Controlplane List Except ServingSnapshot ResolverBinding Binding

variable (E : Externals)

/-- The snapshot that `Planner.Step` hands to `ServingSnapshot.validate`, and its dependencies. -/
def buildSnapshot (c : PlannerConfig) (state : ShardState) (now : Time) (listed : List ResolverBinding)
    (publications : Publications) (prior : ServingSnapshot) :
    Except GoString (ServingSnapshot × List GoString) :=
  match fitSnapshot E (candidate E c state now listed publications prior) prior c.budgets with
  | .error failure => .error failure.text
  | .ok (fitted, _) => publicationDependencies fitted
      (activations E c publications (listed.filter (selects E c)))

/-- A plan is a snapshot that was built and is valid. -/
theorem planSnapshot_eq_ok_iff {c : PlannerConfig} {state : ShardState} {now : Time}
    {listed : List ResolverBinding} {publications : Publications} {prior : ServingSnapshot}
    {r : ServingSnapshot × List GoString} :
    planSnapshot E c state now listed publications prior = .ok r ↔
      buildSnapshot E c state now listed publications prior = .ok r ∧ r.1.validate E = .ok () := by
  unfold planSnapshot buildSnapshot
  cases fitSnapshot E (candidate E c state now listed publications prior) prior c.budgets with
  | error failure => simp
  | ok fitted =>
    simp only [bind_eq_ok]
    constructor
    · rintro ⟨out, hout, _, hvalid, hr⟩
      cases hr
      exact ⟨hout, hvalid⟩
    · rintro ⟨hout, hvalid⟩
      exact ⟨r, hout, (), hvalid, rfl⟩

/-- What the configuration of a planner is checked for. -/
structure PlannerConfig.Valid (c : PlannerConfig) : Prop where
  members : ∀ m ∈ c.members, m.memberID ≠ [] ∧ m.HasRole
  membersOnce : (c.members.map fun m => m.memberID ++ ['\x00'] ++ m.replicaID).Nodup
  patterns : ∀ p ∈ c.memberPatterns, p.role = lit "node" ∧ p.idPrefix ≠ []
  nodeBackends : BackendsValid c.nodeBackends
  clusterBackends : BackendsValid c.clusterBackends

/-- What is published of a zone has its name and is numbered. -/
def PublishedAs (domain : GoString → GoString) (publications : Publications) : Prop :=
  ∀ uid m, publications uid = some m → m.zoneUID = uid →
    m.zoneApex = domain uid ∧ m.writerEpoch ≠ 0 ∧ m.revision ≠ 0

/-- The prior snapshot of a shard: none, or one that was published. -/
def PriorValid (prior : ServingSnapshot) : Prop := prior = emptySnapshot ∨ prior.Valid E

/-- What the API server and the reconciler make sure of for each stored binding. -/
structure Admissible (domain : GoString → GoString) (o : ResolverBinding) : Prop where
  labelled : o.Labelled E
  uid : o.uid ≠ []
  project : o.spec.projectUID ≠ []
  context : o.spec.resolverContextRef.uid ≠ []
  generation : o.spec.generation ≠ 0
  revision : o.spec.revision ≠ 0
  epoch : o.spec.version.epoch ≠ 0
  sequence : o.spec.version.sequence ≠ 0
  node : concreteAddress o.spec.nodeAddress = true
  regional : concreteAddress o.spec.regionalAddress = true
  zones : ZonesKnown domain o.spec

/-- The binding is stored on the shard. -/
def Placed (region shard : GoString) (o : ResolverBinding) : Prop :=
  (o.spec.region = region ∧ o.spec.shard = shard) ∧ o.deleting = false

/-- The names of the zones of a binding are domain names. -/
def NamesServable (o : ResolverBinding) : Prop := ∀ ref ∈ o.spec.zoneRefs,
  E.dns.isDomainName (absoluteName E.cases ((o.spec.zoneApices.lookup ref.uid).getD [])) = true

/-- The two addresses of a stored binding. -/
def queryAddresses (o : ResolverBinding) : List GoString :=
  [o.spec.nodeAddress, o.spec.regionalAddress]

variable {E} {c : PlannerConfig} {state : ShardState} {now : Time} {listed : List ResolverBinding}
  {publications : Publications} {prior : ServingSnapshot} {domain : GoString → GoString}
  {o : ResolverBinding} {snapshot s : ServingSnapshot} {dependsOn : List GoString}

/-! ## One binding -/

theorem PriorValid.bindings (h : PriorValid E prior) : ∀ b ∈ prior.bindings, b.Valid E := by
  rcases h with rfl | h
  · exact nofun
  · exact h.bindings

/-- The requirement of a zone is its own or that of a prior form. -/
theorem keepRequirement_spec {old : Option Binding} (hold : ∀ b ∈ old, b.Valid E)
    (generation : Nat) (z : ZoneAttachment) (hepoch : z.requiredPublicationEpoch ≠ 0)
    (hrevision : z.requiredPublicationRevision ≠ 0) :
    (keepRequirement old generation z).zoneUID = z.zoneUID ∧
      (keepRequirement old generation z).apex = z.apex ∧
      (keepRequirement old generation z).requiredPublicationEpoch ≠ 0 ∧
      (keepRequirement old generation z).requiredPublicationRevision ≠ 0 := by
  unfold keepRequirement
  cases old with
  | none => exact ⟨rfl, rfl, hepoch, hrevision⟩
  | some b =>
    have hb := hold b rfl
    dsimp only
    split_ifs with hgeneration
    · exact ⟨rfl, rfl, hepoch, hrevision⟩
    · refine foldl_invariant (P := fun _ (a : ZoneAttachment) => a.zoneUID = z.zoneUID ∧
        a.apex = z.apex ∧ a.requiredPublicationEpoch ≠ 0 ∧ a.requiredPublicationRevision ≠ 0)
        ⟨rfl, rfl, hepoch, hrevision⟩ ?_
      intro done x rest a hzones ih
      split_ifs with hsame
      · have hx := hb.zones x (by simp [hzones])
        exact ⟨ih.1, ih.2.1, hx.epoch, hx.revision⟩
      · exact ih

/-- What is attached for a zone. -/
theorem attachZone_spec {spec : ResolverBindingSpec} (hzones : ZonesKnown domain spec)
    (hpublished : PublishedAs domain publications) {old : Option Binding}
    (hold : ∀ b ∈ old, b.Valid E) {ref : ObjectReference} (href : ref ∈ spec.zoneRefs) :
    ∃ z, attachZone c publications spec old ref = some z ∧ z.zoneUID = ref.uid ∧
      z.apex = domain ref.uid ∧ z.requiredPublicationEpoch ≠ 0 ∧ z.requiredPublicationRevision ≠ 0 := by
  unfold attachZone
  cases hmanifest : usableManifest c publications ref.uid with
  | some m =>
    obtain ⟨hpub, husable⟩ := Option.filter_eq_some_iff.mp hmanifest
    have huid : m.zoneUID = ref.uid := by
      simp only [Bool.and_eq_true, decide_eq_true_eq] at husable
      exact husable.1.1
    obtain ⟨hapex, hepoch, hrevision⟩ := hpublished ref.uid m hpub huid
    obtain ⟨h1, h2, h3, h4⟩ := keepRequirement_spec hold spec.generation
      ⟨false, ref.uid, m.zoneApex, m.writerEpoch, m.revision⟩ hepoch hrevision
    exact ⟨_, rfl, h1, h2.trans hapex, h3, h4⟩
  | none =>
    have hne : domain ref.uid ≠ [] := (hzones.plain ref href).ne_nil
    refine ⟨⟨true, ref.uid, domain ref.uid, 1, 1⟩, ?_, rfl, rfl, Nat.one_ne_zero, Nat.one_ne_zero⟩
    simp [hzones.apex ref href, hne]

/-- **The view of an admissible binding is valid**, if the names of its zones are. -/
theorem bindingView_valid (hc : c.Valid) (hpublished : PublishedAs domain publications)
    (hprior : PriorValid E prior) (ho : Admissible E domain o)
    (hnames : o.spec.tombstone = false → NamesServable E o) :
    (bindingView c publications (byUID prior.bindings) o).Valid E := by
  have hform := bindingView_form c publications (byUID prior.bindings) o
  have hold : ∀ b ∈ (byUID prior.bindings).lookup o.uid, b.Valid E :=
    fun b hb => hprior.bindings b (lookup_byUID hb).1
  generalize hview : bindingView c publications (byUID prior.bindings) o = v at hform ⊢
  -- all that is validated but the zones is the same in every branch
  suffices h : (v.configurationPending = true → v.zones = []) ∧ (∀ z ∈ v.zones, z.Valid E) ∧
      v.zones.Pairwise (fun y z =>
        absoluteName E.cases y.apex = absoluteName E.cases z.apex → y.zoneUID = z.zoneUID) ∧
      v.nodeBackends = c.nodeBackends ∧ v.clusterBackends = c.clusterBackends by
    obtain ⟨hpending, hzones, hapices, hnode, hcluster⟩ := h
    exact {
      bindingUID := hform.uid ▸ ho.uid
      projectUID := hform.project ▸ ho.project
      contextUID := hform.context ▸ ho.context
      generation := hform.generation ▸ ho.generation
      revision := hform.revision ▸ ho.revision
      concrete := by
        simp only [addresses, forall_mem_cons, hform.consumer, hform.cluster]
        exact ⟨ho.node, ho.regional, forall_mem_nil _⟩
      port := hform.port ▸ by decide
      someTransport := hform.transports ▸ by simp
      epoch := hform.version ▸ ho.epoch
      sequence := hform.version ▸ ho.sequence
      pendingHasNoZones := hpending
      transports := by simp [hform.transports]
      transportsOnce := hform.transports ▸ by decide
      nodeBackends := hnode ▸ hc.nodeBackends
      clusterBackends := hcluster ▸ hc.clusterBackends
      zones := hzones
      apices := hapices }
  subst hview
  unfold bindingView
  dsimp only
  split_ifs with htombstone hall
  · exact ⟨fun _ => rfl, forall_mem_nil _, .nil, rfl, rfl⟩
  · have hnames := hnames (by simpa using htombstone)
    have hmem : ∀ z ∈ ((o.spec.zoneRefs.map (attachZone c publications o.spec
        ((byUID prior.bindings).lookup o.uid))).filterMap id).insertionSort (·.zoneUID ≤ ·.zoneUID),
        ∃ ref ∈ o.spec.zoneRefs, z.zoneUID = ref.uid ∧ z.apex = domain ref.uid ∧ z.Valid E := by
      intro z hz
      rw [mem_insertionSort, filterMap_map, Function.id_comp] at hz
      obtain ⟨ref, href, hattach⟩ := mem_filterMap.mp hz
      obtain ⟨z', hz', huid, hapex, hepoch, hrevision⟩ :=
        attachZone_spec (c := c) ho.zones hpublished hold href
      obtain rfl := Option.mem_unique hattach hz'
      have hname : absoluteName E.cases z.apex = domain ref.uid ++ ['.'] := by
        rw [hapex, absoluteName_of_plain (ho.zones.plain ref href)]
      refine ⟨ref, href, huid, hapex, huid ▸ ho.zones.uid ref href, hepoch, hrevision, ?_, ?_⟩
      · rw [hname]
        simp [(ho.zones.plain ref href).ne_nil]
      · have hvalid := hnames ref href
        rwa [ho.zones.apex ref href, Option.getD_some, ← hapex] at hvalid
    refine ⟨by simp [bareView], fun z hz => ?_, ?_, rfl, rfl⟩
    · obtain ⟨ref, -, -, -, hvalid⟩ := hmem z hz
      exact hvalid
    · refine pairwise_of_forall_mem_list fun y hy z hz heq => ?_
      obtain ⟨r, hr, hruid, hrapex, -⟩ := hmem y hy
      obtain ⟨s, hs, hsuid, hsapex, -⟩ := hmem z hz
      rw [hrapex, hsapex, absoluteName_of_plain (ho.zones.plain r hr),
        absoluteName_of_plain (ho.zones.plain s hs), append_left_inj] at heq
      rw [hruid, hsuid]
      exact ho.zones.distinct r hr s hs heq
  · exact ⟨fun _ => rfl, forall_mem_nil _, .nil, rfl, rfl⟩

/-! ## Requirements -/

/-- What is required of a zone is what one of its attachments requires. -/
theorem requireZone_invariant {activations : GoMap GoString GoString} {zones : List ZoneAttachment}
    {out : List GoString × GoMap GoString PublicationRequirement}
    (h : loop (requireZone activations) ([], ∅) zones = .ok out) :
    ∀ uid r, out.2.lookup uid = some r → r.zoneUID = uid ∧ ∃ z ∈ zones,
      r = ⟨z.zoneUID, z.requiredPublicationEpoch, z.requiredPublicationRevision⟩ := by
  refine loop_invariant
    (P := fun done (acc : List GoString × GoMap GoString PublicationRequirement) =>
      ∀ uid r, acc.2.lookup uid = some r → r.zoneUID = uid ∧ ∃ z ∈ done,
        r = ⟨z.zoneUID, z.requiredPublicationEpoch, z.requiredPublicationRevision⟩) ?_ ?_ h
  · intro uid r hr
    cases hr
  · intro done z rest acc acc' _ ih hstep uid r hr
    have hearlier : acc.2.lookup uid = some r → r.zoneUID = uid ∧ ∃ y ∈ done ++ [z],
        r = ⟨y.zoneUID, y.requiredPublicationEpoch, y.requiredPublicationRevision⟩ := by
      intro hr
      obtain ⟨huid, y, hy, heq⟩ := ih uid r hr
      exact ⟨huid, y, mem_append_left _ hy, heq⟩
    unfold requireZone at hstep
    split_ifs at hstep with hpending
    · cases hstep
      exact hearlier hr
    · simp only [bind_eq_ok] at hstep
      obtain ⟨-, -, hout⟩ := hstep
      cases hout
      split_ifs at hr with hhigher
      · rcases GoMap.of_lookup_insert hr with ⟨rfl, rfl⟩ | hr
        · exact ⟨rfl, z, by simp, rfl⟩
        · exact hearlier hr
      · exact hearlier hr

/-- The requirements of a snapshot are complete, and there is one for each zone. -/
theorem requirements_valid {activations : GoMap GoString GoString}
    (hzones : ∀ b ∈ snapshot.bindings, ∀ z ∈ b.zones, z.Valid E)
    (h : publicationDependencies snapshot activations = .ok (s, dependsOn)) :
    (∀ r ∈ s.requiredPublications, r.zoneUID ≠ [] ∧ r.epoch ≠ 0 ∧ r.revision ≠ 0) ∧
      (s.requiredPublications.map PublicationRequirement.zoneUID).Nodup := by
  simp only [publicationDependencies, bind_eq_ok] at h
  obtain ⟨acc, hloop, hout⟩ := h
  obtain ⟨rfl, -⟩ := Prod.mk.inj (ok.inj hout)
  have hinv := requireZone_invariant hloop
  have hkey : ∀ uid r, acc.2.lookup uid = some r → r.zoneUID = uid := fun uid r h => (hinv uid r h).1
  constructor
  · intro r hr
    obtain ⟨-, z, hz, heq⟩ := hinv _ r ((GoMap.mem_values hkey).mp ((mem_insertionSort _).mp hr))
    obtain ⟨b, hb, hzb⟩ := mem_flatMap.mp hz
    have hvalid := hzones b hb z hzb
    rw [heq]
    exact ⟨hvalid.zoneUID, hvalid.epoch, hvalid.revision⟩
  · exact (((perm_insertionSort _ _).map _).nodup_iff).mpr (GoMap.nodup_map_values hkey)

/-! ## The whole snapshot -/

/-- What the stored bindings of a shard have to be like for its snapshot to be valid. -/
structure ShardServable (E : Externals) (region shard : GoString) (objects : List ResolverBinding) :
    Prop where
  apart : ∀ o ∈ objects, ∀ p ∈ objects, Placed region shard o → Placed region shard p →
    o.uid ≠ p.uid → (∃ raw ∈ queryAddresses o, raw ∈ queryAddresses p) →
    o.spec.tombstone = true ∧ p.spec.tombstone = true
  names : ∀ o ∈ objects, Placed region shard o → o.spec.tombstone = false → NamesServable E o

/-- The views of a snapshot that is built: each is of a stored binding, with its addresses. -/
structure ViewOf (o : ResolverBinding) (b : Binding) : Prop where
  uid : b.bindingUID = o.uid
  addresses : b.addresses = queryAddresses o
  tombstone : b.tombstone = o.spec.tombstone

theorem viewOf_bindingView (previous : GoMap GoString Binding) (o : ResolverBinding) :
    ViewOf o (bindingView c publications previous o) := by
  have hform := bindingView_form c publications previous o
  exact ⟨hform.uid, by rw [addresses, hform.consumer, hform.cluster]; rfl, hform.tombstone⟩

/-- A prior form that the fit falls back to shows the same binding. -/
theorem ViewOf.of_priorForm {b form : Binding} (h : ViewOf o b)
    (hform : priorForm prior b = some form) : ViewOf o form := by
  obtain ⟨hlookup, hsafe⟩ := Option.filter_eq_some_iff.mp hform
  obtain ⟨-, huid⟩ := lookup_byUID hlookup
  simp only [safeExpansion, Bool.and_eq_true, Bool.not_eq_true', Bool.or_eq_false_iff,
    decide_eq_true_eq] at hsafe
  obtain ⟨⟨⟨⟨⟨⟨hlive, -⟩, -⟩, -⟩, hconsumer⟩, hcluster⟩, -⟩ := hsafe
  refine ⟨huid.trans h.uid, ?_, ?_⟩
  · rw [← h.addresses, Binding.addresses, Binding.addresses, hconsumer, hcluster]
  · rw [← h.tombstone, hlive.1.1.1, hlive.1.1.2]

/-- The header of a snapshot that was sized is complete. -/
theorem sizedEnvelope_header {used : Nat} (h : sizedEnvelope E s = .ok used) :
    s.region ≠ [] ∧ s.shard ≠ [] ∧ s.configurationEpoch ≠ 0 ∧ s.configurationRevision ≠ 0 := by
  simp only [sizedEnvelope, validateHeader, bind_eq_ok, failIf_eq_ok, not_or] at h
  obtain ⟨_, ⟨_, hheader, -⟩, -⟩ := h
  exact hheader

theorem fitSnapshot_header {budgets : Budgets} {r : ServingSnapshot × Rejected}
    (h : fitSnapshot E snapshot prior budgets = .ok r) :
    ∃ used, sizedEnvelope E snapshot = .ok used := by
  unfold fitSnapshot at h
  cases hsize : sizedEnvelope E snapshot with
  | error e =>
    rw [hsize] at h
    cases h
  | ok used => exact ⟨used, rfl⟩

theorem candidate_uids (hlisted : (listed.map uid).Nodup) :
    ((candidate E c state now listed publications prior).bindings.map bindingUID).Nodup := by
  refine (((perm_insertionSort _ _).map _).nodup_iff).mpr ?_
  have huid : bindingUID ∘ bindingView c publications (byUID prior.bindings) =
      uid :=
    funext fun o => (bindingView_form c publications (byUID prior.bindings) o).uid
  rw [map_map, huid]
  exact hlisted.sublist (filter_sublist.map _)

/-- The forms that a fit keeps have the UIDs of what they stand for. -/
theorem map_uid_of_forms {est forms : List Binding}
    (h : List.Forall₂ (fun b form => form = b ∨ priorForm prior b = some form) est forms) :
    forms.map bindingUID = est.map bindingUID := by
  induction h with
  | nil => rfl
  | cons hb _ ih => rw [map_cons, map_cons, ih, (form_of_established hb).1]

/-- **What is built**: views of stored bindings of the shard, one for each UID. -/
theorem buildSnapshot_eq_ok (hlisted : (listed.map uid).Nodup)
    (h : buildSnapshot E c state now listed publications prior = .ok (s, dependsOn)) :
    ∃ fitted, publicationDependencies fitted
        (activations E c publications (listed.filter (selects E c))) = .ok (s, dependsOn) ∧
      s.bindings = fitted.bindings ∧
      (s.region ≠ [] ∧ s.shard ≠ [] ∧ s.configurationEpoch ≠ 0 ∧ s.configurationRevision ≠ 0) ∧
      s.generatedAt = now ∧ s.members.Perm c.members ∧ s.memberPatterns = c.memberPatterns ∧
      (s.bindings.map bindingUID).Nodup ∧
      ∀ b ∈ s.bindings, ∃ o ∈ listed, selects E c o = true ∧ ViewOf o b ∧
        (b = bindingView c publications (byUID prior.bindings) o ∨ b ∈ prior.bindings) := by
  unfold buildSnapshot at h
  cases hfit : fitSnapshot E (candidate E c state now listed publications prior) prior c.budgets with
  | error failure =>
    rw [hfit] at h
    cases h
  | ok r =>
    obtain ⟨fitted, rejected⟩ := r
    rw [hfit] at h
    obtain ⟨used, hused⟩ := fitSnapshot_header hfit
    obtain ⟨forms, added, hforms, hsub, hperm, -, hfitted⟩ := fitSnapshot_eq_ok hfit
    have hs := publicationDependencies_eq_ok h
    have hbindings : s.bindings = fitted.bindings := by rw [hs]
    have hheader := sizedEnvelope_header hused
    refine ⟨fitted, h, hbindings, ?_, by rw [hs, hfitted]; rfl, ?_, by rw [hs, hfitted]; rfl, ?_, ?_⟩
    · rw [hs, hfitted]
      exact hheader
    · rw [hs, hfitted]
      exact perm_insertionSort _ _
    · rw [hbindings, (hperm.map _).nodup_iff, map_append, map_uid_of_forms hforms, ← map_append]
      have hall : (established (candidate E c state now listed publications prior) prior ++
          added).Sublist ((candidate E c state now listed publications prior).bindings.insertionSort
            (placedBefore prior)) := by
        rw [← established_append_newBindings]
        exact hsub.append_left _
      refine List.Nodup.sublist (hall.map _) ?_
      exact ((perm_insertionSort _ _).map _).nodup_iff.mpr (candidate_uids hlisted)
    · intro b hb
      rw [hbindings] at hb
      rcases mem_append.mp (hperm.mem_iff.mp hb) with hb | hb
      · obtain ⟨x, hx, hform⟩ := exists_of_forall₂_right hforms hb
        obtain ⟨o, ho, hsel, rfl⟩ := mem_candidate.mp (mem_established.mp hx).1
        have hview : ViewOf o (bindingView c publications (byUID prior.bindings) o) :=
          viewOf_bindingView _ o
        rcases hform with rfl | hform
        · exact ⟨o, ho, hsel, hview, .inl rfl⟩
        · refine ⟨o, ho, hsel, hview.of_priorForm hform, .inr ?_⟩
          exact (lookup_byUID (Option.filter_eq_some_iff.mp hform).1).1
      · obtain ⟨o, ho, hsel, rfl⟩ := mem_candidate.mp (mem_newBindings.mp (hsub.subset hb)).1
        exact ⟨o, ho, hsel, viewOf_bindingView _ o, .inl rfl⟩

/-- **Bindings that are servable give a valid snapshot**, whatever the budgets, the publications and
the prior snapshot are. -/
theorem buildSnapshot_valid (hlisted : (listed.map uid).Nodup)
    (hadmissible : ∀ o ∈ listed, Admissible E domain o)
    (hservable : ShardServable E c.region c.shard listed) (hc : c.Valid) (hnow : now ≠ 0)
    (hpublished : PublishedAs domain publications) (hprior : PriorValid E prior)
    (h : buildSnapshot E c state now listed publications prior = .ok (s, dependsOn)) :
    s.Valid E := by
  obtain ⟨fitted, hdeps, hbindings, ⟨hregion, hshard, hepoch, hrevision⟩, hat, hmembers, hpatterns,
    huids, hviews⟩ := buildSnapshot_eq_ok hlisted h
  have hplaced : ∀ o ∈ listed, selects E c o = true → Placed c.region c.shard o := fun o ho hsel =>
    (selects_iff (hadmissible o ho).labelled rfl rfl).mp hsel
  have hvalid : ∀ b ∈ s.bindings, b.Valid E := by
    intro b hb
    obtain ⟨o, ho, hsel, -, rfl | hb⟩ := hviews b hb
    · exact bindingView_valid hc hpublished hprior (hadmissible o ho)
        (hservable.names o ho (hplaced o ho hsel))
    · exact hprior.bindings b hb
  have hrequired := requirements_valid (fun b hb => (hvalid b (hbindings ▸ hb)).zones) hdeps
  exact {
    region := hregion
    shard := hshard
    epoch := hepoch
    revision := hrevision
    generatedAt := hat ▸ hnow
    members := fun m hm => hc.members m (hmembers.mem_iff.mp hm)
    membersOnce := ((hmembers.map _).nodup_iff).mpr hc.membersOnce
    patterns := hpatterns ▸ hc.patterns
    requirements := hrequired.1
    requirementsOnce := hrequired.2
    bindings := hvalid
    uids := huids
    addresses := by
      refine (pairwise_map.mp huids).imp_of_mem fun {a b} ha hb hne hshared => ?_
      obtain ⟨o, ho, hosel, hview, -⟩ := hviews a ha
      obtain ⟨p, hp, hpsel, hview', -⟩ := hviews b hb
      rw [hview.addresses, hview'.addresses] at hshared
      rw [hview.uid, hview'.uid] at hne
      rw [hview.tombstone, hview'.tombstone]
      exact hservable.apart o ho p hp (hplaced o ho hosel) (hplaced p hp hpsel) hne hshared }

/-! ## A snapshot of everything -/

/-- The configuration with other budgets. -/
def PlannerConfig.roomy (c : PlannerConfig) (bindings bytes : Nat) : PlannerConfig :=
  { c with maxBindings := bindings + 1, maxSnapshotBytes := bytes + 1 }

theorem PlannerConfig.budgets_roomy (c : PlannerConfig) (bindings bytes : Nat) :
    (c.roomy bindings bytes).budgets = ⟨bindings + 1, bytes + 1⟩ := rfl

theorem not_established_empty (b : Binding) : ¬ Established emptySnapshot b := nofun

/-- A shard without a prior snapshot takes everything that its budgets have room for. -/
theorem fitSnapshot_everything {used : Nat} (hsized : sizedEnvelope E snapshot = .ok used) :
    ∃ bindings bytes, ∀ budgets : Budgets,
      bindings ≤ budgets.maxBindings → bytes ≤ budgets.maxBytes → ∃ fitted rejected,
        fitSnapshot E snapshot emptySnapshot budgets = .ok (fitted, rejected) ∧
        fitted.bindings.Perm snapshot.bindings := by
  let candidates := snapshot.bindings.insertionSort (placedBefore emptySnapshot)
  obtain ⟨size, hsize⟩ := loop_new_all candidates candidates
    (fun b _ => not_established_empty b) (⟨[], used, ∅⟩, ∅)
  refine ⟨candidates.length, size, fun budgets hcount hbytes => ?_⟩
  obtain ⟨r, hr, hbindings⟩ := hsize budgets (by simpa using hcount) hbytes
  refine ⟨_, r.2, by rw [fitSnapshot, hsized]; exact congrArg (· >>= _) hr, ?_⟩
  rw [hbindings]
  exact (perm_insertionSort _ _).trans (perm_insertionSort _ _)

/-- Zones that are pending require nothing. -/
theorem publicationDependencies_pending (activations : GoMap GoString GoString)
    (h : ∀ b ∈ snapshot.bindings, ∀ z ∈ b.zones, z.pending = true) :
    ∃ s dependsOn, publicationDependencies snapshot activations = .ok (s, dependsOn) := by
  have hloop : ∀ (zones : List ZoneAttachment), (∀ z ∈ zones, z.pending = true) →
      loop (requireZone activations) ([], ∅) zones = .ok ([], ∅) := by
    intro zones hzones
    induction zones with
    | nil => rfl
    | cons z zones ih =>
      obtain ⟨hz, hrest⟩ := forall_mem_cons.mp hzones
      rw [loop_cons, requireZone, if_pos hz]
      exact ih hrest
  have hall : ∀ z ∈ snapshot.bindings.flatMap zones, z.pending = true := by
    intro z hz
    obtain ⟨b, hb, hzb⟩ := mem_flatMap.mp hz
    exact h b hb z hzb
  rw [publicationDependencies, hloop _ hall]
  exact ⟨_, _, rfl⟩

/-- The view of a binding when nothing is published and nothing was planned before. -/
theorem attachZone_unpublished {spec : ResolverBindingSpec} (hzones : ZonesKnown domain spec)
    {ref : ObjectReference} (href : ref ∈ spec.zoneRefs) (old : Option Binding) :
    attachZone c (fun _ => none) spec old ref = some ⟨true, ref.uid, domain ref.uid, 1, 1⟩ := by
  have hne : domain ref.uid ≠ [] := (hzones.plain ref href).ne_nil
  simp [attachZone, usableManifest, hzones.apex ref href, hne]

theorem zones_unpublished (hzones : ZonesKnown domain o.spec) (prior : GoMap GoString Binding) :
    (∀ z ∈ (bindingView c (fun _ => none) prior o).zones, z.pending = true) ∧
      (o.spec.tombstone = false → ∀ ref ∈ o.spec.zoneRefs,
        ⟨true, ref.uid, domain ref.uid, 1, 1⟩ ∈ (bindingView c (fun _ => none) prior o).zones) := by
  have hattach : o.spec.zoneRefs.map (attachZone c (fun _ => none) o.spec (prior.lookup o.uid)) =
      o.spec.zoneRefs.map fun ref => some ⟨true, ref.uid, domain ref.uid, 1, 1⟩ :=
    map_congr_left fun ref href => attachZone_unpublished hzones href _
  have hall : (o.spec.zoneRefs.map fun ref =>
      some (⟨true, ref.uid, domain ref.uid, 1, 1⟩ : ZoneAttachment)).all Option.isSome = true := by
    simp
  unfold bindingView
  by_cases htombstone : o.spec.tombstone = true
  · rw [if_pos htombstone]
    exact ⟨nofun, fun hlive => absurd htombstone (by simp [hlive])⟩
  · rw [if_neg htombstone]
    rw [hattach, if_pos hall]
    refine ⟨fun z hz => ?_, fun _ ref href => ?_⟩
    · rw [mem_insertionSort, filterMap_map] at hz
      obtain ⟨ref, -, href⟩ := mem_filterMap.mp hz
      cases href
      rfl
    · rw [mem_insertionSort, filterMap_map]
      exact mem_filterMap.mpr ⟨ref, href, rfl⟩

section

variable {region shard : GoString} (hregion : region ≠ [] ∧ safeToken E region = region)
  (hshard : shard ≠ [] ∧ safeToken E shard = shard)
include hregion hshard

/-- A planner that has just started, with nothing published yet, and room for everything: the
snapshot that it builds has a view of every binding of the shard. -/
theorem buildSnapshot_everything (hadmissible : ∀ o ∈ listed, Admissible E domain o) :
    ∃ (c : PlannerConfig) (state : ShardState) (r : ServingSnapshot × List GoString), c.Valid ∧
      c.region = region ∧ c.shard = shard ∧
      buildSnapshot E c state 1 listed (fun _ => none) emptySnapshot = .ok r ∧
      ∀ o ∈ listed, Placed region shard o → bindingView c (fun _ => none) ∅ o ∈ r.1.bindings := by
  let c : PlannerConfig := ⟨region, shard, [], [], [], [], 0, 0⟩
  let state : ShardState := ⟨[], 1, 1, 0, [], []⟩
  have hsized : ∃ used, sizedEnvelope E
      (candidate E c state 1 listed (fun _ => none) emptySnapshot) = .ok used := by
    simp [sizedEnvelope, validateHeader, failIf, candidate, c, state, hregion.1, hregion.2, hshard.1,
      hshard.2]
  obtain ⟨used, hused⟩ := hsized
  obtain ⟨bindings, bytes, hfit⟩ := fitSnapshot_everything hused
  obtain ⟨fitted, rejected, hfitted, hperm⟩ := hfit (c.roomy bindings bytes).budgets
    (by rw [PlannerConfig.budgets_roomy]; exact Nat.le_succ _)
    (by rw [PlannerConfig.budgets_roomy]; exact Nat.le_succ _)
  have hpending : ∀ b ∈ fitted.bindings, ∀ z ∈ b.zones, z.pending = true := by
    intro b hb
    obtain ⟨o, ho, -, rfl⟩ := mem_candidate.mp (hperm.mem_iff.mp hb)
    exact (zones_unpublished (hadmissible o ho).zones _).1
  obtain ⟨s, dependsOn, hdeps⟩ := publicationDependencies_pending (activations E
    (c.roomy bindings bytes) (fun _ => none) (listed.filter (selects E (c.roomy bindings bytes))))
    hpending
  refine ⟨c.roomy bindings bytes, state, (s, dependsOn),
    ⟨forall_mem_nil _, .nil, forall_mem_nil _, ⟨forall_mem_nil _, .nil⟩, ⟨forall_mem_nil _, .nil⟩⟩,
    rfl, rfl, ?_, fun o ho hplaced => ?_⟩
  · have hcandidate : candidate E (c.roomy bindings bytes) state 1 listed (fun _ => none)
        emptySnapshot = candidate E c state 1 listed (fun _ => none) emptySnapshot := rfl
    rw [buildSnapshot, hcandidate, hfitted]
    exact hdeps
  · rw [publicationDependencies_eq_ok hdeps]
    refine hperm.mem_iff.mpr (mem_candidate.mpr ⟨o, ho, ?_, rfl⟩)
    exact (selects_iff (hadmissible o ho).labelled rfl rfl).mpr hplaced

/-- **When a shard can always publish.**  Every snapshot that is built from the stored bindings is
valid, whatever the budgets, the publications and the prior snapshot are, exactly if the bindings of
the shard are servable. -/
theorem valid_iff_shardServable (hlisted : (listed.map uid).Nodup)
    (hadmissible : ∀ o ∈ listed, Admissible E domain o) :
    (∀ (c : PlannerConfig) (state : ShardState) (now : Time) (publications : Publications)
        (prior : ServingSnapshot) (r : ServingSnapshot × List GoString), c.Valid → c.region = region →
        c.shard = shard → now ≠ 0 → PublishedAs domain publications → PriorValid E prior →
        buildSnapshot E c state now listed publications prior = .ok r → r.1.validate E = .ok ()) ↔
      ShardServable E region shard listed := by
  constructor
  · intro hvalid
    obtain ⟨c, state, r, hc, hcregion, hcshard, hbuild, hviews⟩ :=
      buildSnapshot_everything hregion hshard hadmissible
    have hs : r.1.Valid E := validate_eq_ok.mp <|
      hvalid c state 1 (fun _ => none) emptySnapshot r hc hcregion hcshard one_ne_zero
        (fun _ _ h => by cases h) (.inl rfl) hbuild
    have hsymm : Std.Symm fun a b : Binding => (∃ raw ∈ a.addresses, raw ∈ b.addresses) →
        a.tombstone = true ∧ b.tombstone = true :=
      ⟨fun a b h ⟨raw, hb, ha⟩ => (h ⟨raw, ha, hb⟩).symm⟩
    have hview : ∀ o, ViewOf o (bindingView c (fun _ => none) ∅ o) := viewOf_bindingView ∅
    constructor
    · intro o ho p hp hplaced hplaced' hne hshared
      have hviews_ne : bindingView c (fun _ => none) ∅ o ≠ bindingView c (fun _ => none) ∅ p := by
        intro heq
        exact hne ((hview o).uid.symm.trans (heq ▸ (hview p).uid))
      have hboth := hs.addresses.forall (hviews o ho hplaced) (hviews p hp hplaced') hviews_ne
        (by rw [(hview o).addresses, (hview p).addresses]; exact hshared)
      rwa [(hview o).tombstone, (hview p).tombstone] at hboth
    · intro o ho hplaced hlive ref href
      have hzone := (zones_unpublished (c := c) (hadmissible o ho).zones ∅).2 hlive ref href
      have hname := ((hs.bindings _ (hviews o ho hplaced)).zones _ hzone).apexValid
      rw [(hadmissible o ho).zones.apex ref href]
      exact hname
  · intro hservable c state now publications prior r hc hcregion hcshard hnow hpublished hprior hbuild
    subst hcregion hcshard
    exact validate_eq_ok.mpr
      (buildSnapshot_valid hlisted hadmissible hservable hc hnow hpublished hprior hbuild)

end

end InternalDNS.Platform
