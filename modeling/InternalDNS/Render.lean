import InternalDNS.CoreDNSConfig
import InternalDNS.ServingSnapshot
import InternalDNS.ZoneFile

/-! # Rendering the CoreDNS configuration

An agent renders the live bindings of its snapshot into the configuration of the CoreDNS
member beside it.  A node answers for the consumer address of each binding and forwards to
the cluster address unless it is authoritative itself; a cluster member answers for the
cluster address.

The snapshot was validated by one set of rules and the configuration is validated by
another.  `rendered_accepted_iff` says where they differ.
-/
namespace InternalDNS

open Go List Except

/-- `serving.CoreDNSRenderConfig`, as far as it reaches the configuration of the member. -/
structure CoreDNSRenderConfig where
  listenAddress : GoString
  port : UInt16
  proxyPeers : List GoString
  identityKeyFile : GoString
  udpReadBufferBytes : Int
  publicUpstreams : List GoString
  deriving DecidableEq

/-- What the CoreDNS member is for. -/
inductive CoreDNSRole where
  | node (authoritative : Bool)
  | cluster
  deriving DecidableEq

variable (E : Externals) (role : CoreDNSRole) (publications : GoMap GoString PublicationState)
  (c : CoreDNSRenderConfig)

/-- `serving.coreDNSConfig`: the configuration without contexts. -/
def coreDNSConfig : Config where
  listenAddress := joinHostPort c.listenAddress (itoa c.port.toNat)
  proxyPeers := c.proxyPeers
  identityKeyFile := c.identityKeyFile
  udpReadBufferBytes := c.udpReadBufferBytes
  publicUpstreams := c.publicUpstreams
  contexts := []

/-- The checks of `serving.validateRenderConfig` on a CoreDNS member. -/
def validateRenderConfig : Except GoString Unit := do
  failIf (c.port = 0) (lit "absolute path and port are required")
  failIf (¬ concreteAddress c.listenAddress) (lit "invalid listen address")
  forEach (fun peer => failIf (Addr.parseAddr peer = none)
    (lit "invalid proxy peer " ++ quoted peer)) c.proxyPeers
  (coreDNSConfig c).validate E

/-- `Binding.ViewName`. -/
def Binding.viewName (b : Binding) : GoString :=
  lit "context_" ++ E.opaqueToken (b.projectUID ++ ['/'] ++ b.contextUID) ++ lit "_g" ++
    itoa b.bindingGeneration

/-- The publication that an attached zone is served from, if it is there, is not withdrawn and is
at least the required one. -/
def servedPublication (z : ZoneAttachment) :
    Option PublicationState :=
  (publications.lookup z.zoneUID).filter fun p =>
    !(z.pending || p.manifest.tombstone || decide (compare p.fence.epoch p.fence.revision
      z.requiredPublicationEpoch z.requiredPublicationRevision < 0))

/-- A zone that the member serves itself: pending until there is a publication to serve. -/
def renderServedZone (z : ZoneAttachment) :
    Except GoString Zone :=
  match servedPublication publications z with
  | none => .ok ⟨absoluteName E.cases z.apex, true, []⟩
  | some p => do
    let data ← renderZone E p
    .ok ⟨absoluteName E.cases z.apex, false, data⟩

/-- The address that the member answers for. -/
def CoreDNSRole.destination : CoreDNSRole → Binding → GoString
  | node _, b => b.consumerAddress
  | cluster, b => b.clusterAddress

/-- Where the member forwards to; a member that serves the zones itself forwards nowhere. -/
def CoreDNSRole.upstreams : CoreDNSRole → Binding → List GoString
  | node false, b => [joinHostPort b.clusterAddress (itoa b.port.toNat)]
  | node true, _ => []
  | cluster, _ => []

/-- One zone of a context.  A member that forwards needs no data. -/
def CoreDNSRole.zone (z : ZoneAttachment) : Except GoString Zone :=
  match role with
  | node false => .ok ⟨absoluteName E.cases z.apex, z.pending, []⟩
  | node true => renderServedZone E publications z
  | cluster => renderServedZone E publications z

/-- The context of one binding. -/
def renderContext (b : Binding) : Except GoString Context := do
  let zones ← collect (role.zone E publications) b.zones
  .ok { id := b.viewName E, destination := role.destination b, pending := b.configurationPending,
        upstreams := role.upstreams b, zones := zones }

section

variable (bindings : List Binding) (publications : GoMap GoString PublicationState)

/-- The configuration of a member in a role. -/
def renderCoreDNS :
    Except GoString Config := do
  let contexts ← collect (renderContext E role publications) bindings
  .ok { coreDNSConfig c with contexts := contexts }

/-- `serving.renderNodeCoreDNS`. -/
def renderNodeCoreDNS (authoritative : Bool) :
    Except GoString Config :=
  renderCoreDNS E (.node authoritative) c bindings publications

/-- `serving.renderClusterCoreDNS`. -/
def renderClusterCoreDNS : Except GoString Config :=
  renderCoreDNS E .cluster c bindings publications

end

/-- The bindings that are rendered. -/
def ServingSnapshot.live (s : ServingSnapshot) : List Binding := s.bindings.filter (!·.tombstone)

/-- What `serving.renderPublications` makes of a snapshot for the CoreDNS member: the agent passes
the live bindings, and they are sorted by UID. -/
def renderLiveBindings (s : ServingSnapshot) (publications : GoMap GoString PublicationState) :
    Except GoString Config :=
  renderCoreDNS E role c (s.live.insertionSort (·.bindingUID ≤ ·.bindingUID)) publications

/-! ## Rendered contexts -/

section Contexts

variable {E} {r : CoreDNSRole} {publications : GoMap GoString PublicationState}

theorem concreteAddress_iff {raw : GoString} :
    concreteAddress raw = true ↔ ∃ a, Addr.parseAddr raw = some a ∧ a.isUnspecified = false := by
  simp only [concreteAddress, Option.any_eq_true, Bool.not_eq_true']

theorem addressKey_isSome {raw : GoString} (h : concreteAddress raw = true) :
    (addressKey raw).isSome := by
  obtain ⟨a, ha, -⟩ := concreteAddress_iff.mp h
  simp [addressKey, ha]

/-- The endpoint of a concrete address and a port is valid exactly if the address has no brackets,
which only the zone of an IPv6 address can have. -/
theorem endpoint_joinHostPort {raw : GoString} (hraw : concreteAddress raw = true) {port : UInt16}
    (hport : port ≠ 0) :
    endpoint (joinHostPort raw (itoa port.toNat)) = .ok () ↔ '[' ∉ raw ∧ ']' ∉ raw := by
  obtain ⟨a, ha, hspec⟩ := concreteAddress_iff.mp hraw
  have hsplit : splitHostPort (joinHostPort raw (itoa port.toNat)) = _ :=
    splitHostPort_joinHostPort (fun _ => isDigit_of_mem_itoa)
      (Addr.colon_or_no_brackets_of_parseAddr ha)
  have hnum : parseUint (itoa port.toNat) 16 = some port.toNat := parseUint_itoa port.toNat_lt
  have hne : port.toNat ≠ 0 := fun h => hport (UInt16.toNat.inj h)
  simp only [endpoint, bind_eq_ok, orError_eq_ok, hsplit, failIf_eq_ok]
  constructor
  · rintro ⟨_, hsome, -⟩
    split_ifs at hsome with hbr
    exact not_or.mp hbr
  · intro hbr
    refine ⟨(raw, itoa port.toNat), if_neg (not_or.mpr hbr), ?_⟩
    simp [ha, hspec, hnum, hne]

theorem servedPublication_eq_some {z : ZoneAttachment} {p : PublicationState} :
    servedPublication publications z = some p ↔ publications.lookup z.zoneUID = some p ∧
      z.pending = false ∧ p.manifest.tombstone = false ∧
      ¬ compare p.fence.epoch p.fence.revision z.requiredPublicationEpoch
        z.requiredPublicationRevision < 0 := by
  simp only [servedPublication, Option.filter_eq_some_iff, Bool.not_eq_true', Bool.or_eq_false_iff,
    decide_eq_false_iff_not, and_assoc]

section

variable (hplans : ∀ uid p, publications.lookup uid = some p → p.manifest.tombstone = false → p.plan.Valid E)
include hplans

/-- A served zone always renders, because its plan is valid. -/
theorem renderServedZone_succeeds (z : ZoneAttachment) :
    ∃ zone, renderServedZone E publications z = .ok zone ∧
      zone.apex = absoluteName E.cases z.apex ∧
      (zone.pending = false → ∃ p, renderZone E p = .ok zone.data) := by
  unfold renderServedZone
  cases hp : servedPublication publications z with
  | none => exact ⟨_, rfl, rfl, by simp⟩
  | some p =>
    obtain ⟨hlookup, -, htomb, -⟩ := servedPublication_eq_some.mp hp
    have htext := renderZone_eq_ok.mpr ⟨hplans _ p hlookup htomb, rfl⟩
    exact ⟨_, bind_eq_ok.mpr ⟨_, htext, rfl⟩, rfl, fun _ => ⟨p, htext⟩⟩

/-- A zone renders in every role, under its absolute apex. -/
theorem role_zone_succeeds (b : Binding) (z : ZoneAttachment) :
    ∃ zone, r.zone E publications z = .ok zone ∧ zone.apex = absoluteName E.cases z.apex ∧
      (zone.pending = false → r.upstreams b = [] → ∃ p, renderZone E p = .ok zone.data) := by
  have hserved := renderServedZone_succeeds hplans z
  cases r with
  | node authoritative =>
    cases authoritative with
    | false => exact ⟨_, rfl, rfl, fun _ h => absurd h (cons_ne_nil _ _)⟩
    | true =>
      obtain ⟨zone, hzone, hapex, hdata⟩ := hserved
      exact ⟨zone, hzone, hapex, fun h _ => hdata h⟩
  | cluster =>
    obtain ⟨zone, hzone, hapex, hdata⟩ := hserved
    exact ⟨zone, hzone, hapex, fun h _ => hdata h⟩

end

/-- The upstreams of a rendered context are valid unless a cluster address has brackets. -/
theorem role_upstreams_valid {b : Binding} (hb : b.Valid E) :
    (∀ upstream ∈ r.upstreams b, endpoint upstream = .ok ()) ↔
      (r = .node false → '[' ∉ b.clusterAddress ∧ ']' ∉ b.clusterAddress) := by
  cases r with
  | node authoritative =>
    cases authoritative with
    | false =>
      have hcluster := endpoint_joinHostPort (hb.concrete b.clusterAddress (by simp [Binding.addresses]))
        hb.port
      simpa [CoreDNSRole.upstreams] using hcluster
    | true => simp [CoreDNSRole.upstreams]
  | cluster => simp [CoreDNSRole.upstreams]

theorem viewName_ne_nil (b : Binding) : b.viewName E ≠ [] :=
  append_ne_nil_of_right_ne_nil _ (itoa_ne_nil b.bindingGeneration)

theorem role_destination_mem (r : CoreDNSRole) (b : Binding) : r.destination b ∈ b.addresses := by
  cases r <;> simp [CoreDNSRole.destination, Binding.addresses]

/-- **Rendered contexts.**  The context of a valid binding renders, and the member accepts it
unless two attachments have one apex or the upstream address has brackets. -/
theorem renderContext_servable_iff
    (hplans : ∀ uid p, publications.lookup uid = some p → p.manifest.tombstone = false →
      p.plan.Valid E)
    (hparse : ∀ p text origin, renderZone E p = .ok text → E.fileParse text origin = .ok ())
    {b : Binding} (hb : b.Valid E) {listenerKey : Option GoString}
    (hlisten : addressKey (r.destination b) ≠ listenerKey) :
    ∃ context, renderContext E r publications b = .ok context ∧
      context.destination = r.destination b ∧
      (context.Servable E listenerKey ↔
        (b.zones.map fun z => absoluteName E.cases z.apex).Nodup ∧
        (r = .node false → '[' ∉ b.clusterAddress ∧ ']' ∉ b.clusterAddress)) := by
  choose zone hzone hapex hdata using role_zone_succeeds (E := E) (r := r) hplans b
  have hzones := collect_eq_map fun z (_ : z ∈ b.zones) => hzone z
  have hapices : (b.zones.map zone).map (fun zone => absoluteName E.cases zone.apex) =
      b.zones.map fun z => absoluteName E.cases z.apex := by
    simp [hapex, absoluteName_absoluteName]
  refine ⟨_, bind_eq_ok.mpr ⟨_, hzones, rfl⟩, rfl, ?_⟩
  rw [← role_upstreams_valid hb, ← hapices]
  constructor
  · intro hs
    exact ⟨hs.apices, hs.upstreams⟩
  · rintro ⟨hnodup, hup⟩
    refine ⟨addressKey_isSome (hb.concrete _ (role_destination_mem r b)), hlisten,
      viewName_ne_nil b, hup, fun zone' hmem => ?_, hnodup⟩
    obtain ⟨z, hz, rfl⟩ := mem_map.mp hmem
    refine ⟨?_, fun hpending hforwards => ?_⟩
    · rw [hapex, absoluteName_absoluteName]
      exact (hb.zones z hz).apexNotRoot
    · obtain ⟨p, hp⟩ := hdata z hpending (by simpa using hforwards)
      exact hparse p _ _ hp

/-- **Where private data comes from.**  Data that a rendered context holds is the text of the
publication of a zone that a live binding attaches. -/
theorem rendered_data {c : CoreDNSRenderConfig} {s : ServingSnapshot} {cfg : Config}
    (hcfg : renderLiveBindings E r c s publications = .ok cfg) {context : Context}
    (hcontext : context ∈ cfg.contexts) (hforwards : context.upstreams = []) {zone : Zone}
    (hzone : zone ∈ context.zones) (hserved : zone.pending = false) :
    ∃ b ∈ s.live, ∃ z ∈ b.zones, ∃ p, servedPublication publications z = some p ∧
      context.destination = r.destination b ∧ context.pending = b.configurationPending ∧
      zone.apex = absoluteName E.cases z.apex ∧ zone.data = zoneText E p := by
  obtain ⟨contexts, hcontexts, hout⟩ := bind_eq_ok.mp hcfg
  cases hout
  obtain ⟨b, hb, hrender⟩ := mem_of_collect hcontexts hcontext
  obtain ⟨zones, hzones, hctx⟩ := bind_eq_ok.mp hrender
  cases hctx
  obtain ⟨z, hz, hzrender⟩ := mem_of_collect hzones hzone
  refine ⟨b, (perm_insertionSort _ _).mem_iff.mp hb, z, hz, ?_⟩
  have hz' : renderServedZone E publications z = .ok zone := by
    cases r with
    | node authoritative =>
      cases authoritative with
      | false => exact absurd hforwards (cons_ne_nil _ _)
      | true => exact hzrender
    | cluster => exact hzrender
  unfold renderServedZone at hz'
  cases hp : servedPublication publications z with
  | none =>
    rw [hp] at hz'
    cases hz'
    simp at hserved
  | some p =>
    rw [hp] at hz'
    obtain ⟨text, htext, hout⟩ := bind_eq_ok.mp hz'
    cases hout
    exact ⟨p, rfl, rfl, rfl, rfl, (renderZone_eq_ok.mp htext).2⟩

end Contexts

/-! ## Where the two validators differ -/

section Accepted

variable {E} {r : CoreDNSRole} {P : GoMap GoString PublicationState}
  {c : CoreDNSRenderConfig} {s : ServingSnapshot}

/-- The listener's key is that of the address it was configured with. -/
theorem coreDNSConfig_accepted (hc : validateRenderConfig E c = .ok ()) :
    (coreDNSConfig c).validateMember E = .ok () ∧
      (coreDNSConfig c).listenerKey = addressKey c.listenAddress := by
  simp only [validateRenderConfig, bind_eq_ok, failIf_eq_ok, not_not] at hc
  obtain ⟨-, hport, -, hlisten, -, -, hvalid⟩ := hc
  have hmember := (Config.validate_eq_ok.mp hvalid).1
  refine ⟨hmember, ?_⟩
  obtain ⟨a, ha, -⟩ := concreteAddress_iff.mp hlisten
  have hendpoint : endpoint (joinHostPort c.listenAddress (itoa c.port.toNat)) = .ok () := by
    simp only [Config.validateMember, bind_eq_ok, wrap_eq_ok] at hmember
    obtain ⟨-, -, -, -, ⟨⟩, hendpoint, -⟩ := hmember
    exact hendpoint
  obtain ⟨ho, hb⟩ := (endpoint_joinHostPort hlisten hport).mp hendpoint
  have hsplit : splitHostPort (joinHostPort c.listenAddress (itoa c.port.toNat)) = _ :=
    splitHostPort_joinHostPort (fun _ => isDigit_of_mem_itoa)
      (Addr.colon_or_no_brackets_of_parseAddr ha)
  rw [if_neg (by simp [ho, hb])] at hsplit
  simp [Config.listenerKey, coreDNSConfig, hsplit]

/-- What a valid snapshot needs besides to be rendered into a valid configuration: its live
bindings have different addresses by value and not only as strings, no binding attaches an apex
twice, and no upstream address has a bracket in it. -/
structure ServingSnapshot.Renderable (E : Externals) (role : CoreDNSRole) (s : ServingSnapshot) :
    Prop where
  destinations : (s.live.map fun b => addressKey (role.destination b)).Nodup
  apices : ∀ b ∈ s.live, (b.zones.map fun z => absoluteName E.cases z.apex).Nodup
  upstreams : role = .node false →
    ∀ b ∈ s.live, '[' ∉ b.clusterAddress ∧ ']' ∉ b.clusterAddress

/-- **When a member accepts what is rendered.**  The configuration of the live bindings of a
valid snapshot always renders.  The member accepts it exactly if the snapshot is renderable; a
snapshot can be valid and not renderable, and then every tenant of the shard is refused. -/
theorem rendered_accepted_iff (hs : s.validate E = .ok ())
    (hplans : ∀ uid p, P.lookup uid = some p → p.manifest.tombstone = false →
      p.plan.validate E = .ok ())
    (hc : validateRenderConfig E c = .ok ())
    (hlisten : ∀ b ∈ s.live, addressKey (r.destination b) ≠ addressKey c.listenAddress)
    (hparse : ∀ p text origin, renderZone E p = .ok text → E.fileParse text origin = .ok ()) :
    ∃ cfg, renderLiveBindings E r c s P = .ok cfg ∧
      (cfg.validate E = .ok () ↔ s.Renderable E r) := by
  obtain ⟨hmember, hkey⟩ := coreDNSConfig_accepted hc
  have hvalid := (ServingSnapshot.validate_eq_ok.mp hs).bindings
  have hplans' := fun uid p hp ht => PublicationPlan.validate_eq_ok.mp (hplans uid p hp ht)
  let sorted := s.live.insertionSort (·.bindingUID ≤ ·.bindingUID)
  have hperm : sorted.Perm s.live := perm_insertionSort _ _
  have hcontext : ∀ b : Binding, ∃ context, b ∈ s.live → renderContext E r P b = .ok context ∧
      context.destination = r.destination b ∧
      (context.Servable E (coreDNSConfig c).listenerKey ↔
        (b.zones.map fun z => absoluteName E.cases z.apex).Nodup ∧
        (r = .node false → '[' ∉ b.clusterAddress ∧ ']' ∉ b.clusterAddress)) := by
    intro b
    by_cases hb : b ∈ s.live
    · obtain ⟨context, h⟩ := renderContext_servable_iff hplans' hparse
        (hvalid b (mem_of_mem_filter hb)) (hkey ▸ hlisten b hb)
      exact ⟨context, fun _ => h⟩
    · exact ⟨⟨[], [], false, [], []⟩, fun h => absurd h hb⟩
  choose context hcontext using hcontext
  have hcontexts := collect_eq_map fun b hb => (hcontext b (hperm.mem_iff.mp hb)).1
  refine ⟨_, bind_eq_ok.mpr ⟨_, hcontexts, rfl⟩, ?_⟩
  rw [Config.validate_eq_ok]
  -- destinations are compared over the sorted bindings, which are the live ones
  have hdest : ((sorted.map context).map fun context => addressKey context.destination).Nodup ↔
      (s.live.map fun b => addressKey (r.destination b)).Nodup := by
    rw [map_map, (hperm.map _).nodup_iff]
    refine iff_of_eq (congrArg List.Nodup (map_congr_left fun b hb => ?_))
    simp [(hcontext b hb).2.1]
  constructor
  · rintro ⟨-, hserv, hnodup⟩
    have hper := fun b hb => ((hcontext b hb).2.2).mp
      (hserv (context b) (mem_map_of_mem (hperm.mem_iff.mpr hb)))
    exact ⟨hdest.mp hnodup, fun b hb => (hper b hb).1, fun hr b hb => (hper b hb).2 hr⟩
  · intro hr
    refine ⟨hmember, fun ctx hctx => ?_, hdest.mpr hr.destinations⟩
    obtain ⟨b, hb, rfl⟩ := mem_map.mp hctx
    have hlive := hperm.mem_iff.mp hb
    exact ((hcontext b hlive).2.2).mpr ⟨hr.apices b hlive, fun h => hr.upstreams h b hlive⟩

/-- The binding of a tenant in a region, answering at the consumer address. -/
def tenantBinding (uid consumer cluster : String) (zones : List ZoneAttachment) : Binding where
  bindingUID := lit uid
  projectUID := lit "project-" ++ lit uid
  contextUID := lit "context"
  bindingGeneration := 1
  configurationRevision := 1
  consumerAddress := lit consumer
  clusterAddress := lit cluster
  port := 53
  transports := [lit "UDP", lit "TCP"]
  zones := zones
  nodeBackends := []
  clusterBackends := []
  version := ⟨1, 1⟩
  tombstone := false
  configurationPending := false

/-- The snapshot of a shard with these bindings. -/
def shardOf (bindings : List Binding) : ServingSnapshot where
  region := lit "us-east"
  shard := lit "shard-0"
  configurationEpoch := 1
  configurationRevision := 1
  bindings := bindings
  members := [⟨lit "node-a", [], lit "node"⟩]
  memberPatterns := []
  requiredPublications := []
  generatedAt := 1

/-- A member that listens at an address of its own. -/
def loopbackMember : CoreDNSRenderConfig where
  listenAddress := lit "127.0.0.1"
  port := 53
  proxyPeers := [lit "127.0.0.1"]
  identityKeyFile := []
  udpReadBufferBytes := 0
  publicUpstreams := []

/-- A publication of one address record. -/
def addressPublication : PublicationState where
  fence := ⟨1, 1⟩
  manifest := ⟨lit "m", lit "zone", lit "corp.internal", 1, 1, 0, false, [], [], 1⟩
  plan := ⟨lit "zone", lit "corp.internal", [], [], [lit "www.corp.internal"],
    [⟨lit "www.corp.internal", lit "A", 5, [⟨lit "10.0.0.1", [], 0, 0, true⟩]⟩]⟩
  localRevision := 0
  effectiveHash := []
  verified := false
  withdrawnAt := 0
  retired := false

/-- Two tenants, one of them with a zone. -/
def twoTenants : ServingSnapshot :=
  shardOf [tenantBinding "b" "fd70::2" "10.0.0.2" [],
    tenantBinding "a" "fd70::1" "10.0.0.1" [⟨false, lit "zone", lit "Corp.internal", 1, 1⟩]]

/-- The publication of that zone. -/
def onePublication : GoMap GoString PublicationState :=
  (∅ : GoMap GoString PublicationState).insert (lit "zone") addressPublication

/-- An authoritative node renders the two tenants, and the member accepts them. -/
theorem rendered_accepted_iff_two_tenants :
    ∃ cfg, renderLiveBindings .reference (.node true) loopbackMember twoTenants onePublication =
        .ok cfg ∧ cfg.validate .reference = .ok () := by
  have hplans : ∀ uid p, onePublication.lookup uid = some p → p.manifest.tombstone = false →
      p.plan.validate .reference = .ok () := by
    intro uid p hp _
    by_cases huid : uid = lit "zone"
    · rw [huid, onePublication, AList.lookup_insert] at hp
      cases hp
      decide +kernel
    · rw [onePublication, AList.lookup_insert_ne huid] at hp
      simp at hp
  obtain ⟨cfg, hcfg, haccepted⟩ := rendered_accepted_iff (E := .reference) (r := .node true)
    (c := loopbackMember) (s := twoTenants) (P := onePublication) (by decide +kernel) hplans
    (by decide +kernel) (by decide +kernel) (fun _ _ _ _ => rfl)
  exact ⟨cfg, hcfg, haccepted.mpr ⟨by decide +kernel, by decide +kernel, by simp⟩⟩

/-- Two tenants whose addresses differ only in the case of a digit: the snapshot is valid, and
the configuration rendered from it is refused. -/
theorem two_spellings_refused :
    (shardOf [tenantBinding "a" "fd70::1" "10.0.0.1" [],
        tenantBinding "b" "FD70::1" "10.0.0.2" []]).validate .reference = .ok () ∧
      validateRenderConfig .reference loopbackMember = .ok () ∧
      (renderLiveBindings .reference (.node true) loopbackMember
        (shardOf [tenantBinding "a" "fd70::1" "10.0.0.1" [],
          tenantBinding "b" "FD70::1" "10.0.0.2" []]) ∅ >>= Config.validate .reference) =
        .error (lit "CoreDNS contexts require an identity and a unique destination") := by
  refine ⟨by decide +kernel, by decide +kernel, by decide +kernel⟩

end Accepted

end InternalDNS
