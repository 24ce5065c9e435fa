import InternalDNS.AllocatorRaces
import InternalDNS.PlanValidity

/-! # Bindings of many tenants on one shard

The reconcilers of all projects write resolver bindings, with the regional addresses that the
allocator has leased to their contexts, and the planner of a shard puts all bindings of the shard
into one snapshot.  A step of `TenantStep` is one write of any of them.

`Tenants.Inv` is what is known of every state that is reached: the leases are good, and every stored
binding is admissible and has the address that its context leases.  An address is leased to a context
and not to an access binding, so two access bindings of one context have the same regional address,
and so has one that replaces another.  `snapshots_valid_iff` says when this, or the name of a zone,
stops the shard.
-/
namespace InternalDNS.Controlplane

open Go Platform List Nat

variable {J : Type}

/-- What the allocator and the reconcilers have stored. -/
structure Tenants (J : Type) where
  allocations : Allocations J
  bindings : ResolverBindings

variable (E : Externals) (a : Allocator) (domain : GoString → GoString)

/-- The binding has the address that is leased to its context. -/
def Leased (leases : GoMap GoString AddressLease) (o : ResolverBinding) : Prop :=
  ∃ l, leases.lookup (leaseName E
      (a.leaseOwner o.spec.projectUID o.spec.resolverContextRef.uid o.spec.region)) = some l ∧
    l.owner = a.leaseOwner o.spec.projectUID o.spec.resolverContextRef.uid o.spec.region ∧
    l.clusterAddress = o.spec.regionalAddress

/-- A binding that is created for an access binding, with the address that `Allocate` returns. -/
def Granted (leases : GoMap GoString AddressLease) (o : ResolverBinding) : Prop :=
  o.uid ≠ [] ∧ Leased E a leases o ∧ ∃ x cluster, x.Admitted E a domain ∧ Created E x cluster o

/-- A write of a stored binding.  The zones are those of an accepted access binding. -/
def Maintained (old new : ResolverBinding) : Prop :=
  Reconciled E old new ∧
    ((new.spec.zoneRefs = old.spec.zoneRefs ∧ new.spec.zoneApices = old.spec.zoneApices) ∨
      ∃ x : Accepted, x.Admitted E a domain ∧
        new.spec = x.spec old.spec.regionalAddress (some old.spec))

/-- One write of an allocator or of a reconciler. -/
inductive TenantStep [DecidableEq J] (access : GoString → Prop) (w w' : Tenants J) : Prop
  | allocate (e : AllocEvent) (hstep : AllocStep E (· = a) access w.allocations e w'.allocations)
      (hbindings : w'.bindings = w.bindings)
  /-- A destination is released. -/
  | release (name : GoString)
      (hallocations : w'.allocations =
        { w.allocations with destinations := w.allocations.destinations.erase name })
      (hbindings : w'.bindings = w.bindings)
  | bind (hallocations : w'.allocations = w.allocations)
      (hwrite : Collection.Write (Granted E a domain w.allocations.leases) (Maintained E a domain)
        w.bindings w'.bindings)

/-- Nothing is stored. -/
def Tenants.Start (w : Tenants J) : Prop := w.allocations.Fresh ∧ w.bindings.objects = []

/-- What holds in every state. -/
structure Tenants.Inv (w : Tenants J) : Prop where
  allocations : w.allocations.Inv E a
  admissible : ∀ o ∈ w.bindings.objects, Admissible E domain o
  leased : ∀ o ∈ w.bindings.objects, Leased E a w.allocations.leases o

variable {E a domain} {access : GoString → Prop} {w w' : Tenants J} {o old new : ResolverBinding}

/-- An address of a pool can be served. -/
theorem concreteAddress_of_inPool {address : GoString} (h : InPool a address) :
    concreteAddress address = true := by
  obtain ⟨p, -, bits, hbits, -, rfl⟩ := h
  rw [concreteAddress, Addr.parseAddr_string (a := .v6 bits []) (by simp) rfl, Option.any_some]
  simpa [Addr.isUnspecified] using hbits

theorem Granted.admissible {w : Allocations J} (hw : w.Inv E a) (h : Granted E a domain w.leases o) :
    Admissible E domain o := by
  obtain ⟨huid, ⟨l, hlookup, -, haddress⟩, x, cluster, hx, -, -, hlabels, hspec⟩ := h
  have hpool : InPool a o.spec.regionalAddress := haddress ▸ (hw.leased _ l hlookup).2.1
  exact {
    labelled := by rw [ResolverBinding.Labelled, hlabels, hspec]; exact ⟨rfl, rfl⟩
    uid := huid
    project := by rw [hspec]; exact hx.identity.1
    context := by rw [hspec]; exact hx.identity.2
    generation := by rw [hspec]; exact one_ne_zero
    revision := by rw [hspec]; exact one_ne_zero
    epoch := by rw [hspec]; exact one_ne_zero
    sequence := by rw [hspec]; exact one_ne_zero
    node := by rw [hspec]; exact hx.concrete
    regional := concreteAddress_of_inPool hpool
    zones := hspec ▸ hx.zonesKnown cluster none }

/-- The counters of a binding never go back to zero, and its identity stays. -/
structure Continues (old new : ResolverBindingSpec) : Prop where
  identity : SameIdentity old new
  generation : old.generation ≤ new.generation
  revision : old.revision ≤ new.revision
  epoch : old.version.epoch ≤ new.version.epoch
  sequence : old.version.sequence ≤ new.version.sequence

theorem Reconciled.continues (h : Reconciled E old new) : Continues old.spec new.spec := by
  cases h with
  | update x generation hname hadmitted hgeneration hnew =>
    subst hnew
    refine ⟨hadmitted, ?_, ?_, ?_, ?_⟩
    all_goals
      simp only [Accepted.spec, Option.elim_some]
      split_ifs <;> simp
  | withdraw hlive hnew =>
    subst hnew
    exact ⟨⟨rfl, rfl, rfl, rfl, rfl, rfl, rfl⟩, le_rfl, le_succ _, le_rfl, le_succ _⟩
  | status status hnew =>
    subst hnew
    exact ⟨.refl _, le_rfl, le_rfl, le_rfl, le_rfl⟩
  | delete hnew =>
    subst hnew
    exact ⟨.refl _, le_rfl, le_rfl, le_rfl, le_rfl⟩

theorem Maintained.admissible (h : Maintained E a domain old new) (hold : Admissible E domain old) :
    Admissible E domain new := by
  obtain ⟨hreconciled, hzones⟩ := h
  have hnext := hreconciled.continues
  have hpos : ∀ {m n : Nat}, m ≠ 0 → m ≤ n → n ≠ 0 := by omega
  exact {
    labelled := hreconciled.labelled hold.labelled
    uid := hreconciled.stays.uid ▸ hold.uid
    project := hnext.identity.project ▸ hold.project
    context := hnext.identity.context ▸ hold.context
    generation := hpos hold.generation hnext.generation
    revision := hpos hold.revision hnext.revision
    epoch := hpos hold.epoch hnext.epoch
    sequence := hpos hold.sequence hnext.sequence
    node := hnext.identity.node ▸ hold.node
    regional := hnext.identity.regional ▸ hold.regional
    zones := by
      rcases hzones with ⟨hrefs, hapices⟩ | ⟨x, hx, hspec⟩
      · obtain ⟨huid, hapex, hplain, hdistinct⟩ := hold.zones
        rw [← hrefs] at huid hapex hplain hdistinct
        exact ⟨huid, hapices ▸ hapex, hplain, hdistinct⟩
      · exact hspec ▸ hx.zonesKnown _ _ }

theorem Leased.maintained {leases : GoMap GoString AddressLease} (hold : Leased E a leases old)
    (h : Maintained E a domain old new) : Leased E a leases new := by
  have hsame := h.1.continues.identity
  unfold Leased
  rw [hsame.project, hsame.context, hsame.region, hsame.regional]
  exact hold

theorem Leased.later {w w' : Allocations J} (h : Leased E a w.leases o) (hkeeps : w.Keeps w') :
    Leased E a w'.leases o := by
  obtain ⟨l, hlookup, howner, haddress⟩ := h
  exact ⟨l, hkeeps.leases _ l hlookup, howner, haddress⟩

/-- Destinations may be released at any time. -/
theorem allocations_inv_release {w : Allocations J} (h : w.Inv E a) (name : GoString) :
    Allocations.Inv E a { w with destinations := w.destinations.erase name } :=
  ⟨h.allocator, fun other d hd => h.outside other d (GoMap.of_lookup_erase hd).2, h.wanted, h.claimed,
    h.clear, h.leased⟩

/-- **One write.** -/
theorem TenantStep.inv [DecidableEq J] (h : w.Inv E a domain) (hstep : TenantStep E a domain access w w') :
    w'.Inv E a domain := by
  cases hstep with
  | allocate e hstep hbindings =>
    refine ⟨hstep.inv h.allocations, hbindings ▸ h.admissible, fun o ho => ?_⟩
    rw [hbindings] at ho
    exact (h.leased o ho).later (hstep.keeps h.allocations)
  | release name hallocations hbindings =>
    refine ⟨hallocations ▸ allocations_inv_release h.allocations name, hbindings ▸ h.admissible, ?_⟩
    rw [hbindings, hallocations]
    exact h.leased
  | bind hallocations hwrite =>
    refine ⟨hallocations ▸ h.allocations, ?_, ?_⟩
    · exact hwrite.forall (fun o ho => ho.admissible h.allocations) (fun _ _ hold hm => hm.admissible hold)
        h.admissible
    · rw [hallocations]
      exact hwrite.forall (fun o ho => ho.2.1) (fun _ _ hold hm => hold.maintained hm) h.leased

theorem Tenants.Start.inv (h : w.Start) : w.Inv E a domain :=
  ⟨.of_fresh h.1, fun o ho => by simp [h.2] at ho, fun o ho => by simp [h.2] at ho⟩

/-- **Every state.** -/
theorem Tenants.inv_of_reachable [DecidableEq J]
    (h : Reachable Tenants.Start (TenantStep E a domain access) w) :
    w.Inv E a domain :=
  h.invariant (fun _ hstart => hstart.inv) fun _ _ hinv hstep => hstep.inv hinv

/-! ## When the shard can publish -/

/-- Whose binding it is. -/
def contextOf (o : ResolverBinding) : GoString :=
  destinationOwner o.spec.projectUID o.spec.resolverContextRef.uid

/-- No two bindings of the shard, unless both are withdrawn, are of one context or have a destination
in common, and the zones of its live bindings have domain names. -/
structure ContextsApart (E : Externals) (region shard : GoString) (objects : List ResolverBinding) :
    Prop where
  apart : ∀ o ∈ objects, ∀ p ∈ objects, Placed region shard o → Placed region shard p →
    o.uid ≠ p.uid → o.spec.tombstone = false ∨ p.spec.tombstone = false →
    contextOf o ≠ contextOf p ∧ o.spec.nodeAddress ∉ queryAddresses p
  names : ∀ o ∈ objects, Placed region shard o → o.spec.tombstone = false → NamesServable E o

/-- In one region, two bindings have the same regional address exactly if they are of one context. -/
theorem regionalAddress_eq_iff (h : w.Inv E a domain) {o p : ResolverBinding}
    (ho : o ∈ w.bindings.objects) (hp : p ∈ w.bindings.objects)
    (hregion : o.spec.region = p.spec.region) :
    o.spec.regionalAddress = p.spec.regionalAddress ↔ contextOf o = contextOf p := by
  obtain ⟨l, hl, howner, haddress⟩ := h.leased o ho
  obtain ⟨l', hl', howner', haddress'⟩ := h.leased p hp
  have hunique := lease_unique (fun name l hl =>
    ⟨(h.allocations.leased name l hl).1, (h.allocations.leased name l hl).2.2⟩) hl hl'
  rw [← haddress, ← haddress', hunique, howner, howner', hregion]
  unfold Allocator.leaseOwner contextOf destinationOwner
  exact append_left_inj _

theorem contextsApart_iff (h : w.Inv E a domain) {region shard : GoString} :
    ShardServable E region shard w.bindings.objects ↔
      ContextsApart E region shard w.bindings.objects := by
  constructor
  · intro hs
    refine ⟨fun o ho p hp hplaced hplaced' hne hlive => ?_, hs.names⟩
    have hnone : ¬ ∃ raw ∈ queryAddresses o, raw ∈ queryAddresses p := by
      intro hshared
      obtain ⟨hto, htp⟩ := hs.apart o ho p hp hplaced hplaced' hne hshared
      simp [hto, htp] at hlive
    refine ⟨fun hcontext => hnone ?_, fun hmem => hnone ⟨_, mem_cons_self, hmem⟩⟩
    have hregional := (regionalAddress_eq_iff h ho hp
      (hplaced.1.1.trans hplaced'.1.1.symm)).mpr hcontext
    exact ⟨o.spec.regionalAddress, by simp [queryAddresses], by simp [queryAddresses, hregional]⟩
  · intro hs
    refine ⟨fun o ho p hp hplaced hplaced' hne hshared => ?_, hs.names⟩
    by_contra hboth
    have hlive : o.spec.tombstone = false ∨ p.spec.tombstone = false := by
      simpa only [Bool.not_eq_true] using not_and_or.mp hboth
    obtain ⟨hcontext, hdestination⟩ := hs.apart o ho p hp hplaced hplaced' hne hlive
    obtain ⟨-, hdestination'⟩ := hs.apart p hp o ho hplaced' hplaced hne.symm hlive.symm
    obtain ⟨raw, hraw, hraw'⟩ := hshared
    simp only [queryAddresses, mem_cons, not_mem_nil, or_false] at hraw hraw'
    rcases hraw with rfl | rfl
    · exact hdestination (by simpa [queryAddresses] using hraw')
    · rcases hraw' with heq | heq
      · exact hdestination' (by simp [queryAddresses, heq])
      · exact hcontext ((regionalAddress_eq_iff h ho hp
          (hplaced.1.1.trans hplaced'.1.1.symm)).mp heq)

/-- **Which stored bindings stop a shard.**  In every state that the reconcilers and the allocator
reach, all snapshots that the planners of a shard may build from the stored bindings are valid exactly
if the bindings of the shard that are not withdrawn are of different contexts, with destinations of
their own, and the names of their zones are domain names. -/
theorem snapshots_valid_iff [DecidableEq J]
    (hreach : Reachable Tenants.Start (TenantStep E a domain access) w)
    {region shard : GoString} (hregion : region ≠ [] ∧ safeToken E region = region)
    (hshard : shard ≠ [] ∧ safeToken E shard = shard) :
    (∀ (c : PlannerConfig) (state : ShardState) (now : Time) (publications : Publications)
        (prior : ServingSnapshot) (r : ServingSnapshot × List GoString), c.Valid → c.region = region →
        c.shard = shard → now ≠ 0 → PublishedAs domain publications → PriorValid E prior →
        buildSnapshot E c state now w.bindings.objects publications prior = .ok r →
        r.1.validate E = .ok ()) ↔
      ContextsApart E region shard w.bindings.objects := by
  have hinv := Tenants.inv_of_reachable hreach
  rw [valid_iff_shardServable hregion hshard w.bindings.distinct hinv.admissible,
    contextsApart_iff hinv]

/-! ## Two access bindings of one context -/

/-- No binding is stored yet. -/
def noBindings : ResolverBindings := ⟨[], [], .nil, nofun⟩

/-- The allocator may be called before anything is bound. -/
theorem reachable_of_allocRun [DecidableEq J] {w : Allocations J}
    (h : Reachable Allocations.Fresh (AllocRun E (· = a) access) w) :
    Reachable Tenants.Start (TenantStep E a domain access) (⟨w, noBindings⟩ : Tenants J) := by
  have hinit : ∀ w : Allocations J, w.Fresh →
      Reachable Tenants.Start (TenantStep E a domain access) (⟨w, noBindings⟩ : Tenants J) :=
    fun w hw => .init ⟨hw, rfl⟩
  refine h.invariant hinit ?_
  rintro s t hs ⟨e, hstep⟩
  exact hs.step (.allocate e hstep rfl)

/-- Access of the first project to its context, which has these zones. -/
def accessTo (zones : List DNSZone) (n : Nat) : Accepted where
  projectUID := lit "project-1"
  access := ⟨lit "default", lit "access-" ++ itoa n, lit "access-" ++ itoa n, 1,
    ⟨lit "vpc", lit "x", 0⟩, lit "east", lit "fd53::" ++ itoa n⟩
  contextName := lit "vpc"
  zids := contextZones (zones.map fun z => ⟨lit "x", z, true⟩) (lit "x")
  zones := zones
  shard := lit "a"

/-- The resolver binding of it. -/
def bindingOf (zones : List DNSZone) (n : Nat) : ResolverBinding where
  name := (accessTo zones n).bindingName .reference
  uid := lit "binding-" ++ itoa n
  generation := 1
  deleting := false
  labels := (accessTo zones n).labels .reference
  spec := (accessTo zones n).spec ((leasing (lit "x")).candidate .reference 0).clusterAddress none
  status := ⟨0, [], [], ∅⟩

theorem granted_bindingOf {zones : List DNSZone} {n : Nat} {leases : GoMap GoString AddressLease}
    (hdestination : ((accessTo zones n).claimedAddress (leasing (lit "x")).allocator).isSome)
    (hzones : ∀ z ∈ zones, z.uid ≠ [] ∧ z.domainName = domain z.uid)
    (howners : apexOwners .reference (zones.map fun z => ⟨lit "x", z, true⟩) =
      zones.map fun z => ⟨lit "x", z, true⟩)
    (hlease : leases.lookup (leaseName .reference (leasing (lit "x")).owner) =
      some ((leasing (lit "x")).candidate .reference 0)) :
    Granted .reference (leasing (lit "x")).allocator domain leases (bindingOf zones n) := by
  refine ⟨by simp [bindingOf, lit], ⟨_, hlease, rfl, rfl⟩, accessTo zones n, _,
    ⟨hdestination, hzones, zones.map fun z => ⟨lit "x", z, true⟩, zones.map fun z => ⟨lit "x", z, true⟩,
      ?_, ?_, rfl⟩, rfl, rfl, rfl, rfl⟩
  · intro i hi
    obtain ⟨z, hz, rfl⟩ := mem_map.mp hi
    exact hz
  · rw [howners]

/-- A context leases its address. -/
theorem exists_leased (domain : GoString → GoString) : ∃ w : Allocations (Fin 1),
    Reachable Tenants.Start (TenantStep .reference (leasing (lit "x")).allocator domain fun _ => False)
        ⟨w, noBindings⟩ ∧
      w.leases.lookup (leaseName .reference (leasing (lit "x")).owner) =
        some ((leasing (lit "x")).candidate .reference 0) := by
  have h₀ : Reachable Allocations.Fresh
      (AllocRun .reference (· = (leasing (lit "x")).allocator) fun _ => False)
      (noAllocations : Allocations (Fin 1)) := .init fresh_noAllocations
  have h₁ := h₀.step ⟨_, .reserve 0 (leasing (lit "x")) rfl rfl rfl⟩
  have h₂ := h₁.step ⟨_, .claim 0 _ 0 rfl rfl⟩
  have h₃ := h₂.step ⟨_, .check 0 _ _ _ rfl rfl⟩
  have h₄ := h₃.step ⟨_, .lease 0 _ _ rfl rfl⟩
  exact ⟨_, reachable_of_allocRun h₄, AList.lookup_insert _⟩

/-- The store with one binding. -/
def boundOnce (zones : List DNSZone) : ResolverBindings :=
  ⟨[bindingOf zones 1], [lit "binding-1"], List.nodup_singleton _, fun o ho => by
    obtain rfl := List.mem_singleton.mp ho
    exact List.mem_singleton.mpr rfl⟩

/-- The store with two. -/
def boundTwice : ResolverBindings :=
  ⟨[bindingOf [] 1, bindingOf [] 2], [lit "binding-2", lit "binding-1"], by decide +kernel,
    by decide +kernel⟩

/-- A zone whose name has a label of 64 octets, which the pattern of `DNSZone` admits. -/
def longZone : DNSZone :=
  ⟨lit "long", lit "zone-1", 1, true, none, List.replicate 64 'a' ++ lit ".internal", by decide +kernel⟩

/-- The planner of the shard. -/
def shardConfig : PlannerConfig := ⟨lit "east", lit "a", [], [], [], [], 0, 0⟩

/-- What a new planner builds from the bindings, and whether it is valid. -/
def firstSnapshot (objects : List ResolverBinding) : Option (Except GoString Unit) :=
  (buildSnapshot .reference shardConfig ⟨lit "planner-1", 1, 1, 0, [], []⟩ 1 objects (fun _ => none)
    emptySnapshot).toOption.map fun r => r.1.validate .reference

/-- One binding of a context without zones is served. -/
theorem single_binding_valid : ∃ w : Tenants (Fin 1), w.bindings = boundOnce [] ∧
    ∀ (c : PlannerConfig) (state : ShardState) (now : Time) (publications : Publications)
      (prior : ServingSnapshot) (r : ServingSnapshot × List GoString), c.Valid →
      c.region = lit "east" → c.shard = lit "a" → now ≠ 0 →
      PublishedAs (fun _ => []) publications → PriorValid .reference prior →
      buildSnapshot .reference c state now w.bindings.objects publications prior = .ok r →
      r.1.validate .reference = .ok () := by
  obtain ⟨w, hw, hlease⟩ := exists_leased fun _ => []
  have hbound : Reachable Tenants.Start _ ⟨w, boundOnce []⟩ := hw.step <| .bind rfl <|
    .create (bindingOf [] 1) (granted_bindingOf (by decide +kernel) nofun rfl hlease) nofun rfl rfl
  refine ⟨_, rfl, (snapshots_valid_iff hbound (by decide +kernel) (by decide +kernel)).mpr ⟨?_, ?_⟩⟩
  · intro o ho p hp _ _ hne
    rw [mem_singleton.mp ho, mem_singleton.mp hp] at hne
    exact absurd rfl hne
  · intro o ho _ _ ref href
    rw [mem_singleton.mp ho] at href
    cases href

/-- **Objects of one tenant that stop a shard.**  Two access bindings of one context are given the
same regional address; or a zone is attached whose name has a label of 64 octets. -/
theorem shard_snapshot_refused :
    (∃ w : Tenants (Fin 1), Reachable Tenants.Start
        (TenantStep .reference (leasing (lit "x")).allocator (fun _ => []) fun _ => False) w ∧
      w.bindings = boundTwice ∧ firstSnapshot w.bindings.objects = some (.error (lit
        "address fd54::c001:c:0:e001 assigned to bindings \"binding-1\" and \"binding-2\""))) ∧
    ∃ w : Tenants (Fin 1), Reachable Tenants.Start
        (TenantStep .reference (leasing (lit "x")).allocator (fun _ => longZone.domainName)
          fun _ => False) w ∧
      w.bindings = boundOnce [longZone] ∧ firstSnapshot w.bindings.objects =
        some (.error (lit "binding \"binding-1\" has invalid zone apex")) := by
  have hfresh : (bindingOf [] 2).uid ∉ (boundOnce []).issued := by decide +kernel
  have haddress : firstSnapshot boundTwice.objects = some (.error (lit
      "address fd54::c001:c:0:e001 assigned to bindings \"binding-1\" and \"binding-2\"")) := by
    decide +kernel
  have hapex : firstSnapshot (boundOnce [longZone]).objects =
      some (.error (lit "binding \"binding-1\" has invalid zone apex")) := by
    decide +kernel
  constructor
  · obtain ⟨w, hw, hlease⟩ := exists_leased fun _ => []
    have hfirst : Reachable Tenants.Start _ ⟨w, boundOnce []⟩ := hw.step <| .bind rfl <|
      .create (bindingOf [] 1) (granted_bindingOf (by decide +kernel) nofun rfl hlease) nofun rfl rfl
    have hsecond : Reachable Tenants.Start _ ⟨w, boundTwice⟩ := hfirst.step <| .bind rfl <|
      .create (bindingOf [] 2) (granted_bindingOf (by decide +kernel) nofun rfl hlease)
        hfresh rfl rfl
    exact ⟨_, hsecond, rfl, haddress⟩
  · obtain ⟨w, hw, hlease⟩ := exists_leased fun _ => longZone.domainName
    have hbound : Reachable Tenants.Start _ ⟨w, boundOnce [longZone]⟩ := hw.step <| .bind rfl <|
      .create (bindingOf [longZone] 1) (granted_bindingOf (by decide +kernel)
        (by simp [longZone, lit]) rfl hlease) nofun rfl rfl
    exact ⟨_, hbound, rfl, hapex⟩

end InternalDNS.Controlplane
