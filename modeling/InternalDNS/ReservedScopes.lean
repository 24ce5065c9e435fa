import InternalDNS.Objects

/-! # Reserved scopes

In a managed zone a registration's reserved descendants are subtrees that only its own contributions
may publish in.  A declaration protects its subtree even while it conflicts with another one: then
neither registration may publish there.

The main results say what a negative answer of the two checks excludes, for owners as
`zoneOwner` computes them.
-/
namespace InternalDNS

open Go List

/-- `model.ReservedScope`. -/
structure ReservedScope where
  name : GoString
  registrationUID : GoString
  deriving DecidableEq

variable (E : Externals)

/-- `model.ValidateReservation` finds nothing wrong. -/
def validateReservation (reg : DNSRegistration) (apex : GoString) : Bool :=
  reg.reservedDescendants.all fun name =>
    E.isDNS1123Subdomain (zoneRelativeOwner E.cases name apex)

/-- The scopes that one registration declares. -/
def declaredScopes (apex : GoString) (reg : DNSRegistration) : List ReservedScope :=
  (reg.reservedDescendants.map fun name => zoneRelativeOwner E.cases name apex).filterMap fun name =>
    if E.isDNS1123Subdomain name then some ⟨name, reg.uid⟩ else none

/-- `model.RegistrationScopes`. -/
def registrationScopes (zoneName apex : GoString) (regs : List DNSRegistration) : List ReservedScope :=
  ((regs.filter fun reg => reg.zoneRef = zoneName ∧ reg.uid ≠ []).flatMap
    (declaredScopes E apex)).insertionSort fun a b =>
      a.name < b.name ∨ (a.name = b.name ∧ a.registrationUID ≤ b.registrationUID)

/-- `ReservedScopes.Match`. -/
def scopesMatch (scopes : List ReservedScope) (owner apex : GoString) : Bool :=
  scopes.any fun scope => within E.cases (zoneRelativeOwner E.cases owner apex) scope.name

/-- `ReservedScopes.Owner`. -/
def scopesOwner (scopes : List ReservedScope) (reg : DNSRegistration) (apex : GoString) : Bool :=
  scopes.all fun scope => scope.registrationUID = reg.uid ||
    (!within E.cases (zoneRelativeOwner E.cases reg.owner apex) scope.name &&
      reg.reservedDescendants.all fun name =>
        !within E.cases (zoneRelativeOwner E.cases name apex) scope.name &&
          !within E.cases scope.name (zoneRelativeOwner E.cases name apex))

/-- `ReservedScopes.Shadows`. -/
def scopesShadows (scopes : List ReservedScope) (domain apex : GoString) : Bool :=
  scopes.any fun scope =>
    let root := scope.name ++ '.' :: apex
    within E.cases domain root || (within E.cases root domain && within E.cases domain apex)

/-- What `model.ShadowsContext` reads of a `v1alpha1.DNSResolverContext`. -/
structure ResolverContext where
  uid : GoString
  managedNamespace : Bool
  domainSuffix : GoString
  statusSuffix : GoString

/-- `model.ShadowsContext`. -/
def shadowsContext (zone : DNSZone) (resolver : ResolverContext) (regs : List DNSRegistration) : Bool :=
  if !zone.isPrivate || !resolver.managedNamespace then false
  else if zone.name = managedZoneName E resolver.uid && isManagedZone E zone then false
  else [resolver.domainSuffix, resolver.statusSuffix].any fun apex =>
    apex ≠ [] && scopesShadows E (registrationScopes E (managedZoneName E resolver.uid) apex regs)
      zone.domainName apex

section

variable {E} {zoneName apex s k : GoString} {regs : List DNSRegistration} {scope : ReservedScope}
  {reg : DNSRegistration} {scopes : List ReservedScope}

theorem mem_registrationScopes : scope ∈ registrationScopes E zoneName apex regs ↔
    ∃ reg ∈ regs, (reg.zoneRef = zoneName ∧ reg.uid ≠ []) ∧ ∃ name ∈ reg.reservedDescendants,
      E.isDNS1123Subdomain (zoneRelativeOwner E.cases name apex) = true ∧
        scope = ⟨zoneRelativeOwner E.cases name apex, reg.uid⟩ := by
  simp only [registrationScopes, mem_insertionSort, mem_flatMap, mem_filter,
    decide_eq_true_eq, declaredScopes, mem_filterMap, mem_map]
  constructor
  · rintro ⟨reg, ⟨hreg, hzone⟩, -, ⟨name, hname, rfl⟩, hsome⟩
    rw [Option.ite_none_right_eq_some, Option.some.injEq] at hsome
    exact ⟨reg, hreg, hzone, name, hname, hsome.1, hsome.2.symm⟩
  · rintro ⟨reg, hreg, hzone, name, hname, hvalid, rfl⟩
    exact ⟨reg, ⟨hreg, hzone⟩, _, ⟨name, hname, rfl⟩, by rw [if_pos hvalid]⟩

theorem plain_of_mem_registrationScopes (h : scope ∈ registrationScopes E zoneName apex regs) :
    Plain scope.name := by
  obtain ⟨-, -, -, name, -, hname, rfl⟩ := mem_registrationScopes.mp h
  exact isPlain_iff.mp (E.isDNS1123Subdomain_plain _ hname)

/-- `within` a scope, for an owner that is not the empty name. -/
theorem within_zoneRelativeOwner (ha : Plain apex) (hscope : Plain scope.name)
    (h : DNS.AtOrBelow (canonicalName E.cases (zoneOwner E.cases s apex)) scope.name) :
    within E.cases (zoneRelativeOwner E.cases s apex) scope.name = true := by
  have hne : canonicalName E.cases s ≠ [] := by
    intro hempty
    rw [zoneOwner_of_empty ha hempty] at h
    refine absurd h (DNS.not_atOrBelow_of_length_lt ?_)
    exact length_pos_iff.mpr hscope.ne_nil
  rw [within_iff, zoneRelativeOwner_eq hne, canonicalName_of_plain hscope]
  exact h

/-- **A name that matches no scope is published outside all of them**, unless the owner still
carries the name of the zone after `zoneOwner` has removed it. -/
theorem outside_of_not_match (ha : Plain apex) (hscope : Plain scope.name) (hmem : scope ∈ scopes)
    (hmatch : scopesMatch E scopes s apex = false)
    (hq : within E.cases (zoneOwner E.cases s apex) (scope.name ++ '.' :: apex) = false) :
    ¬ DNS.AtOrBelow (absoluteOwner E.cases (zoneOwner E.cases s apex) apex)
      (scope.name ++ '.' :: apex) := by
  intro hbelow
  rcases atOrBelow_of_absoluteOwner ha hbelow with h | h
  · rw [← canonicalName_of_plain (U := E.cases) (hscope.append ha), ← within_iff, hq] at h
    exact absurd h Bool.false_ne_true
  · have hwithin := within_zoneRelativeOwner ha hscope h
    simp only [scopesMatch, any_eq_false] at hmatch
    exact hmatch scope hmem hwithin

/-- The names that a registration may publish at, relative to the zone. -/
def DNSRegistration.Covers (U : CaseMap) (reg : DNSRegistration) (apex k : GoString) : Prop :=
  k = zoneOwner U reg.owner apex ∨
    ∃ name ∈ reg.reservedDescendants, DNS.AtOrBelow k (zoneOwner U name apex)

/-- A valid reservation is the owner that `zoneOwner` computes. -/
theorem validateReservation_spec (hvalid : validateReservation E reg apex = true) {name : GoString}
    (hname : name ∈ reg.reservedDescendants) :
    zoneRelativeOwner E.cases name apex = zoneOwner E.cases name apex ∧
      Plain (zoneOwner E.cases name apex) := by
  have hplain := isPlain_iff.mp (E.isDNS1123Subdomain_plain _ (all_eq_true.mp hvalid name hname))
  have hne : canonicalName E.cases name ≠ [] := by
    intro hempty
    refine hplain.ne_at ?_
    simp [zoneRelativeOwner, hempty]
  rw [← zoneRelativeOwner_eq hne]
  exact ⟨rfl, hplain⟩

/-- **A registration publishes outside the scopes of others**, with the same exception. -/
theorem outside_of_owner (ha : Plain apex) (hscope : Plain scope.name) (hmem : scope ∈ scopes)
    (howner : scopesOwner E scopes reg apex = true) (hvalid : validateReservation E reg apex = true)
    (hother : scope.registrationUID ≠ reg.uid)
    (hcovers : reg.Covers E.cases apex (zoneOwner E.cases s apex))
    (hq : within E.cases (zoneOwner E.cases s apex) (scope.name ++ '.' :: apex) = false) :
    ¬ DNS.AtOrBelow (absoluteOwner E.cases (zoneOwner E.cases s apex) apex)
      (scope.name ++ '.' :: apex) := by
  have hfree := all_eq_true.mp howner scope hmem
  simp only [hother, decide_false, Bool.false_or, Bool.and_eq_true, Bool.not_eq_true',
    all_eq_true] at hfree
  intro hbelow
  rcases atOrBelow_of_absoluteOwner ha hbelow with h | h
  · rw [← canonicalName_of_plain (U := E.cases) (hscope.append ha), ← within_iff, hq] at h
    exact absurd h Bool.false_ne_true
  rcases hcovers with hname | ⟨name, hname, hcover⟩
  · -- at the registration's own name
    rw [hname] at h
    exact absurd (within_zoneRelativeOwner ha hscope h) (by simp [hfree.1])
  · -- in a reserved subtree: it and the scope lie in one line
    obtain ⟨heq, hplain⟩ := validateReservation_spec hvalid hname
    obtain ⟨hbelow1, hbelow2⟩ := hfree.2 name hname
    rw [heq] at hbelow1 hbelow2
    rw [canonicalName_zoneOwner_of_below hplain hcover] at h
    rw [← Bool.not_eq_true, within_iff, canonicalName_of_plain hplain,
      canonicalName_of_plain hscope] at hbelow1 hbelow2
    exact (hcover.comparable h).elim hbelow1 hbelow2

/-- Two registrations that respect each other's scopes have no reserved name in common. -/
theorem reserved_disjoint {other : DNSRegistration} (howner : scopesOwner E scopes reg apex = true)
    (hvalid : validateReservation E reg apex = true)
    (hvalid' : validateReservation E other apex = true) (hne : other.uid ≠ reg.uid)
    (hscopes : ∀ name ∈ other.reservedDescendants,
      (⟨zoneRelativeOwner E.cases name apex, other.uid⟩ : ReservedScope) ∈ scopes)
    {name name' : GoString} (hname : name ∈ reg.reservedDescendants)
    (hname' : name' ∈ other.reservedDescendants) (h : DNS.AtOrBelow k (zoneOwner E.cases name apex))
    (h' : DNS.AtOrBelow k (zoneOwner E.cases name' apex)) : False := by
  obtain ⟨heq, hplain⟩ := validateReservation_spec hvalid hname
  obtain ⟨heq', hplain'⟩ := validateReservation_spec hvalid' hname'
  have hfree := all_eq_true.mp howner _ (hscopes name' hname')
  simp only [hne, decide_false, Bool.false_or, Bool.and_eq_true, Bool.not_eq_true',
    all_eq_true] at hfree
  obtain ⟨hbelow1, hbelow2⟩ := hfree.2 name hname
  rw [heq, heq', ← Bool.not_eq_true, within_iff, canonicalName_of_plain hplain,
    canonicalName_of_plain hplain'] at hbelow1 hbelow2
  exact (h.comparable h').elim hbelow1 hbelow2

end

end InternalDNS
