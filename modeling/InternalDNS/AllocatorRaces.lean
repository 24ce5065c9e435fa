import InternalDNS.Allocator

/-! # Allocators with different pools

While a pool is being renumbered, allocators with different pools share the stored objects, and the
pools no longer keep leases and destinations apart.  What is left is the order of the calls: `reserve`
creates its regional claim before it looks for destination claims, and `ClaimDestination` creates its
claim before it looks for a regional claim a second time, so that one of two racing calls sees the
other and takes its own claim back.

A claim that is taken back may be the one that another call for the same owner has found and relies
on.  So the protocol is safe as long as no two calls for one owner overlap (`Allocations.Alone`), and
it is not safe otherwise: a call of `ClaimDestination` that finds the claim of another one returns
success without the second look, and the claim is gone after that other call has looked.
-/
namespace InternalDNS.Platform

open Go AList GoMap Function

variable {J : Type} (E : Externals) (w : Allocations J)

/-- No call is under way for the owner, or for the destination, that a call starts for. -/
def Allocations.Alone : AllocEvent → Prop
  | .reserve owner => ∀ j r, (w.calls j).request = some r → r.owner ≠ owner
  | .claim d => ∀ j d', (w.calls j).destination = some d' → d' ≠ d
  | .other => True

/-- No address is leased to two owners, and none is both leased and held as a destination. -/
structure Allocations.Exclusive : Prop where
  leases : ∀ name name' l l', w.leases.lookup name = some l → w.leases.lookup name' = some l' →
    l.clusterAddress = l'.clusterAddress → l.owner = l'.owner
  held : ∀ name l, w.leases.lookup name = some l → ∀ d ∈ w.held, l.clusterAddress ≠ d.address

/-- One step of a run. -/
def AllocRun [DecidableEq J] (P : Allocator → Prop) (access : GoString → Prop)
    (w w' : Allocations J) : Prop := ∃ e, AllocStep E P access w e w'

/-- One step of a run in which no two calls for one owner overlap. -/
def AllocRunAlone [DecidableEq J] (P : Allocator → Prop) (access : GoString → Prop)
    (w w' : Allocations J) : Prop := ∃ e, AllocStep E P access w e w' ∧ w.Alone e

/-! ## What the calls rely on -/

/-- At most one call is under way for each owner, and for each destination. -/
structure CallsApart : Prop where
  requests : ∀ i j r s, (w.calls i).request = some r → (w.calls j).request = some s →
    r.owner = s.owner → i = j
  destinations : ∀ i j d, (w.calls i).destination = some d → (w.calls j).destination = some d → i = j
  leases : ∀ j r l, (w.calls j).request = some r → (w.calls j).lease = some l → l.owner = r.owner

section

variable (E : Externals) (w : Allocations J)

/-- Every address that is leased, or about to be, is claimed for its owner. -/
structure RegionalInv : Prop where
  claimed : ∀ j l, (w.calls j).lease = some l → w.Backed E l
  leased : ∀ name l, w.leases.lookup name = some l → name = leaseName E l.owner ∧ w.Backed E l
  unleased : ∀ j r, (w.calls j).request = some r →
    ∀ name l, w.leases.lookup name = some l → l.owner ≠ r.owner

/-- No lease has the address, and no call is about to create one that has it. -/
structure Unleased (address : GoString) : Prop where
  checked : ∀ j r l, w.calls j = .checked r l → l.clusterAddress ≠ address
  leased : ∀ name l, w.leases.lookup name = some l → l.clusterAddress ≠ address

/-- The claim of the destination is stored. -/
def Allocations.Claims (d : Destination) : Prop :=
  ∃ stored, w.destinations.lookup (destinationName E d) = some stored ∧ stored.destination = d

/-- A destination whose owner is a context. -/
structure OfContext (access : GoString → Prop) (d : Destination) : Prop where
  region : d.region ≠ []
  owner : ∃ project context, d.owner = destinationOwner project context ∧ ¬ access context ∧
    '/' ∉ context

/-- What holds of the claims of destinations, and of the destinations that are held. -/
structure DestinationInv (access : GoString → Prop) (w : Allocations J) : Prop where
  stored : ∀ name s, w.destinations.lookup name = some s → OfContext access s.destination
  wanted : ∀ j d, (w.calls j).destination = some d → OfContext access d
  looked : ∀ j d label, w.calls j = .looked d label → w.Claims E d → Unleased w d.address
  created : ∀ j d v reserved, w.calls j = .created d v reserved → w.Claims E d ∧
    ∀ d' ∈ w.held, destinationName E d' ≠ destinationName E d
  held : ∀ d ∈ w.held, w.Claims E d ∧ Unleased w d.address

end

variable {E} {w} {w' : Allocations J}

/-- A call that has claimed an address is one of `Allocate`. -/
theorem Call.exists_request {c : Call} {l : AddressLease} (h : c.lease = some l) :
    ∃ r, c.request = some r := by
  cases c with
  | claimed r l v taken => exact ⟨r, rfl⟩
  | checked r l => exact ⟨r, rfl⟩
  | idle => cases h
  | reserving r => cases h
  | looked d label => cases h
  | created d v reserved => cases h

theorem unleased_of_free (h : RegionalInv E w) {address : GoString}
    (hnone : w.claims.lookup (claimName E address) = none) : Unleased w address := by
  refine ⟨fun j r l hl haddress => ?_, fun name l hl haddress => ?_⟩
  · obtain ⟨version, hversion⟩ := h.claimed j l (by rw [hl]; rfl)
    rw [haddress, hnone] at hversion
    cases hversion
  · obtain ⟨-, version, hversion⟩ := h.leased name l hl
    rw [haddress, hnone] at hversion
    cases hversion

/-- A context does not own what an access binding owns. -/
theorem OfContext.not_adopted {access : GoString → Prop} {d : Destination} (h : OfContext access d)
    (project : GoString) {uid : GoString} (huid : access uid ∧ '/' ∉ uid) :
    d.owner ≠ destinationOwner project uid := by
  obtain ⟨project', context, howner, hcontext, hslash⟩ := h.owner
  intro heq
  have hsplit := splitLast_append (c := '/') project' hslash
  have hsplit' := splitLast_append (c := '/') project huid.2
  rw [howner] at heq
  simp only [destinationOwner] at heq
  simp only [List.append_assoc, List.singleton_append] at hsplit hsplit'
  rw [heq, hsplit'] at hsplit
  obtain ⟨-, rfl⟩ := Prod.mk.inj (Option.some.inj hsplit)
  exact hcontext huid.1

theorem claimed_of_claims {access : GoString → Prop} (h : DestinationInv E access w) {d : Destination}
    (hd : w.Claims E d) : w.destinationClaimed d.address = true := by
  obtain ⟨stored, hlookup, hsame⟩ := hd
  refine List.any_eq_true.mpr ⟨⟨_, stored⟩, mem_lookup_iff.mp hlookup, ?_⟩
  have hregion := (h.stored _ stored hlookup).region
  simp only [hsame] at hregion ⊢
  simp [hregion]

section Steps

variable [DecidableEq J] {P : Allocator → Prop} {access : GoString → Prop} {e : AllocEvent}
  {j : J} {c next : Call}

/-! ## Calls -/

section

variable (hcalls : w'.calls = Function.update w.calls j next)
include hcalls

/-- A call after another one, or the same one, has moved on. -/
theorem of_update_call {i : J} {c : Call} (hc : w'.calls i = c) :
    (i = j ∧ next = c) ∨ (i ≠ j ∧ w.calls i = c) := by
  rw [hcalls] at hc
  by_cases hi : i = j
  · subst hi
    rw [update_self] at hc
    exact .inl ⟨rfl, hc⟩
  · rw [update_of_ne hi] at hc
    exact .inr ⟨hi, hc⟩

/-- A call goes on with the same request and the same destination, or it ends. -/
theorem CallsApart.proceed (h : CallsApart w) (hcall : w.calls j = c)
    (hrequest : ∀ r, next.request = some r → c.request = some r)
    (hdestination : ∀ d, next.destination = some d → c.destination = some d)
    (hlease : ∀ r l, next.request = some r → next.lease = some l →
      c.lease = some l ∨ l.owner = r.owner) : CallsApart w' := by
  subst hcall
  have hr : ∀ i r, (w'.calls i).request = some r → (w.calls i).request = some r := by
    intro i r hr
    rcases of_update_call hcalls (i := i) rfl with ⟨rfl, hi⟩ | ⟨-, hi⟩
    · exact hrequest r (hi ▸ hr)
    · exact hi ▸ hr
  have hd : ∀ i d, (w'.calls i).destination = some d → (w.calls i).destination = some d := by
    intro i d hd
    rcases of_update_call hcalls (i := i) rfl with ⟨rfl, hi⟩ | ⟨-, hi⟩
    · exact hdestination d (hi ▸ hd)
    · exact hi ▸ hd
  refine ⟨fun i k r s hi hk => h.requests i k r s (hr i r hi) (hr k s hk),
    fun i k d hi hk => h.destinations i k d (hd i d hi) (hd k d hk), fun i r l hri hl => ?_⟩
  rcases of_update_call hcalls (i := i) rfl with ⟨rfl, hi⟩ | ⟨-, hi⟩
  · exact (hlease r l (hi ▸ hri) (hi ▸ hl)).elim (h.leases i r l (hr i r hri)) id
  · exact h.leases i r l (hi ▸ hri) (hi ▸ hl)

/-- Calls stay apart if what the new one is for is not what another one is for. -/
theorem apart_update {α : Type} {f : Call → Option α} {R : α → α → Prop}
    (h : ∀ i k a b, f (w.calls i) = some a → f (w.calls k) = some b → R a b → i = k)
    (hnew : ∀ a, f next = some a → ∀ i b, f (w.calls i) = some b → ¬ R a b ∧ ¬ R b a) :
    ∀ i k a b, f (w'.calls i) = some a → f (w'.calls k) = some b → R a b → i = k := by
  intro i k a b hi hk hab
  rcases of_update_call hcalls (i := i) rfl with ⟨rfl, hci⟩ | ⟨-, hci⟩ <;>
    rcases of_update_call hcalls (i := k) rfl with ⟨rfl, hck⟩ | ⟨-, hck⟩
  · rfl
  · exact absurd hab (hnew a (hci ▸ hi) k b (hck ▸ hk)).1
  · exact absurd hab (hnew b (hck ▸ hk) i a (hci ▸ hi)).2
  · exact h i k a b (hci ▸ hi) (hck ▸ hk) hab

/-- A call that starts alone. -/
theorem CallsApart.start (h : CallsApart w)
    (hrequest : ∀ r, next.request = some r → ∀ i s, (w.calls i).request = some s → s.owner ≠ r.owner)
    (hdestination : ∀ d, next.destination = some d → ∀ i d', (w.calls i).destination = some d' → d' ≠ d)
    (hlease : next.lease = none) : CallsApart w' where
  requests := apart_update hcalls h.requests fun r hr i s hs =>
    ⟨fun heq => hrequest r hr i s hs heq.symm, hrequest r hr i s hs⟩
  destinations := by
    have hapart := apart_update hcalls (R := Eq)
      (fun i k d _ hi hk heq => h.destinations i k d hi (heq ▸ hk)) fun d hd i d' hd' => ⟨fun heq => hdestination d hd i d' hd' heq.symm,
        hdestination d hd i d' hd'⟩
    exact fun i k d hi hk => hapart i k d d hi hk rfl
  leases i r l hr hl := by
    rcases of_update_call hcalls rfl with ⟨-, hi⟩ | ⟨-, hi⟩
    · rw [← hi, hlease] at hl
      cases hl
    · exact h.leases i r l (hi ▸ hr) (hi ▸ hl)

end

theorem AllocStep.callsApart (h : CallsApart w) (hstep : AllocStep E P access w e w')
    (halone : w.Alone e) : CallsApart w' := by
  cases hstep with
  | reserve j r hallocator hidle hnone =>
    refine h.start rfl ?_ nofun rfl
    rintro _ ⟨⟩ i s hs
    exact halone i s hs
  | look j a project context region raw address hallocator hidle huid haddress hnone =>
    refine h.start rfl nofun ?_ rfl
    rintro _ ⟨⟩ i d' hd'
    exact halone i d' hd'
  | claim j r salt hcall hfree =>
    refine h.proceed rfl hcall (fun _ => id) nofun ?_
    rintro _ _ ⟨⟩ ⟨⟩
    exact .inr rfl
  | own j r salt version hcall hown =>
    refine h.proceed rfl hcall (fun _ => id) nofun ?_
    rintro _ _ ⟨⟩ ⟨⟩
    exact .inr rfl
  | check j r lease version hcall hclear =>
    exact h.proceed rfl hcall (fun _ => id) nofun (fun _ _ _ => .inl)
  | taken j r lease version hcall htaken =>
    exact h.proceed rfl hcall (fun _ => id) nofun (fun _ _ _ => .inl)
  | discard j r lease stored hcall hstored => exact h.proceed rfl hcall (fun _ => id) nofun nofun
  | create j d label hcall hfree => exact h.proceed rfl hcall nofun (fun _ => id) nofun
  | refuse j d version regional hcall hregional => exact h.proceed rfl hcall nofun (fun _ => id) nofun
  -- the other steps end the call
  | _ => exact h.proceed rfl rfl nofun nofun nofun

/-! ## Regional claims -/

section

variable (hcalls : w'.calls = Function.update w.calls j next)
include hcalls

/-- A call moves on, and what the others rely on stays. -/
theorem RegionalInv.move (h : RegionalInv E w) (hcall : w.calls j = c)
    (hleases : w'.leases = w.leases)
    (hkeep : ∀ l, w.Backed E l → (∃ i, i ≠ j ∧ (w.calls i).lease = some l) ∨
      (∃ name, w.leases.lookup name = some l) → w'.Backed E l)
    (hlease : ∀ l, next.lease = some l → w'.Backed E l)
    (hrequest : ∀ r, next.request = some r → c.request = some r ∨
      ∀ name l, w.leases.lookup name = some l → l.owner ≠ r.owner) : RegionalInv E w' := by
  refine ⟨fun i l hl => ?_, fun name l hl => ?_, fun i r hr name l hl => ?_⟩
  · rcases of_update_call hcalls rfl with ⟨-, hi⟩ | ⟨hne, hi⟩
    · exact hlease l (hi ▸ hl)
    · rw [← hi] at hl
      exact hkeep l (h.claimed i l hl) (.inl ⟨i, hne, hl⟩)
  · rw [hleases] at hl
    obtain ⟨hname, hbacked⟩ := h.leased name l hl
    exact ⟨hname, hkeep l hbacked (.inr ⟨name, hl⟩)⟩
  · rw [hleases] at hl
    rcases of_update_call hcalls rfl with ⟨-, hi⟩ | ⟨-, hi⟩
    · rcases hrequest r (hi ▸ hr) with hr | hr
      · exact h.unleased j r (hcall ▸ hr) name l hl
      · exact hr name l hl
    · exact h.unleased i r (hi ▸ hr) name l hl

/-- A step of a call of `ClaimDestination`, or the end of a call. -/
theorem RegionalInv.frame (h : RegionalInv E w) (hclaims : w'.claims = w.claims)
    (hleases : w'.leases = w.leases) (hlease : next.lease = none) (hrequest : next.request = none) :
    RegionalInv E w' := by
  refine h.move hcalls rfl hleases (fun l hl _ => ?_) ?_ ?_
  · rw [Allocations.Backed, hclaims]
    exact hl
  · rw [hlease]
    exact nofun
  · rw [hrequest]
    exact nofun

end

theorem AllocStep.regionalInv (h : RegionalInv E w) (hapart : CallsApart w)
    (hstep : AllocStep E P access w e w') : RegionalInv E w' := by
  cases hstep with
  | reserve j r hallocator hidle hnone =>
    refine h.move rfl hidle rfl (fun _ hl _ => hl) nofun ?_
    rintro _ ⟨⟩
    refine .inr fun name l hl howner => ?_
    obtain ⟨rfl, -⟩ := h.leased name l hl
    rw [howner, hnone] at hl
    cases hl
  | claim j r salt hcall hfree =>
    refine h.move rfl hcall rfl (fun l hl _ => ?_) ?_ (fun _ => .inl)
    · obtain ⟨version, hversion⟩ := hl
      exact ⟨version, lookup_insert_of_free hfree hversion⟩
    · rintro _ ⟨⟩
      exact ⟨w.clock, lookup_insert _⟩
  | own j r salt version hcall hown =>
    refine h.move rfl hcall rfl (fun _ hl _ => hl) ?_ (fun _ => .inl)
    rintro _ ⟨⟩
    exact ⟨version, hown⟩
  | check j r lease version hcall hclear =>
    have hclaimed := h.claimed j
    rw [hcall] at hclaimed
    exact h.move rfl hcall rfl (fun _ hl _ => hl) hclaimed (fun _ => .inl)
  | taken j r lease version hcall htaken =>
    have hclaimed := h.claimed j
    rw [hcall] at hclaimed
    exact h.move rfl hcall rfl (fun _ hl _ => hl) hclaimed (fun _ => .inl)
  | discard j r lease stored hcall hstored =>
    have hr : (w.calls j).request = some r := by rw [hcall]; rfl
    have hl : (w.calls j).lease = some lease := by rw [hcall]; rfl
    have howner := hapart.leases j r lease hr hl
    obtain ⟨version, hversion⟩ := h.claimed j lease hl
    refine h.move rfl hcall rfl (fun l hbacked hother => ?_) nofun (fun _ => .inl)
    -- another lease with this claim would be of the same owner
    · obtain ⟨version', hversion'⟩ := hbacked
      refine ⟨version', ?_⟩
      show (w.claims.erase (claimName E lease.clusterAddress)).lookup _ = _
      rw [lookup_erase_ne, hversion']
      intro hname
      rw [hname, hversion] at hversion'
      have hsame : lease.owner = l.owner := congrArg RegionalClaim.owner (Option.some.inj hversion')
      rcases hother with ⟨i, hi, hil⟩ | ⟨name, hname⟩
      · obtain ⟨s, hs⟩ := Call.exists_request hil
        have hls := hapart.leases i s l hs hil
        exact hi (hapart.requests i j s r hs hr (by rw [← hls, ← hsame, howner]))
      · exact h.unleased j r hr name l hname (by rw [← hsame, howner])
  | lease j r lease hcall hfree =>
    have hr : (w.calls j).request = some r := by rw [hcall]; rfl
    have hl : (w.calls j).lease = some lease := by rw [hcall]; rfl
    have howner := hapart.leases j r lease hr hl
    have hidle : RegionalInv E (w.setCall j .idle) := h.frame rfl rfl rfl rfl rfl
    refine ⟨fun i l hil => hidle.claimed i l hil, forall_insert hidle.leased ⟨rfl, h.claimed j _ hl⟩,
      fun i s hs => forall_insert (hidle.unleased i s hs) fun hsame => ?_⟩
    by_cases hi : i = j
    · subst hi
      simp [Allocations.setCall, Call.request] at hs
    · have hs' : (w.calls i).request = some s := by
        simpa [Allocations.setCall, update_of_ne hi] using hs
      exact hi (hapart.requests i j s r hs' hr (by rw [← hsame, howner]))
  -- the steps of `ClaimDestination` write no regional claim and no lease
  | _ => exact h.frame rfl rfl rfl rfl rfl

/-! ## Destinations -/

section

variable (hcalls : w'.calls = Function.update w.calls j next)
include hcalls

theorem Unleased.after {address : GoString} (h : Unleased w address)
    (hnext : ∀ r l, next = .checked r l → l.clusterAddress ≠ address)
    (hleases : ∀ name l, w'.leases.lookup name = some l → w.leases.lookup name = some l ∨
      ∃ r, w.calls j = .checked r l) : Unleased w' address := by
  refine ⟨fun i r l hl => ?_, fun name l hl => ?_⟩
  · rcases of_update_call hcalls hl with ⟨-, hi⟩ | ⟨-, hi⟩
    · exact hnext r l hi
    · exact h.checked i r l hi
  · rcases hleases name l hl with hl | ⟨r, hl⟩
    · exact h.leased name l hl
    · exact h.checked j r l hl

variable (h : DestinationInv E access w) (hapart : CallsApart w)
include h hapart

/-- A call moves on without success.  Only the claim of its own destination is new, and what others
rely on stays. -/
theorem DestinationInv.proceed (hheld : w'.held = w.held)
    (hstored : ∀ name s, w'.destinations.lookup name = some s → OfContext access s.destination)
    (hnew : ∀ d, w'.Claims E d → w.Claims E d ∨ (w.calls j).destination = some d)
    (hkeep : ∀ d, w.Claims E d → (d ∈ w.held ∨ ∃ i v b, i ≠ j ∧ w.calls i = .created d v b) → w'.Claims E d)
    (hunleased : ∀ d, w.Claims E d → Unleased w d.address → Unleased w' d.address)
    (hwanted : ∀ d, next.destination = some d → OfContext access d)
    (hlooked : ∀ d label, next = .looked d label → Unleased w' d.address)
    (hcreated : ∀ d v b, next = .created d v b → w'.Claims E d ∧
      ∀ d' ∈ w.held, destinationName E d' ≠ destinationName E d) : DestinationInv E access w' := by
  refine ⟨hstored, fun i d hd => ?_, fun i d label hl hd => ?_, fun i d v b hv => ?_, fun d hd => ?_⟩
  · rcases of_update_call hcalls rfl with ⟨-, hi⟩ | ⟨-, hi⟩
    · exact hwanted d (hi ▸ hd)
    · exact h.wanted i d (hi ▸ hd)
  · rcases of_update_call hcalls hl with ⟨-, hi⟩ | ⟨hne, hi⟩
    · exact hlooked d label hi
    · rcases hnew d hd with hd | hd
      · exact hunleased d hd (h.looked i d label hi hd)
      · exact absurd (hapart.destinations i j d (by rw [hi]; rfl) hd) hne
  · rw [hheld]
    rcases of_update_call hcalls hv with ⟨-, hi⟩ | ⟨hne, hi⟩
    · exact hcreated d v b hi
    · obtain ⟨hclaim, hothers⟩ := h.created i d v b hi
      exact ⟨hkeep d hclaim (.inr ⟨i, v, b, hne, hi⟩), hothers⟩
  · rw [hheld] at hd
    obtain ⟨hclaim, hfree⟩ := h.held d hd
    exact ⟨hkeep d hclaim (.inl hd), hunleased d hclaim hfree⟩

/-- A step of a call of `Allocate`, or the end of a call: no claim of a destination changes. -/
theorem DestinationInv.frame (hnext : next.destination = none)
    (hdestinations : w'.destinations = w.destinations) (hheld : w'.held = w.held)
    (hunleased : ∀ d, w.Claims E d → Unleased w d.address → Unleased w' d.address) :
    DestinationInv E access w' := by
  have hclaims : ∀ d, w'.Claims E d ↔ w.Claims E d := by
    intro d
    rw [Allocations.Claims, hdestinations]
    rfl
  refine h.proceed hcalls hapart hheld (hdestinations ▸ h.stored)
    (fun d hd => .inl ((hclaims d).mp hd)) (fun d hd _ => (hclaims d).mpr hd) hunleased ?_ ?_ ?_
  · rw [hnext]
    exact nofun
  · rintro d label rfl
    cases hnext
  · rintro d v b rfl
    cases hnext

end

/-- A call of `ClaimDestination` returns success: the claim is stored, and the address not leased. -/
theorem DestinationInv.succeed (h : DestinationInv E access w) (hapart : CallsApart w)
    {d : Destination} (hd : (w.calls j).destination = some d) (hclaim : w.Claims E d)
    (hfree : Unleased w d.address) (hcalls : w'.calls = Function.update w.calls j .idle)
    (hleases : w'.leases = w.leases) (hheld : w'.held = d :: w.held)
    (hdestinations : ∀ name s, w'.destinations.lookup name = some s →
      OfContext access s.destination)
    (hclaims : ∀ d, w'.Claims E d ↔ w.Claims E d) : DestinationInv E access w' := by
  have hunleased : ∀ {address}, Unleased w address → Unleased w' address := fun hu =>
    hu.after hcalls nofun fun name l hl => .inl (hleases ▸ hl)
  refine ⟨hdestinations, fun i d' hd' => ?_, fun i d' label hl hd' => ?_, fun i d' v b hv => ?_,
    fun d' hd' => ?_⟩
  · rcases of_update_call hcalls rfl with ⟨-, hi⟩ | ⟨-, hi⟩
    · rw [← hi] at hd'
      cases hd'
    · exact h.wanted i d' (hi ▸ hd')
  · rcases of_update_call hcalls hl with ⟨-, hidle⟩ | ⟨-, hi⟩
    · cases hidle
    · exact hunleased (h.looked i d' label hi ((hclaims d').mp hd'))
  · rcases of_update_call hcalls hv with ⟨-, hidle⟩ | ⟨hne, hi⟩
    · cases hidle
    · obtain ⟨hclaim', hothers⟩ := h.created i d' v b hi
      refine ⟨(hclaims d').mpr hclaim', ?_⟩
      rw [hheld]
      refine List.forall_mem_cons.mpr ⟨fun hname => hne ?_, hothers⟩
      -- two claims of one name are the same claim
      obtain ⟨s, hs, rfl⟩ := hclaim
      obtain ⟨s', hs', rfl⟩ := hclaim'
      rw [hname, hs'] at hs
      cases hs
      exact hapart.destinations i j _ (by rw [hi]; rfl) hd
  · rw [hheld] at hd'
    rcases List.mem_cons.mp hd' with rfl | hd'
    · exact ⟨(hclaims d').mpr hclaim, hunleased hfree⟩
    · obtain ⟨hc, hu⟩ := h.held d' hd'
      exact ⟨(hclaims d').mpr hc, hunleased hu⟩

theorem AllocStep.destinationInv (h : DestinationInv E access w) (hregional : RegionalInv E w)
    (hapart : CallsApart w) (hstep : AllocStep E P access w e w') : DestinationInv E access w' := by
  cases hstep with
  | check j r lease version hcall hclear =>
    refine h.frame rfl hapart rfl rfl rfl fun d hd hu => hu.after rfl ?_ fun _ _ hl => .inl hl
    rintro _ _ ⟨⟩ haddress
    rw [haddress, claimed_of_claims h hd] at hclear
    cases hclear
  | lease j r lease hcall hfree =>
    exact h.frame rfl hapart rfl rfl rfl fun d hd hu => hu.after rfl nofun
      (forall_insert (fun _ _ => .inl) (.inr ⟨r, hcall⟩))
  | look j a project context region raw address hallocator hidle huid haddress hnone =>
    have hfree := unleased_of_free hregional hnone
    have hform := Allocator.destinationAddress_region haddress
    refine h.proceed rfl hapart rfl h.stored (fun _ hd => .inl hd) (fun _ hd _ => hd)
      (fun _ _ hu => hu.after rfl nofun fun _ _ hl => .inl hl) ?_ ?_ nofun
    · rintro _ ⟨⟩
      exact ⟨hform, project, context, rfl, huid⟩
    · rintro _ _ ⟨⟩
      exact hfree.after rfl nofun fun _ _ hl => .inl hl
  | create j d label hcall hfree =>
    have hd : (w.calls j).destination = some d := by rw [hcall]; rfl
    refine h.proceed rfl hapart rfl (forall_insert h.stored (h.wanted j d hd)) ?_ ?_
      (fun _ _ hu => hu.after rfl nofun fun _ _ hl => .inl hl) ?_ nofun ?_
    · rintro d' ⟨s, hs, rfl⟩
      rcases of_lookup_insert hs with ⟨-, rfl⟩ | hs
      · exact .inr hd
      · exact .inl ⟨s, hs, rfl⟩
    · rintro d' ⟨s, hs, rfl⟩ -
      exact ⟨s, lookup_insert_of_free hfree hs, rfl⟩
    · rintro _ ⟨⟩
      exact h.wanted j d hd
    · rintro _ _ _ ⟨⟩
      refine ⟨⟨_, lookup_insert _, rfl⟩, fun d' hd' hname => ?_⟩
      obtain ⟨s, hs, -⟩ := (h.held d' hd').1
      rw [hname, hfree] at hs
      cases hs
  | found j d label stored hcall hstored hsame hlabel =>
    have hd : (w.calls j).destination = some d := by rw [hcall]; rfl
    have hclaim : w.Claims E d := ⟨stored, hstored, hsame⟩
    exact h.succeed hapart hd hclaim (h.looked j d label hcall hclaim) rfl rfl rfl h.stored
      fun _ => Iff.rfl
  | relabel j d label stored hcall hstored hsame hlabel =>
    have hd : (w.calls j).destination = some d := by rw [hcall]; rfl
    have hclaim : w.Claims E d := ⟨stored, hstored, hsame⟩
    refine h.succeed hapart hd hclaim (h.looked j d label hcall hclaim) rfl rfl rfl
      (forall_insert h.stored (h.wanted j d hd)) fun d' => ⟨?_, ?_⟩
    · rintro ⟨s, hs, rfl⟩
      rcases of_lookup_insert hs with ⟨-, rfl⟩ | hs
      · exact hclaim
      · exact ⟨s, hs, rfl⟩
    · rintro ⟨s, hs, rfl⟩
      by_cases hname : destinationName E s.destination = destinationName E d
      · rw [hname, hstored] at hs
        cases hs
        refine ⟨⟨d, label, w.clock⟩, ?_, hsame.symm⟩
        rw [hname]
        exact lookup_insert _
      · exact ⟨s, (lookup_insert_ne hname).trans hs, rfl⟩
  | adopt j d label project uid stored hcall huid hstored hsame =>
    have hcontext := (h.stored _ stored hstored).not_adopted project huid
    rw [hsame] at hcontext
    exact absurd rfl hcontext
  | confirm j d version hcall hnone =>
    have hd : (w.calls j).destination = some d := by rw [hcall]; rfl
    exact h.succeed hapart hd (h.created j d version false hcall).1 (unleased_of_free hregional hnone)
      rfl rfl rfl h.stored fun _ => Iff.rfl
  | refuse j d version regional hcall hfound =>
    have hd : (w.calls j).destination = some d := by rw [hcall]; rfl
    refine h.proceed rfl hapart rfl h.stored (fun _ hd => .inl hd) (fun _ hd _ => hd)
      (fun _ _ hu => hu.after rfl nofun fun _ _ hl => .inl hl) ?_ nofun ?_
    · rintro _ ⟨⟩
      exact h.wanted j d hd
    · rintro _ _ _ ⟨⟩
      exact h.created j d version false hcall
  | rollback j d stored hcall hstored =>
    have hd : (w.calls j).destination = some d := by rw [hcall]; rfl
    obtain ⟨⟨own, hown, howned⟩, hothers⟩ := h.created j d _ true hcall
    refine h.proceed rfl hapart rfl (fun name s hs => h.stored name s (of_lookup_erase hs).2) ?_ ?_
      (fun _ _ hu => hu.after rfl nofun fun _ _ hl => .inl hl) nofun nofun nofun
    · rintro d' ⟨s, hs, hs'⟩
      exact .inl ⟨s, (of_lookup_erase hs).2, hs'⟩
    · rintro d' ⟨s, hs, rfl⟩ hrelied
      refine ⟨s, (lookup_erase_ne fun hname => ?_).trans hs, rfl⟩
      rcases hrelied with hheld | ⟨i, v, b, hi, hcalli⟩
      · exact hothers _ hheld hname
      · -- two claims of one name are the same claim
        rw [hname, hown] at hs
        cases hs
        exact hi (hapart.destinations i j _ (by rw [hcalli]; rfl) (howned ▸ hd))
  -- the other steps write no claim of a destination and no lease
  | _ => exact h.frame rfl hapart rfl rfl rfl fun _ _ hu => hu.after rfl nofun fun _ _ hl => .inl hl

end Steps

/-! ## Runs -/

section

variable (P : Allocator → Prop) (access : GoString → Prop)

/-- All of it. -/
structure RaceInv (E : Externals) (access : GoString → Prop) (w : Allocations J) : Prop where
  apart : CallsApart w
  regional : RegionalInv E w
  destinations : DestinationInv E access w

theorem RaceInv.of_fresh (h : w.Fresh) : RaceInv E access w := by
  obtain ⟨hclaims, hleases, hdestinations, hheld, hidle⟩ := h
  have hnolease : ∀ name l, w.leases.lookup name ≠ some l := by simp [hleases]
  have hnodest : ∀ name d, w.destinations.lookup name ≠ some d := by simp [hdestinations]
  refine ⟨⟨?_, ?_, ?_⟩, ⟨?_, fun name l hl => absurd hl (hnolease name l), ?_⟩,
    ⟨fun name d hd => absurd hd (hnodest name d), ?_, ?_, ?_, by simp [hheld]⟩⟩
  all_goals simp [hidle, Call.request, Call.destination, Call.lease]

/-- **Addresses are exclusive as long as no two calls for one owner overlap**: in every state of every
run in which each call starts only after the calls for the same owner, or for the same destination,
have ended. -/
theorem exclusive_of_alone [DecidableEq J] (P : Allocator → Prop) (access : GoString → Prop)
    (h : Reachable Allocations.Fresh (AllocRunAlone E P access) w) : w.Exclusive := by
  have hinv : RaceInv E access w := by
    refine h.invariant (fun _ => RaceInv.of_fresh access) ?_
    rintro s t hs ⟨e, hstep, halone⟩
    exact ⟨hstep.callsApart hs.apart halone, hstep.regionalInv hs.regional hs.apart,
      hstep.destinationInv hs.destinations hs.regional hs.apart⟩
  exact ⟨fun name name' l l' hl hl' => (lease_unique hinv.regional.leased hl hl').mp,
    fun name l hl d hd => (hinv.destinations.held d hd).2.leased name l hl⟩

/-- The store before any call. -/
def noAllocations : Allocations J := ⟨∅, ∅, ∅, fun _ => .idle, 0, []⟩

theorem fresh_noAllocations : (noAllocations : Allocations J).Fresh :=
  ⟨rfl, rfl, rfl, rfl, fun _ => rfl⟩

/-- An address that an allocator with other pools takes for a destination can be leased while a call
of `ClaimDestination` has returned success for it: two calls for one owner have looked before the
regional claim was there, and the one that finds the claim of the other does not look again. -/
theorem exists_leased_and_held (r : Request) (salt : Nat) (a : Allocator)
    (project context region raw : GoString) (hr : P r.allocator) (ha : P a)
    (huid : ¬ access context ∧ '/' ∉ context)
    (haddress : a.destinationAddress project context region raw =
      some (r.candidate E salt).clusterAddress) :
    ∃ w : Allocations (Fin 3), Reachable Allocations.Fresh (AllocRun E P access) w ∧
      w.leases.lookup (leaseName E r.owner) = some (r.candidate E salt) ∧
      ⟨destinationOwner project context, region, (r.candidate E salt).clusterAddress⟩ ∈ w.held := by
  have h₀ : Reachable Allocations.Fresh (AllocRun E P access) (noAllocations : Allocations (Fin 3)) :=
    .init fresh_noAllocations
  have h₁ := h₀.step ⟨_, .look 0 a project context region raw _ ha rfl huid haddress rfl⟩
  have h₂ := h₁.step ⟨_, .look 1 a project context region raw _ ha rfl huid haddress rfl⟩
  have h₃ := h₂.step ⟨_, .reserve 2 r hr rfl rfl⟩
  have h₄ := h₃.step ⟨_, .claim 2 r salt rfl rfl⟩
  have h₅ := h₄.step ⟨_, .check 2 r _ _ rfl rfl⟩
  have h₆ := h₅.step ⟨_, .create 0 _ _ rfl rfl⟩
  have h₇ := h₆.step ⟨_, .found 1 _ _ _ rfl (lookup_insert _) rfl rfl⟩
  have h₈ := h₇.step ⟨_, .lease 2 r _ rfl rfl⟩
  exact ⟨_, h₈, lookup_insert _, List.mem_cons_self⟩

/-- The default pool, `fd54::/64`. -/
def defaultPool : RegionalPrefix := ⟨0xfd540000000000000000000000000000, 64, by decide, by decide⟩

/-- A pool that replaces it, `fd55::/64`. -/
def otherPool : RegionalPrefix := ⟨0xfd550000000000000000000000000000, 64, by decide, by decide⟩

/-- A call of `Allocate` for a context of the first project. -/
def leasing (context : GoString) : Request :=
  ⟨⟨defaultPool, ∅⟩, lit "project-1", context, lit "east"⟩

/-- A call that leases an address undisturbed. -/
theorem leased_alone : ∃ w : Allocations (Fin 1),
    w.leases.lookup (leaseName .reference (leasing (lit "x")).owner) =
      some ((leasing (lit "x")).candidate .reference 0) ∧ w.Exclusive := by
  have h₀ : Reachable Allocations.Fresh (AllocRunAlone .reference (fun _ => True) fun _ => False)
      (noAllocations : Allocations (Fin 1)) := .init fresh_noAllocations
  have h₁ := h₀.step ⟨_, .reserve 0 (leasing (lit "x")) trivial rfl rfl, fun _ _ h => by cases h⟩
  have h₂ := h₁.step ⟨_, .claim 0 _ 0 rfl rfl, trivial⟩
  have h₃ := h₂.step ⟨_, .check 0 _ _ _ rfl rfl, trivial⟩
  have h₄ := h₃.step ⟨_, .lease 0 _ _ rfl rfl, trivial⟩
  exact ⟨_, lookup_insert _, exclusive_of_alone _ _ h₄⟩

theorem destinationClaimed_eq_false (h : ∀ name s, w.destinations.lookup name ≠ some s)
    (address : GoString) : w.destinationClaimed address = false := by
  rw [← Bool.not_eq_true]
  intro hclaimed
  obtain ⟨s, hs, -⟩ := List.any_eq_true.mp hclaimed
  exact h s.1 s.2 (mem_lookup_iff.mpr hs)

/-- Two owners whose addresses collide can lease the same one: of two calls for the first owner, one
deletes the regional claim that the other relies on, because of a destination claim that is itself
taken back later. -/
theorem exists_leased_twice (r r' : Request) (salt salt' : Nat) (a : Allocator)
    (project context region raw : GoString) (hr : P r.allocator) (hr' : P r'.allocator) (ha : P a)
    (huid : ¬ access context ∧ '/' ∉ context)
    (haddress : a.destinationAddress project context region raw =
      some (r.candidate E salt).clusterAddress)
    (hcollide : (r'.candidate E salt').clusterAddress = (r.candidate E salt).clusterAddress)
    (hname : leaseName E r.owner ≠ leaseName E r'.owner) :
    ∃ w : Allocations (Fin 4), Reachable Allocations.Fresh (AllocRun E P access) w ∧
      w.leases.lookup (leaseName E r.owner) = some (r.candidate E salt) ∧
      w.leases.lookup (leaseName E r'.owner) = some (r'.candidate E salt') := by
  have hregion := Allocator.destinationAddress_region haddress
  have h₀ : Reachable Allocations.Fresh (AllocRun E P access) (noAllocations : Allocations (Fin 4)) :=
    .init fresh_noAllocations
  have h₁ := h₀.step ⟨_, .look 2 a project context region raw _ ha rfl huid haddress rfl⟩
  have h₂ := h₁.step ⟨_, .reserve 0 r hr rfl rfl⟩
  have h₃ := h₂.step ⟨_, .reserve 1 r hr rfl rfl⟩
  have h₄ := h₃.step ⟨_, .claim 0 r salt rfl rfl⟩
  have h₅ := h₄.step ⟨_, .check 0 r _ _ rfl rfl⟩
  have h₆ := h₅.step ⟨_, .own 1 r salt 0 rfl (lookup_insert _)⟩
  have h₇ := h₆.step ⟨_, .create 2 _ _ rfl rfl⟩
  have h₈ := h₇.step ⟨_, .taken 1 r _ _ rfl (by
    refine List.any_eq_true.mpr ⟨_, List.mem_cons_self, ?_⟩
    simp [hregion])⟩
  have h₉ := h₈.step ⟨_, .discard 1 r _ ⟨r.owner, _, 0⟩ rfl (lookup_insert _)⟩
  have h₁₀ := h₉.step ⟨_, .reserve 3 r' hr' rfl rfl⟩
  have h₁₁ := h₁₀.step ⟨_, .claim 3 r' salt' rfl (by
    rw [hcollide]
    exact lookup_erase (claimName E (r.candidate E salt).clusterAddress) _)⟩
  have h₁₂ := h₁₁.step ⟨_, .refuse 2 _ _ _ rfl (by
    rw [← hcollide]
    exact lookup_insert _)⟩
  have h₁₃ := h₁₂.step ⟨_, .rollback 2 _ ⟨_, _, 1⟩ rfl (lookup_insert _)⟩
  have h₁₄ := h₁₃.step ⟨_, .check 3 r' _ _ rfl (destinationClaimed_eq_false (fun name s hs => by
    obtain ⟨hne, hs⟩ := of_lookup_erase hs
    rcases of_lookup_insert hs with ⟨rfl, -⟩ | hs
    · exact hne rfl
    · cases hs) _)⟩
  have h₁₅ := h₁₄.step ⟨_, .lease 3 r' _ rfl rfl⟩
  have h₁₆ := h₁₅.step ⟨_, .lease 0 r _ rfl (lookup_insert_ne hname)⟩
  exact ⟨_, h₁₆, lookup_insert _,
    (lookup_insert_ne hname.symm).trans (lookup_insert _)⟩

end

/-- **Calls for one owner that overlap.**  An address is leased and held as a destination, and an
address is leased to two owners. -/
theorem overlapping_calls_share_addresses :
    (∃ w : Allocations (Fin 3), Reachable Allocations.Fresh
        (AllocRun .reference (fun _ => True) (fun _ => False)) w ∧
      ∃ name l, w.leases.lookup name = some l ∧ ∃ d ∈ w.held, l.clusterAddress = d.address) ∧
    ∃ w : Allocations (Fin 4), Reachable Allocations.Fresh
        (AllocRun .reference (fun _ => True) (fun _ => False)) w ∧
      ∃ name name' l l', w.leases.lookup name = some l ∧ w.leases.lookup name' = some l' ∧
        l.clusterAddress = l'.clusterAddress ∧ l.owner ≠ l'.owner := by
  have haddress : Allocator.destinationAddress ⟨otherPool, ∅⟩ (lit "project-2") (lit "context-2")
      (lit "east") ((leasing (lit "x")).candidate .reference 0).clusterAddress =
        some ((leasing (lit "x")).candidate .reference 0).clusterAddress := by decide +kernel
  constructor
  · obtain ⟨w, hw, hl, hd⟩ := exists_leased_and_held (fun _ => True) (fun _ => False)
      (leasing (lit "x")) 0 _ _ _ _ _ trivial trivial (by decide) haddress
    exact ⟨w, hw, _, _, hl, _, hd, rfl⟩
  · have hcollide : ((leasing (lit "y")).candidate .reference 0).clusterAddress =
        ((leasing (lit "x")).candidate .reference 0).clusterAddress := by decide +kernel
    obtain ⟨w, hw, hl, hl'⟩ := exists_leased_twice (fun _ => True) (fun _ => False)
      (leasing (lit "x")) (leasing (lit "y")) 0 0 _ _ _ _ _ trivial trivial trivial (by decide)
      haddress hcollide (by decide +kernel)
    exact ⟨w, hw, _, _, _, _, hl, hl', hcollide.symm, by decide +kernel⟩

end InternalDNS.Platform
