import InternalDNS.PublisherSafety
import InternalDNS.ServingTargets

/-! # No shard that served a zone is forgotten

The withdrawn targets of a manifest are computed from the manifest before it alone, and from the
outboxes of that manifest.  Over the whole history of a zone this is enough: the writers commit one
manifest after the other, whoever they are and wherever they stop, so a shard that is no longer served
passes from each manifest to the next, until its broker has acknowledged a withdrawal.

`TargetWorld` adds to the writers of a zone the outboxes of their manifests, which they create before
they commit.  Exporters acknowledge or supersede outboxes, and old ones are collected.  An outbox is
found by the name of its manifest and the token of its region and shard, and two targets may have the
same token; then the second outbox of the manifest is refused.
-/
namespace InternalDNS.Controlplane

open Go Platform List Function Option

/-! ## Steps of the writers -/

section Writers

variable {E : Externals} {zoneUID : GoString} {I D : Type} {w w' : World I D} {s : Staging D}

/-- The last commit has the highest number. -/
theorem Inv.number_le_last (h : Inv E zoneUID w) {l : ManifestSpec D}
    (hlast : w.commits.getLast? = some l) : ∀ m ∈ w.commits, m.number ≤ l.number := by
  obtain ⟨init, hinit⟩ := List.getLast?_eq_some_iff.mp hlast
  intro m hm
  have hpairs := h.chain.pairwise
  rw [hinit, map_append, pairwise_append] at hpairs
  rw [hinit] at hm
  rcases mem_append.mp hm with hm | hm
  · exact (hpairs.2.2 m.number (mem_map_of_mem hm) l.number (by simp)).le
  · rw [mem_singleton.mp hm]

theorem Inv.eq_of_name (h : Inv E zoneUID w) {s s' : Staging D}
    (hs : s ∈ w.reserved) (hs' : s' ∈ w.reserved) (hname : s.manifest.name E = s'.manifest.name E) :
    s = s' := by
  have hzone := (h.zones s hs).trans (h.zones s' hs').symm
  exact h.staging_unique hs hs' (ManifestSpec.number_eq_of_name hzone hname).2

/-- The active manifest that a writer has read is the last commit. -/
theorem Inv.active_eq_last (h : Inv E zoneUID w)
    {stored : Versioned Ownership} (howner : w.owner = some stored) {active : Option (ManifestSpec D)}
    (hnone : active = none ↔ stored.value.activeManifestName = [])
    (hactive : ∀ m ∈ active, Artifact.manifest m ∈ w.created ∧
      m.name E = stored.value.activeManifestName) : active = w.commits.getLast? := by
  have hname := (h.owner stored howner).active
  cases hlast : w.commits.getLast? with
  | none =>
    rw [hlast, elim_none] at hname
    exact hnone.mpr hname
  | some l =>
    rw [hlast, elim_some] at hname
    cases active with
    | none => exact absurd (hnone.mp rfl) (hname ▸ l.name_ne_nil)
    | some m =>
      obtain ⟨hcreated, hm⟩ := hactive m rfl
      obtain ⟨s, hs, hsm⟩ := h.created _ hcreated
      obtain rfl := Staging.manifest_of_mem hsm
      obtain ⟨s', hs', rfl⟩ := h.commits l (mem_of_getLast? hlast)
      rw [h.eq_of_name hs hs' (hm.trans hname)]

variable [DecidableEq I] {identity : I → GoString}

/-- The version of the ownership grows, and each commit raises it. -/
theorem Step.owner_le (hstep : Step E zoneUID identity w w') {stored : Versioned Ownership}
    (howner : w.owner = some stored) : ∃ stored', w'.owner = some stored' ∧
      stored.version ≤ stored'.version ∧
      (w'.commits = w.commits ∨ stored.version < stored'.version) := by
  have hupdated {o o' : Versioned Ownership} {seen : Nat} {next : Ownership} (ho : w.owner = some o)
      (hupdate : o.update seen next = some o') : stored.version < o'.version := by
    obtain rfl := mem_unique howner ho
    obtain ⟨-, rfl⟩ := Versioned.update_eq_some.mp hupdate
    exact Nat.lt_succ_self _
  cases hstep with
  | create i now leaseUntil habsent => exact absurd (habsent.symm.trans howner) (by simp)
  | hold => exact ⟨stored, howner, le_rfl, .inl rfl⟩
  | takeOver i o copy o' now leaseUntil ho hcopy hzone hne hexpired hupdate =>
    exact ⟨o', rfl, (hupdated ho hupdate).le, .inl rfl⟩
  | renew i o copy o' leaseUntil ho hwriter hupdate =>
    exact ⟨o', rfl, (hupdated ho hupdate).le, .inl rfl⟩
  | release o copy o' now ho hcopy hupdate => exact ⟨o', rfl, (hupdated ho hupdate).le, .inl rfl⟩
  | reserve i o copy o' leaseUntil active s ho hwriter hactive hprevious hzone hepoch hrevision hupdate =>
    exact ⟨o', rfl, (hupdated ho hupdate).le, .inl rfl⟩
  | stage => exact ⟨stored, howner, le_rfl, .inl rfl⟩
  | commit i o copy o' s stateHash leaseUntil ho hwriter hupdate =>
    exact ⟨o', rfl, (hupdated ho hupdate).le, .inr (hupdated ho hupdate)⟩
  | stop => exact ⟨stored, howner, le_rfl, .inl rfl⟩

/-- A writer that stages something has staged it before, or has just reserved it while all others
stood still. -/
theorem Step.staging_before (hstep : Step E zoneUID identity w w') {i : I}
    {copy : Versioned Ownership} {todo : List (Artifact D)}
    (hwriter : w'.writers i = .staging copy s todo) :
    (∃ todo', w.writers i = .staging copy s todo') ∨
      w'.reserved = w.reserved ++ [s] ∧ ∀ j, j ≠ i → w'.writers j = w.writers j := by
  have hmoved {j : I} {next : Writer D} {x : World I D} (hx : x.writers = w.writers)
      (hnext : ∀ copy s todo, next ≠ .staging copy s todo)
      (h : (x.setWriter j next).writers i = .staging copy s todo) :
      ∃ todo', w.writers i = .staging copy s todo' := by
    rcases x.writers_setWriter j i next with heq | heq
    · exact absurd (heq.symm.trans h) (hnext copy s todo)
    · exact ⟨todo, hx ▸ heq.symm.trans h⟩
  cases hstep with
  | create => exact .inl ⟨todo, hwriter⟩
  | release => exact .inl ⟨todo, hwriter⟩
  | reserve j o copy' o' leaseUntil active s' =>
    by_cases hj : i = j
    · subst hj
      cases (update_self ..).symm.trans hwriter
      exact .inr ⟨rfl, fun k hk => update_of_ne hk ..⟩
    · exact .inl ⟨todo, (update_of_ne hj ..).symm.trans hwriter⟩
  | stage j copy' s' a todo' hstaging =>
    by_cases hj : i = j
    · subst hj
      cases (update_self ..).symm.trans hwriter
      exact .inl ⟨a :: todo, hstaging⟩
    · exact .inl ⟨todo, (update_of_ne hj ..).symm.trans hwriter⟩
  | _ => exact .inl (hmoved rfl (by simp) hwriter)

/-- A revision is reserved from the stored ownership. -/
theorem Inv.reserving (h : Inv E zoneUID w) (hstep : Step E zoneUID identity w w') {i : I}
    {copy copy' : Versioned Ownership} {todo : List (Artifact D)}
    (hholding : w.writers i = .holding copy) (hwriter : w'.writers i = .staging copy' s todo) :
    (∃ stored, w.owner = some stored ∧ copy.value = stored.value) ∧
      w'.reserved = w.reserved ++ [s] ∧ w'.commits = w.commits := by
  have hreserved : w'.reserved = w.reserved ++ [s] := by
    rcases hstep.staging_before hwriter with ⟨todo', hbefore⟩ | ⟨hreserved, -⟩
    · exact absurd (hholding.symm.trans hbefore) (by simp)
    · exact hreserved
  have hunchanged (heq : w.reserved = w.reserved ++ [s]) : False := by simp at heq
  cases hstep with
  | reserve j o copy₀ o' leaseUntil active s' ho hj hactive hprevious hzone hepoch hrevision hupdate =>
    have hij : i = j := by
      by_contra hij
      have hsame := (update_of_ne hij ..).symm.trans hwriter
      exact absurd (hholding.symm.trans hsame) (by simp)
    subst hij
    cases hholding.symm.trans hj
    have hcopy := h.copy_of_writer ho (congrArg Writer.copy hj)
    exact ⟨⟨o, ho, (hcopy.of_update hupdate).1⟩, hreserved, rfl⟩
  | _ => exact (hunchanged hreserved).elim

/-- What is committed was staged, by a writer whose ownership is the stored one. -/
theorem Step.committing (hstep : Step E zoneUID identity w w') {m : ManifestSpec D}
    (hcommits : w'.commits = w.commits ++ [m]) : ∃ i copy s stored, w.owner = some stored ∧
      w.writers i = .staging copy s [] ∧ s.manifest = m ∧ copy.version = stored.version ∧
      w'.reserved = w.reserved := by
  have hunchanged (heq : w.commits = w.commits ++ [m]) : False := by simp at heq
  cases hstep with
  | commit i o copy o' s stateHash leaseUntil ho hwriter hupdate =>
    have hm : s.manifest = m := by simpa using hcommits
    exact ⟨i, copy, s, o, ho, hwriter, hm, (Versioned.update_eq_some.mp hupdate).1, rfl⟩
  | _ => exact (hunchanged hcommits).elim

end Writers

/-! ## Outboxes -/

/-- The activation outbox of a target; a withdrawn target gets the manifest as a tombstone. -/
structure ActivationOutbox where
  target : ServingRegion
  withdrawal : Bool
  deriving DecidableEq

/-- `DNSTransportOutbox.Status.State`. -/
inductive OutboxState where
  | pending
  | acknowledged
  | superseded

/-- `controlplane.regionToken`. -/
def regionToken (E : Externals) (v : ServingRegion) : GoString :=
  safeToken E v.region ++ '-' :: safeToken E v.shard

/-- The outboxes that `persistPublication` creates after the manifest. -/
def ManifestSpec.outboxes (m : ManifestSpec Targets) : List ActivationOutbox :=
  m.rest.serving.map (⟨·, false⟩) ++ m.rest.withdrawn.map (⟨·, true⟩)

/-- The writers of a zone and the outboxes of its manifests. -/
structure TargetWorld (I : Type) where
  base : World I Targets
  /-- The outboxes by the name of the manifest and the token of the target. -/
  outboxes : GoString × GoString → Option (ActivationOutbox × OutboxState)
  /-- The outboxes that a writer has still to create. -/
  todo : I → List ActivationOutbox
  /-- What a writer has last seen of the withdrawal of a manifest. -/
  seen : I → GoString → ServingRegion → Bool
  /-- All outboxes that were created, or found as they should be. -/
  made : List (GoString × ActivationOutbox)
  /-- All outboxes that were acknowledged. -/
  acked : List (GoString × ActivationOutbox)

section System

variable (E : Externals) (zoneUID : GoString) (o : TargetOptions) {I : Type} [DecidableEq I]
  (identity : I → GoString) (w : TargetWorld I)

/-- The outbox of the target is acknowledged. -/
def TargetWorld.delivered (name : GoString) (v : ServingRegion) : Bool :=
  match w.outboxes (name, regionToken E v) with
  | some (_, .acknowledged) => true
  | _ => false

/-- A step of a writer, an exporter or a collector. -/
inductive TargetStep (w : TargetWorld I) : TargetWorld I → Prop
  -- a writer does something else than to reserve or to commit
  | other (base : World I Targets) (hstep : Step E zoneUID identity w.base base)
      (hreserved : base.reserved = w.base.reserved) (hcommits : base.commits = w.base.commits) :
      TargetStep w { w with base }
  -- `withdrawalDelivered`
  | look (i : I) (name : GoString) (v : ServingRegion) :
      TargetStep w { w with
        seen := Function.update w.seen i fun name' v' =>
          if name' = name ∧ v' = v then w.delivered E name v else w.seen i name' v' }
  -- `compileZone` up to the reservation, with the active manifest that it has read
  | reserve (base : World I Targets) (i : I) (copy copy' : Versioned Ownership)
      (active : Option (ManifestSpec Targets)) (s : Staging Targets) (bindings : List ResolverBinding)
      (contextUIDs : List GoString) (hstep : Step E zoneUID identity w.base base)
      (hholding : w.base.writers i = .holding copy)
      (hstaging : base.writers i = .staging copy' s s.artifacts)
      (hnone : active = none ↔ copy.value.activeManifestName = [])
      (hactive : ∀ m ∈ active, Artifact.manifest m ∈ w.base.created ∧
        m.name E = copy.value.activeManifestName)
      (htargets : zoneTargets E o bindings contextUIDs s.manifest.tombstone
        (active.map ManifestSpec.rest) (w.seen i copy.value.activeManifestName) = some s.manifest.rest) :
      TargetStep w { w with
        base
        todo := Function.update w.todo i s.manifest.outboxes }
  -- `createImmutable` of an outbox
  | stageOutbox (i : I) (copy : Versioned Ownership) (s : Staging Targets) (x : ActivationOutbox)
      (rest : List ActivationOutbox) (hwriter : w.base.writers i = .staging copy s [])
      (htodo : w.todo i = x :: rest)
      (hsame : ∀ found ∈ w.outboxes (s.manifest.name E, regionToken E x.target), found.1 = x) :
      TargetStep w { w with
        outboxes := Function.update w.outboxes (s.manifest.name E, regionToken E x.target) <|
          some ((w.outboxes (s.manifest.name E, regionToken E x.target)).getD (x, .pending))
        todo := Function.update w.todo i rest
        made := (s.manifest.name E, x) :: w.made }
  | commit (base : World I Targets) (i : I) (copy : Versioned Ownership) (s : Staging Targets)
      (hstep : Step E zoneUID identity w.base base) (hwriter : w.base.writers i = .staging copy s [])
      (htodo : w.todo i = []) (hcommits : base.commits = w.base.commits ++ [s.manifest]) :
      TargetStep w { w with base }
  -- the broker has taken what the outbox holds
  | acknowledge (key : GoString × GoString) (x : ActivationOutbox)
      (hfound : w.outboxes key = some (x, .pending)) :
      TargetStep w { w with
        outboxes := Function.update w.outboxes key (some (x, .acknowledged))
        acked := (key.1, x) :: w.acked }
  | supersede (key : GoString × GoString) (x : ActivationOutbox)
      (hfound : w.outboxes key = some (x, .pending)) :
      TargetStep w { w with outboxes := Function.update w.outboxes key (some (x, .superseded)) }
  -- `Collect` deletes outboxes of manifests that are older than a committed one
  | collect (token : GoString) (m l : ManifestSpec Targets) (hm : .manifest m ∈ w.base.created)
      (hl : l ∈ w.base.commits) (hnewer : m.number < l.number) :
      TargetStep w { w with outboxes := Function.update w.outboxes (m.name E, token) none }

/-- Before the first writer. -/
structure TargetWorld.Fresh : Prop where
  base : w.base.Fresh
  outboxes : ∀ key, w.outboxes key = none
  seen : ∀ i name v, w.seen i name v = false
  made : w.made = []
  acked : w.acked = []

/-! ## The invariant -/

/-- The withdrawal of the last manifest was acknowledged. -/
def Acked (acked : List (GoString × ActivationOutbox)) (last : Option (ManifestSpec Targets))
    (v : ServingRegion) : Prop :=
  ∃ l ∈ last, (l.name E, ⟨v, true⟩) ∈ acked

/-- The targets of a manifest follow those of the last one. -/
def FollowsLast (acked : List (GoString × ActivationOutbox)) (last : Option (ManifestSpec Targets))
    (m : ManifestSpec Targets) : Prop :=
  m.rest.Follows o (Acked E acked last) (last.map ManifestSpec.rest)

/-- **The invariant of the targets.** -/
structure TargetInv : Prop where
  base : Inv E zoneUID w.base
  made : ∀ name x, (name, x) ∈ w.made → ∃ s ∈ w.base.reserved, s.manifest.name E = name
  stored : ∀ key x state, w.outboxes key = some (x, state) →
    key.2 = regionToken E x.target ∧ (key.1, x) ∈ w.made
  /-- The outboxes of a manifest that nothing has superseded are all there. -/
  present : ∀ s ∈ w.base.reserved, (∀ l ∈ w.base.commits, l.number ≤ s.manifest.number) →
    ∀ x, (s.manifest.name E, x) ∈ w.made →
      ∃ state, w.outboxes (s.manifest.name E, regionToken E x.target) = some (x, state)
  acknowledged : ∀ key x, w.outboxes key = some (x, .acknowledged) → (key.1, x) ∈ w.acked
  acked : ∀ name x, (name, x) ∈ w.acked → (name, x) ∈ w.made
  seen : ∀ i name v, w.seen i name v = true →
    ∃ x, (name, x) ∈ w.acked ∧ regionToken E x.target = regionToken E v
  todo : ∀ i copy s todo, w.base.writers i = .staging copy s todo →
    ∀ x ∈ s.manifest.outboxes, x ∈ w.todo i ∨ (s.manifest.name E, x) ∈ w.made
  follows : ∀ i copy s todo, w.base.writers i = .staging copy s todo →
    ∀ stored, w.base.owner = some stored → copy.version = stored.version →
      FollowsLast E o w.acked w.base.commits.getLast? s.manifest
  complete : ∀ m ∈ w.base.commits, ∀ x ∈ m.outboxes, (m.name E, x) ∈ w.made
  history : ∀ before m after, w.base.commits = before ++ m :: after →
    FollowsLast E o w.acked before.getLast? m

end System

theorem Targets.Follows.imp {o : TargetOptions} {d d' : ServingRegion → Prop} {active : Option Targets}
    {t : Targets} (h : t.Follows o d active) (himp : ∀ a ∈ active, ∀ v ∈ a.withdrawn, d v → d' v) :
    t.Follows o d' active := by
  refine { h with still := fun a ha v hv hwithdraws => ?_ }
  rcases h.still a ha v hv hwithdraws with hserving | hwithdrawn | hd
  · exact .inl hserving
  · exact .inr (.inl hwithdrawn)
  · exact .inr (.inr (himp a ha v hv hd))

section Steps

variable {E : Externals} {zoneUID : GoString} {o : TargetOptions} {I : Type}
  {w : TargetWorld I} {acked : List (GoString × ActivationOutbox)} {m : ManifestSpec Targets}
  {i : I} {base : World I Targets} {copy : Versioned Ownership} {s : Staging Targets}

theorem FollowsLast.mono {acked acked' : List (GoString × ActivationOutbox)}
    {last : Option (ManifestSpec Targets)} (h : FollowsLast E o acked last m)
    (hsub : acked ⊆ acked') : FollowsLast E o acked' last m :=
  Targets.Follows.imp h fun _ _ _ _ ⟨l, hl, hmem⟩ => ⟨l, hl, hsub hmem⟩

section

variable (h : TargetInv E zoneUID o w)
include h

/-- **A withdrawal that was seen delivered was acknowledged**, if it is one of the last commit. -/
theorem TargetInv.acked_of_seen {l : ManifestSpec Targets}
    (hlast : w.base.commits.getLast? = some l) {v : ServingRegion} (hv : v ∈ l.rest.withdrawn)
    (hseen : w.seen i (l.name E) v = true) : (l.name E, ⟨v, true⟩) ∈ w.acked := by
  obtain ⟨x, hacked, htoken⟩ := h.seen i (l.name E) v hseen
  have hl := mem_of_getLast? hlast
  obtain ⟨s, hs, rfl⟩ := h.base.commits l hl
  have houtbox : (⟨v, true⟩ : ActivationOutbox) ∈ s.manifest.outboxes :=
    mem_append_right _ (mem_map.mpr ⟨v, hv, rfl⟩)
  have hpresent := h.present s hs (h.base.number_le_last hlast)
  -- both outboxes are found under one name
  obtain ⟨state, hstate⟩ := hpresent _ (h.complete _ hl _ houtbox)
  obtain ⟨state', hstate'⟩ := hpresent x (h.acked _ x hacked)
  rw [htoken, hstate] at hstate'
  cases hstate'
  exact hacked

/-- What is reserved follows the last commit. -/
theorem TargetInv.follows_reserved {stored : Versioned Ownership}
    (howner : w.base.owner = some stored) {active : Option (ManifestSpec Targets)}
    {bindings : List ResolverBinding} {contextUIDs : List GoString}
    (hnone : active = none ↔ stored.value.activeManifestName = [])
    (hactive : ∀ m ∈ active, Artifact.manifest m ∈ w.base.created ∧
      m.name E = stored.value.activeManifestName)
    (htargets : zoneTargets E o bindings contextUIDs m.tombstone (active.map ManifestSpec.rest)
      (w.seen i stored.value.activeManifestName) = some m.rest) :
    FollowsLast E o w.acked w.base.commits.getLast? m := by
  have hlast := h.base.active_eq_last howner hnone hactive
  rw [hlast] at hactive htargets
  refine (zoneTargets_follows htargets).imp fun a ha v hv hdelivered => ?_
  obtain ⟨l, hl, rfl⟩ := map_eq_some_iff.mp ha
  rw [← (hactive l hl).2] at hdelivered
  exact ⟨l, hl, h.acked_of_seen hl hv hdelivered⟩

/-- Steps on the outboxes.  What was made and acknowledged is not forgotten, and the outboxes of a
manifest that nothing has superseded stay where they are. -/
theorem TargetInv.withOutboxes
    {outboxes : GoString × GoString → Option (ActivationOutbox × OutboxState)}
    (hsub : w.acked ⊆ acked)
    (hstored : ∀ key x state, outboxes key = some (x, state) → ∃ state', w.outboxes key = some (x, state'))
    (hpresent : ∀ s ∈ w.base.reserved, (∀ l ∈ w.base.commits, l.number ≤ s.manifest.number) →
      ∀ token x state, w.outboxes (s.manifest.name E, token) = some (x, state) →
        ∃ state', outboxes (s.manifest.name E, token) = some (x, state'))
    (hacknowledged : ∀ key x, outboxes key = some (x, .acknowledged) → (key.1, x) ∈ acked)
    (hacked : ∀ name x, (name, x) ∈ acked → (name, x) ∈ w.made) :
    TargetInv E zoneUID o { w with outboxes, acked } :=
  { h with
    stored := fun key x state hkey => by
      obtain ⟨state', hkey'⟩ := hstored key x state hkey
      exact h.stored key x state' hkey'
    present := fun s hs hnewest x hx => by
      obtain ⟨state, hstate⟩ := h.present s hs hnewest x hx
      exact hpresent s hs hnewest _ x state hstate
    acknowledged := hacknowledged
    acked := hacked
    seen := fun i name v hseen => by
      obtain ⟨x, hx, htoken⟩ := h.seen i name v hseen
      exact ⟨x, hsub hx, htoken⟩
    follows := fun i copy s todo hwriter stored howner hversion =>
      (h.follows i copy s todo hwriter stored howner hversion).mono hsub
    history := fun before m after hsplit => (h.history before m after hsplit).mono hsub }

/-- An outbox is settled. -/
theorem TargetInv.settle {key : GoString × GoString}
    {x : ActivationOutbox} {state state' : OutboxState} (hfound : w.outboxes key = some (x, state))
    (hsub : w.acked ⊆ acked) (hnew : state' = .acknowledged → (key.1, x) ∈ acked)
    (hacked : ∀ name x', (name, x') ∈ acked → (name, x') ∈ w.acked ∨ name = key.1 ∧ x' = x) :
    TargetInv E zoneUID o { w with
      outboxes := Function.update w.outboxes key (some (x, state')), acked } := by
  refine h.withOutboxes hsub (fun k y st hy => ?_) (fun s hs hnewest token y st hy => ?_)
    (fun k y hy => ?_) fun name y hy => ?_
  · by_cases hk : k = key
    · subst hk
      obtain ⟨rfl, -⟩ : x = y ∧ state' = st := by simpa using hy
      exact ⟨state, hfound⟩
    · exact ⟨st, by simpa [hk] using hy⟩
  · by_cases hk : (s.manifest.name E, token) = key
    · subst hk
      cases hfound.symm.trans hy
      exact ⟨state', update_self ..⟩
    · exact ⟨st, by simpa [update_of_ne hk] using hy⟩
  · by_cases hk : k = key
    · subst hk
      obtain ⟨rfl, hstate⟩ : x = y ∧ state' = .acknowledged := by simpa using hy
      exact hnew hstate
    · exact hsub (h.acknowledged k y (by simpa [hk] using hy))
  · rcases hacked name y hy with hold | ⟨rfl, rfl⟩
    · exact h.acked name y hold
    · exact (h.stored key y state hfound).2

theorem TargetInv.collect {token : GoString} {m l : ManifestSpec Targets}
    (hm : .manifest m ∈ w.base.created) (hl : l ∈ w.base.commits) (hnewer : m.number < l.number) :
    TargetInv E zoneUID o { w with outboxes := Function.update w.outboxes (m.name E, token) none } := by
  have hkept : ∀ key x state, update w.outboxes (m.name E, token) none key = some (x, state) →
      w.outboxes key = some (x, state) := by
    intro key x state hkey
    by_cases hk : key = (m.name E, token)
    · subst hk
      simp at hkey
    · simpa [hk] using hkey
  refine h.withOutboxes (List.Subset.refl _) (fun key x state hkey => ⟨state, hkept key x state hkey⟩)
    (fun s hs hnewest t x state hkey => ⟨state, ?_⟩)
    (fun key x hkey => h.acknowledged key x (hkept key x _ hkey)) h.acked
  -- the manifest that is collected has a lower number than a commit
  obtain ⟨s', hs', hsm⟩ := h.base.created _ hm
  obtain rfl := Staging.manifest_of_mem hsm
  have hname : (s.manifest.name E, t) ≠ (s'.manifest.name E, token) := by
    intro heq
    obtain rfl := h.base.eq_of_name hs hs' (Prod.mk.inj heq).1
    exact absurd (hnewest l hl) (not_le.mpr hnewer)
  rw [update_of_ne hname]
  exact hkey

end

theorem TargetInv.of_fresh (h : w.Fresh) : TargetInv E zoneUID o w := by
  obtain ⟨⟨owner, writers, reserved, created, commits⟩, outboxes, todo, seen, made, acked⟩ := w
  obtain ⟨hbase, houtboxes, hseen, rfl, rfl⟩ := h
  have hinv : Inv E zoneUID _ := .of_fresh hbase
  obtain ⟨rfl, hidle, rfl, rfl, rfl⟩ := hbase
  obtain rfl : writers = fun _ => .idle := funext hidle
  obtain rfl : outboxes = fun _ => none := funext houtboxes
  refine ⟨hinv, nofun, nofun, nofun, nofun, nofun, fun i name v h => ?_, nofun, nofun, nofun,
    fun before m after hsplit => absurd hsplit (by simp)⟩
  exact absurd ((hseen i name v).symm.trans h) Bool.false_ne_true

variable [DecidableEq I] {identity : I → GoString}

section

variable (h : TargetInv E zoneUID o w)
include h

section

variable (hstep : Step E zoneUID identity w.base base)
include hstep

/-- What a writer stages goes on to follow the last commit, as long as it may still be committed. -/
theorem TargetInv.follows_of_staging {todo : List (Artifact Targets)}
    (hbefore : w.base.writers i = .staging copy s todo) {stored' : Versioned Ownership}
    (howner' : base.owner = some stored') (hversion : copy.version = stored'.version) :
    FollowsLast E o w.acked base.commits.getLast? s.manifest := by
  obtain ⟨stored, howner, hcopy⟩ := h.base.copies i copy (by rw [hbefore]; rfl)
  obtain ⟨stored'', howner'', hle, hcommits⟩ := hstep.owner_le howner
  obtain rfl := mem_unique howner' howner''
  have hsame : copy.version = stored.version := le_antisymm hcopy.version (hversion ▸ hle)
  have hcommits : base.commits = w.base.commits := by
    rcases hcommits with hcommits | hlt
    · exact hcommits
    · exact absurd hlt (by omega)
  rw [hcommits]
  exact h.follows i copy s todo hbefore stored howner hsame

/-- A step of the writers that reserves nothing. -/
theorem TargetInv.withBase (hreserved : base.reserved = w.base.reserved)
    (hcommits : w.base.commits ⊆ base.commits)
    (hcomplete : ∀ m ∈ base.commits, ∀ x ∈ m.outboxes, (m.name E, x) ∈ w.made)
    (hhistory : ∀ before m after, base.commits = before ++ m :: after →
      FollowsLast E o w.acked before.getLast? m) :
    TargetInv E zoneUID o { w with base } := by
  have hbefore : ∀ {i copy s todo}, base.writers i = .staging copy s todo →
      ∃ todo', w.base.writers i = .staging copy s todo' := by
    intro i copy s todo hwriter
    rcases hstep.staging_before hwriter with hbefore | ⟨hnew, -⟩
    · exact hbefore
    · exact absurd (hreserved.symm.trans hnew) (by simp)
  exact { h with
    base := h.base.step hstep
    made := fun name x hx => hreserved ▸ h.made name x hx
    present := fun s hs hnewest => h.present s (hreserved ▸ hs) fun l hl => hnewest l (hcommits hl)
    todo := fun i copy s todo hwriter => by
      obtain ⟨todo', hwriter'⟩ := hbefore hwriter
      exact h.todo i copy s todo' hwriter'
    follows := fun i copy s todo hwriter stored howner hversion => by
      obtain ⟨todo', hwriter'⟩ := hbefore hwriter
      exact h.follows_of_staging hstep hwriter' howner hversion
    complete := hcomplete
    history := hhistory }

theorem TargetInv.commit (hwriter : w.base.writers i = .staging copy s []) (htodo : w.todo i = [])
    (hcommits : base.commits = w.base.commits ++ [s.manifest]) :
    TargetInv E zoneUID o { w with base } := by
  obtain ⟨j, copy', s', stored, howner, hj, hs', hversion, hreserved⟩ := hstep.committing hcommits
  refine h.withBase hstep hreserved (hcommits ▸ subset_append_left _ _) (fun m hm x hx => ?_) ?_
  · rcases mem_append.mp (hcommits ▸ hm) with hm | hm
    · exact h.complete m hm x hx
    · rw [mem_singleton.mp hm] at hx ⊢
      rcases h.todo i copy s [] hwriter x hx with hleft | hmade
      · rw [htodo] at hleft
        cases hleft
      · exact hmade
  · have hnew : FollowsLast E o w.acked w.base.commits.getLast? s.manifest :=
      hs' ▸ h.follows j copy' s' [] hj stored howner hversion
    rw [hcommits]
    exact forall_split_concat.mpr ⟨h.history, hnew⟩

theorem TargetInv.reserve {todo : List (Artifact Targets)}
    (hwriter : base.writers i = .staging copy s todo)
    (hreserved : base.reserved = w.base.reserved ++ [s]) (hcommits : base.commits = w.base.commits)
    (hothers : ∀ j, j ≠ i → base.writers j = w.base.writers j)
    (hfollows : FollowsLast E o w.acked w.base.commits.getLast? s.manifest) :
    TargetInv E zoneUID o { w with
      base
      todo := Function.update w.todo i s.manifest.outboxes } := by
  have hbase := h.base.step hstep
  exact { h with
    base := hbase
    made := fun name x hx => by
      obtain ⟨s', hs', hname⟩ := h.made name x hx
      exact ⟨s', hreserved ▸ mem_append_left _ hs', hname⟩
    present := fun s' hs' hnewest x hx => by
      rcases mem_append.mp (hreserved ▸ hs') with hold | hnew
      · exact h.present s' hold (hcommits ▸ hnewest) x hx
      · -- no outbox has the name of a revision that is just reserved
        obtain rfl := mem_singleton.mp hnew
        obtain ⟨s'', hs'', hname⟩ := h.made _ x hx
        obtain rfl := hbase.eq_of_name (hreserved ▸ mem_append_left _ hs'') hs' hname
        have hrevisions := hbase.revisions
        rw [hreserved, map_append, nodup_append] at hrevisions
        exact absurd rfl (hrevisions.2.2 _ (mem_map_of_mem hs'') _ (by simp))
    todo := fun j copy' s' todo' hj x hx => by
      by_cases hji : j = i
      · subst hji
        cases hwriter.symm.trans hj
        simpa using .inl hx
      · have hold := h.todo j copy' s' todo' ((hothers j hji).symm.trans hj) x hx
        simpa [hji] using hold
    follows := fun j copy' s' todo' hj stored howner hversion => by
      by_cases hji : j = i
      · subst hji
        cases hwriter.symm.trans hj
        exact hcommits ▸ hfollows
      · exact h.follows_of_staging hstep ((hothers j hji).symm.trans hj) howner hversion
    complete := fun m hm => h.complete m (hcommits ▸ hm)
    history := fun before m after hsplit => h.history before m after (hcommits ▸ hsplit) }

end

theorem TargetInv.stageOutbox {x : ActivationOutbox}
    {rest : List ActivationOutbox} (hwriter : w.base.writers i = .staging copy s [])
    (htodo : w.todo i = x :: rest)
    (hsame : ∀ found ∈ w.outboxes (s.manifest.name E, regionToken E x.target), found.1 = x) :
    TargetInv E zoneUID o { w with
      outboxes := Function.update w.outboxes (s.manifest.name E, regionToken E x.target) <|
        some ((w.outboxes (s.manifest.name E, regionToken E x.target)).getD (x, .pending))
      todo := Function.update w.todo i rest
      made := (s.manifest.name E, x) :: w.made } := by
  have hreserved := (h.base.staging i copy s [] hwriter).reserved
  obtain ⟨state, hvalue, hstate⟩ :
      ∃ state, (w.outboxes (s.manifest.name E, regionToken E x.target)).getD (x, .pending) = (x, state) ∧
        (state = .acknowledged → (s.manifest.name E, x) ∈ w.acked) := by
    cases hfound : w.outboxes (s.manifest.name E, regionToken E x.target) with
    | none => exact ⟨.pending, rfl, nofun⟩
    | some found =>
      obtain ⟨y, state⟩ := found
      obtain rfl : y = x := hsame (y, state) hfound
      exact ⟨state, rfl, fun heq => h.acknowledged _ y (heq ▸ hfound)⟩
  rw [hvalue]
  exact { h with
    made := fun name y hy => by
      rcases mem_cons.mp hy with heq | hy
      · cases heq
        exact ⟨s, hreserved, rfl⟩
      · exact h.made name y hy
    stored := fun key y st hkey => by
      by_cases hk : key = (s.manifest.name E, regionToken E x.target)
      · subst hk
        obtain ⟨rfl, -⟩ : x = y ∧ state = st := by simpa using hkey
        exact ⟨rfl, mem_cons_self⟩
      · obtain ⟨htoken, hmade⟩ := h.stored key y st (by simpa [hk] using hkey)
        exact ⟨htoken, mem_cons_of_mem _ hmade⟩
    present := fun s' hs' hnewest y hy => by
      by_cases hk : (s'.manifest.name E, regionToken E y.target) = (s.manifest.name E, regionToken E x.target)
      · rcases mem_cons.mp hy with heq | hy
        · obtain rfl := (Prod.mk.inj heq).2
          exact ⟨state, by simp [hk]⟩
        · -- it is there already, so it is the one that was to be created
          obtain ⟨st, hst⟩ := h.present s' hs' hnewest y hy
          rw [hk] at hst
          obtain rfl : y = x := hsame (y, st) hst
          exact ⟨state, by simp [hk]⟩
      · rcases mem_cons.mp hy with heq | hy
        · obtain ⟨hname, rfl⟩ := Prod.mk.inj heq
          exact absurd (by rw [hname]) hk
        · obtain ⟨st, hst⟩ := h.present s' hs' hnewest y hy
          exact ⟨st, by simpa [update_of_ne hk] using hst⟩
    acknowledged := fun key y hkey => by
      by_cases hk : key = (s.manifest.name E, regionToken E x.target)
      · subst hk
        obtain ⟨rfl, hack⟩ : x = y ∧ state = .acknowledged := by simpa using hkey
        exact hstate hack
      · exact h.acknowledged key y (by simpa [hk] using hkey)
    acked := fun name y hy => mem_cons_of_mem _ (h.acked name y hy)
    todo := fun j copy' s' todo' hj y hy => by
      have hold := h.todo j copy' s' todo' hj y hy
      by_cases hji : j = i
      · subst hji
        cases hwriter.symm.trans hj
        rw [htodo, mem_cons] at hold
        simp only [update_self, mem_cons, Prod.mk.injEq, true_and]
        tauto
      · show y ∈ update w.todo i rest j ∨ _
        rw [update_of_ne hji]
        exact hold.imp_right (mem_cons_of_mem _)
    complete := fun m hm y hy => mem_cons_of_mem _ (h.complete m hm y hy) }

theorem TargetInv.look {name : GoString} {v : ServingRegion} : TargetInv E zoneUID o { w with
      seen := Function.update w.seen i fun name' v' =>
        if name' = name ∧ v' = v then w.delivered E name v else w.seen i name' v' } := by
  refine { h with seen := fun j name' v' hseen => ?_ }
  by_cases hj : j = i
  · subst hj
    by_cases heq : name' = name ∧ v' = v
    · obtain ⟨rfl, rfl⟩ := heq
      have hdelivered : w.delivered E name' v' = true := by simpa using hseen
      unfold TargetWorld.delivered at hdelivered
      split at hdelivered
      · rename_i x hfound
        exact ⟨x, h.acknowledged _ x hfound, (h.stored _ x _ hfound).1.symm⟩
      · cases hdelivered
    · exact h.seen j name' v' (by simpa [heq] using hseen)
  · exact h.seen j name' v' (by simpa [hj] using hseen)

/-- **Every step keeps the invariant.** -/
theorem TargetInv.step {w' : TargetWorld I}
    (hstep : TargetStep E zoneUID o identity w w') : TargetInv E zoneUID o w' := by
  cases hstep with
  | other base hbase hreserved hcommits =>
    refine h.withBase hbase hreserved (hcommits ▸ List.Subset.refl _) (hcommits ▸ h.complete) ?_
    exact hcommits ▸ h.history
  | look i name v => exact h.look
  | reserve base i copy copy' active s bindings contextUIDs hbase hholding hstaging hnone hactive htargets =>
    obtain ⟨⟨stored, howner, hcopy⟩, hreserved, hcommits⟩ := h.base.reserving hbase hholding hstaging
    have hothers : ∀ j, j ≠ i → base.writers j = w.base.writers j := by
      rcases hbase.staging_before hstaging with ⟨todo, hbefore⟩ | ⟨-, hothers⟩
      · exact absurd (hholding.symm.trans hbefore) (by simp)
      · exact hothers
    rw [hcopy] at hnone hactive htargets
    exact h.reserve hbase hstaging hreserved hcommits hothers
      (h.follows_reserved howner hnone hactive htargets)
  | stageOutbox i copy s x rest hwriter htodo hsame => exact h.stageOutbox hwriter htodo hsame
  | commit base i copy s hbase hwriter htodo hcommits => exact h.commit hbase hwriter htodo hcommits
  | acknowledge key x hfound =>
    refine h.settle hfound (subset_cons_self _ _) (fun _ => mem_cons_self) fun name y hy => ?_
    rcases mem_cons.mp hy with heq | hy
    · exact .inr (Prod.mk.inj heq)
    · exact .inl hy
  | supersede key x hfound => exact h.settle hfound (List.Subset.refl _) nofun fun _ _ => .inl
  | collect token m l hm hl hnewer => exact h.collect hm hl hnewer

end

end Steps

/-! ## The history of a zone -/

section History

variable {E : Externals} {zoneUID : GoString} {o : TargetOptions} {I : Type} {w : TargetWorld I}

/-- Manifests serve configured shards. -/
theorem TargetInv.configured (h : TargetInv E zoneUID o w) : ∀ commits after,
    w.base.commits = commits ++ after → ∀ m ∈ commits, ∀ v ∈ m.rest.serving, v ∈ o.servingRegions := by
  intro commits
  induction commits using List.reverseRecOn with
  | nil => simp
  | append_singleton init l ih =>
    intro after hsplit m hm
    rw [append_assoc, singleton_append] at hsplit
    have hinit := ih (l :: after) hsplit
    rcases mem_append.mp hm with hm | hm
    · exact hinit m hm
    · obtain rfl := mem_singleton.mp hm
      refine (h.history init m after hsplit).configured fun a ha => ?_
      obtain ⟨p, hp, rfl⟩ := map_eq_some_iff.mp ha
      exact hinit p (mem_of_getLast? hp)

/-- A shard that a manifest serves passes on from one manifest to the next. -/
theorem TargetInv.passes (h : TargetInv E zoneUID o w) {before : List (ManifestSpec Targets)}
    {m : ManifestSpec Targets} {v : ServingRegion} (hv : v ∈ m.rest.serving)
    (hwithdraws : o.withdraws v = true) : ∀ between current after,
    w.base.commits = before ++ m :: (between ++ current :: after) →
      v ∈ current.rest.serving ∨ v ∈ current.rest.withdrawn ∨
        ∃ l ∈ between, v ∈ l.rest.withdrawn ∧ (l.name E, ⟨v, true⟩) ∈ w.acked := by
  intro between
  induction between using List.reverseRecOn with
  | nil =>
    intro current after hsplit
    have hfollows := h.history (before ++ [m]) current after (by simpa using hsplit)
    rw [FollowsLast, List.getLast?_concat, map_some] at hfollows
    exact (hfollows.left _ rfl v hv hwithdraws).imp_right .inl
  | append_singleton init p ih =>
    intro current after hsplit
    have hfollows := h.history (before ++ m :: (init ++ [p])) current after (by simpa using hsplit)
    have hlast : (before ++ m :: (init ++ [p])).getLast? = some p := by
      rw [← cons_append, ← append_assoc]
      exact List.getLast?_concat
    rw [FollowsLast, hlast, map_some] at hfollows
    rcases ih p (current :: after) (by simpa using hsplit) with hserving | hwithdrawn | ⟨l, hl, hacked⟩
    · exact (hfollows.left _ rfl v hserving hwithdraws).imp_right .inl
    · rcases hfollows.still _ rfl v hwithdrawn hwithdraws with hserving | hstill | ⟨l, hl, hacked⟩
      · exact .inl hserving
      · exact .inr (.inl hstill)
      · cases hl
        exact .inr (.inr ⟨p, by simp, hwithdrawn, hacked⟩)
    · exact .inr (.inr ⟨l, mem_append_left _ hl, hacked⟩)

variable [DecidableEq I] {identity : I → GoString}

/-- **No shard that served the zone is forgotten.**  Take a local shard that an earlier manifest
serves and the current one does not.  It is a withdrawn target of the current manifest, or its broker
has acknowledged the withdrawal of a manifest in between. -/
theorem served_shards_remembered
    (h : Reachable TargetWorld.Fresh (TargetStep E zoneUID o identity) w)
    (before between : List (ManifestSpec Targets)) (m current : ManifestSpec Targets)
    (hcommits : w.base.commits = before ++ m :: (between ++ [current])) :
    ∀ v ∈ m.rest.serving, o.isLocal v.region = true → v ∉ current.rest.serving →
      v ∈ current.rest.withdrawn ∨
        ∃ l ∈ between, v ∈ l.rest.withdrawn ∧ (l.name E, ⟨v, true⟩) ∈ w.acked := by
  intro v hv hlocal hnot
  have hinv : TargetInv E zoneUID o w :=
    h.invariant (fun _ hfresh => .of_fresh hfresh) fun _ _ hinv hstep => hinv.step hstep
  have hconfigured := hinv.configured (before ++ [m]) (between ++ [current]) (by simp [hcommits]) m
    (by simp) v hv
  have hwithdraws : o.withdraws v = true := by
    simp [TargetOptions.withdraws, hconfigured, hlocal]
  exact (hinv.passes hv hwithdraws between current [] hcommits).resolve_left hnot

/-! ### A zone that moves -/

def eastShard : ServingRegion := ⟨lit "east", lit "s1"⟩

def westShard : ServingRegion := ⟨lit "west", lit "s2"⟩

def twoShards : TargetOptions := ⟨lit "project", [], [], [eastShard, westShard], []⟩

/-- A live binding of the context at the shard. -/
def boundAt (v : ServingRegion) : ResolverBinding where
  name := lit "binding"
  uid := lit "binding"
  generation := 1
  deleting := false
  labels := ⟨[], [], [], [], [], []⟩
  spec := {
    projectUID := lit "project"
    resolverContextRef := ⟨[], lit "vpc", 0⟩
    accessBindingRef := ⟨[], [], 0⟩
    region := v.region
    shard := v.shard
    generation := 1
    revision := 1
    nodeAddress := []
    regionalAddress := []
    zoneRefs := []
    zoneApices := ∅
    version := ⟨1, 1⟩
    tombstone := false }
  status := ⟨0, [], [], ∅⟩

def eastManifest : ManifestSpec Targets := ⟨lit "zone", 1, 1, 0, false, [], [eastShard], [], true⟩

def westManifest : ManifestSpec Targets :=
  ⟨lit "zone", 1, 2, 1, false, [], [westShard], [eastShard], true⟩

/-- The zone is served in the east, and then in the west. -/
theorem reachable_moved : ∃ w : TargetWorld Unit,
    Reachable TargetWorld.Fresh (TargetStep .reference (lit "zone") twoShards fun _ => lit "writer") w ∧
      w.base.commits = [eastManifest, westManifest] := by
  have h₀ : Reachable TargetWorld.Fresh
      (TargetStep .reference (lit "zone") twoShards fun _ => lit "writer")
      (⟨⟨none, fun _ => .idle, [], [], []⟩, fun _ => none, fun _ => [], fun _ _ _ => false, [], []⟩ :
        TargetWorld Unit) :=
    .init ⟨⟨rfl, fun _ => rfl, rfl, rfl, rfl⟩, fun _ => rfl, fun _ _ _ => rfl, rfl, rfl⟩
  have h₁ := h₀.step (.other _ (.create () 0 0 rfl) rfl rfl)
  have h₂ := h₁.step (.other _ (.hold () _ _ rfl (.refl _) rfl rfl) rfl rfl)
  have h₃ := h₂.step (.reserve _ () _ _ none ⟨eastManifest, []⟩ [boundAt eastShard] [lit "vpc"]
    (.reserve () _ _ _ 0 none ⟨eastManifest, []⟩ rfl rfl (by simp) rfl rfl rfl rfl rfl) rfl rfl
    (by simp [newOwnership]) (by simp) (by decide +kernel))
  have h₄ := h₃.step (.other _ (.stage () _ _ _ _ rfl) rfl rfl)
  have h₅ := h₄.step (.stageOutbox () _ _ ⟨eastShard, false⟩ [] rfl rfl (by rintro _ ⟨⟩))
  have h₆ := h₅.step (.commit _ () _ _ (.commit () _ _ _ _ [] 0 rfl rfl rfl) rfl rfl rfl)
  have h₇ := h₆.step (.other _ (.hold () _ _ rfl (.refl _) rfl rfl) rfl rfl)
  have h₈ := h₇.step (.reserve _ () _ _ (some eastManifest) ⟨westManifest, []⟩ [boundAt westShard]
    [lit "vpc"] (.reserve () _ _ _ 0 (some eastManifest) ⟨westManifest, []⟩ rfl rfl
      (by rintro _ ⟨⟩; exact ⟨mem_singleton.mpr rfl, rfl⟩) rfl rfl rfl rfl rfl) rfl rfl
    (by simp [Ownership.commit, ManifestSpec.name_ne_nil])
    (by rintro _ ⟨⟩; exact ⟨mem_singleton.mpr rfl, rfl⟩) (by decide +kernel))
  have h₉ := h₈.step (.other _ (.stage () _ _ _ _ rfl) rfl rfl)
  have h₁₀ := h₉.step (.stageOutbox () _ _ ⟨westShard, false⟩ [⟨eastShard, true⟩] rfl rfl (by rintro _ ⟨⟩))
  have h₁₁ := h₁₀.step (.stageOutbox () _ _ ⟨eastShard, true⟩ [] rfl rfl (by rintro _ ⟨⟩))
  have h₁₂ := h₁₁.step (.commit _ () _ _ (.commit () _ _ _ _ [] 0 rfl rfl rfl) rfl rfl rfl)
  exact ⟨_, h₁₂, rfl⟩

/-- The eastern shard is withdrawn when the zone has moved. -/
theorem moved_zone_remembered : ∃ w : TargetWorld Unit, w.base.commits = [eastManifest, westManifest] ∧
    (eastShard ∈ westManifest.rest.withdrawn ∨ ∃ l ∈ ([] : List (ManifestSpec Targets)),
      eastShard ∈ l.rest.withdrawn ∧ (l.name .reference, ⟨eastShard, true⟩) ∈ w.acked) := by
  obtain ⟨w, hreachable, hcommits⟩ := reachable_moved
  have hmem : eastShard ∈ eastManifest.rest.serving := by decide
  exact ⟨w, hcommits, served_shards_remembered hreachable [] [] eastManifest westManifest hcommits
    eastShard hmem (by decide) (by decide)⟩

end History

end InternalDNS.Controlplane
