import InternalDNS.ShardHistory

/-! # The planners of a shard number each snapshot once and drop no binding

The planners of a shard meet in the owner record, whose revision counter never falls, so every
revision is reserved once.  A commit goes through only if the record is as the planner left it; then
no other snapshot was committed since the planner had read the record, and it had listed the bindings
after that.  So the snapshot from which it planned is the last one that was committed.

`Inv` says this of a state of the system.  It speaks of a planner through the owner record that the
planner has read, and only as long as the record has not changed since.
-/
namespace InternalDNS.Platform

open Go Controlplane List Function Option Nat ServingSnapshot Versioned

variable {E : Externals} {region shard : GoString} {writes : BindingWrites} {I : Type}
  {w w' : Shard I} {held : Held}

/-! ## The invariant -/

section

variable (E : Externals) (w : Shard I)

/-- The owner record moves forward without a commit. -/
structure ShardState.Grows (o o' : ShardState) : Prop where
  epoch : o.epoch ≤ o'.epoch
  revision : o.nextRevision ≤ o'.nextRevision
  active : o'.activeOutbox = o.activeOutbox

/-- The stored owner record; before it is created, nothing is reserved or committed. -/
def Shard.state : ShardState := w.owner.value.getD ⟨[], 0, 0, 0, [], []⟩

/-- What holds of the owner record. -/
structure OwnerInv (o : ShardState) : Prop where
  reserved : ∀ x ∈ w.reserved, x.snapshot.configurationRevision < o.nextRevision
  commits : ∀ s ∈ w.commits, s.configurationEpoch ≤ o.epoch
  active : o.activeOutbox = w.commits.getLast?.elim [] (snapshotName E)

/-- What a planner knows of the bindings it has listed. -/
structure SeenInv (region shard : GoString) (writes : BindingWrites) (w : Shard I) (held : Held)
    (seen : ResolverBindings) : Prop where
  later : seen.Later writes.changes w.bindings
  labelled : ∀ o ∈ seen.objects, o.Labelled E
  carried : held.version = w.owner.version → Carried writes region shard w.commits seen

/-- What a planner knows of the outbox it has planned. -/
structure StagingInv (region shard : GoString) (writes : BindingWrites) (w : Shard I) (held : Held)
    (seen : ResolverBindings) (outbox : Outbox) : Prop where
  reserved : outbox ∈ w.reserved
  epoch : outbox.snapshot.configurationEpoch = held.state.epoch
  uids : outbox.snapshot.uids.Nodup
  number : held.version = w.owner.version → ∀ s ∈ w.commits, s.number < outbox.snapshot.number
  planned : held.version = w.owner.version →
    Planned E writes region shard w.commits seen outbox.snapshot

/-- What a planner knows in each phase. -/
def PhaseInv (region shard : GoString) (writes : BindingWrites) (w : Shard I) :
    Phase → Prop
  | .idle => True
  | .holding held => w.owner.Copy held.copy
  | .listed held seen => w.owner.Copy held.copy ∧ SeenInv E region shard writes w held seen
  | .staging held seen outbox => w.owner.Copy held.copy ∧
    SeenInv E region shard writes w held seen ∧ StagingInv E region shard writes w held seen outbox
  | .staged held seen outbox => w.owner.Copy held.copy ∧
    SeenInv E region shard writes w held seen ∧
    StagingInv E region shard writes w held seen outbox ∧ outbox ∈ w.outboxes

/-- **The invariant of the planners.** -/
structure Inv (region shard : GoString) (writes : BindingWrites) (w : Shard I) :
    Prop where
  owner : OwnerInv E w w.state
  phases : ∀ i, PhaseInv E region shard writes w (w.planners i)
  labelled : ∀ o ∈ w.bindings.objects, o.Labelled E
  carried : Carried writes region shard w.commits w.bindings
  placed : ∀ x ∈ w.reserved, x.snapshot.region = region ∧ x.snapshot.shard = shard
  revisions : (w.reserved.map fun x => x.snapshot.configurationRevision).Nodup
  created : ∀ x ∈ w.outboxes, x ∈ w.reserved
  commits : ∀ s ∈ w.commits, s.uids.Nodup ∧ ∃ x ∈ w.outboxes, x.snapshot = s
  numbers : w.commits.Pairwise fun s t => s.number < t.number
  history : History writes w.commits

end

/-! ## One step -/

/-- What one planner may see of a step of the others: either the owner record and the commits are as
before, or the record has a new version. -/
structure Shard.Advances (writes : BindingWrites) (w w' : Shard I) : Prop where
  bindings : w.bindings.Later writes.changes w'.bindings
  reserved : ∀ x ∈ w.reserved, x ∈ w'.reserved
  outboxes : ∀ x ∈ w.outboxes, x ∈ w'.outboxes
  owner : w'.owner = w.owner ∧ w'.commits = w.commits ∨
    ∃ seen value, w.owner.update seen value = some w'.owner

theorem Shard.Advances.current (h : w.Advances writes w') (hcopy : w.owner.Copy held.copy) :
    w'.owner.Copy held.copy ∧ (held.version = w'.owner.version →
      held.version = w.owner.version ∧ w'.commits = w.commits) := by
  rcases h.owner with ⟨howner, hcommits⟩ | ⟨seen, value, hupdate⟩
  · rw [howner]
    exact ⟨hcopy, fun heq => ⟨heq, hcommits⟩⟩
  · obtain ⟨hcopy', hne⟩ := hcopy.update hupdate
    exact ⟨hcopy', fun heq => absurd heq hne⟩

theorem SeenInv.advances {seen : ResolverBindings} (h : SeenInv E region shard writes w held seen)
    (hcopy : w.owner.Copy held.copy) (hadv : w.Advances writes w') :
    SeenInv E region shard writes w' held seen := by
  refine ⟨h.later.trans hadv.bindings, h.labelled, fun hversion => ?_⟩
  obtain ⟨hcurrent, hcommits⟩ := (hadv.current hcopy).2 hversion
  rw [hcommits]
  exact h.carried hcurrent

theorem StagingInv.advances {seen : ResolverBindings} {outbox : Outbox}
    (h : StagingInv E region shard writes w held seen outbox) (hcopy : w.owner.Copy held.copy)
    (hadv : w.Advances writes w') : StagingInv E region shard writes w' held seen outbox := by
  refine ⟨hadv.reserved _ h.reserved, h.epoch, h.uids, fun hversion => ?_, fun hversion => ?_⟩
  all_goals
    obtain ⟨hcurrent, hcommits⟩ := (hadv.current hcopy).2 hversion
    rw [hcommits]
  · exact h.number hcurrent
  · exact h.planned hcurrent

/-- **What a planner knows stays true when others move.** -/
theorem PhaseInv.advances {phase : Phase} (h : PhaseInv E region shard writes w phase)
    (hadv : w.Advances writes w') : PhaseInv E region shard writes w' phase := by
  cases phase with
  | idle => trivial
  | holding held => exact (hadv.current h).1
  | listed held seen =>
    obtain ⟨hcopy, hseen⟩ := h
    exact ⟨(hadv.current hcopy).1, hseen.advances hcopy hadv⟩
  | staging held seen outbox =>
    obtain ⟨hcopy, hseen, hstaging⟩ := h
    exact ⟨(hadv.current hcopy).1, hseen.advances hcopy hadv, hstaging.advances hcopy hadv⟩
  | staged held seen outbox =>
    obtain ⟨hcopy, hseen, hstaging, hcreated⟩ := h
    exact ⟨(hadv.current hcopy).1, hseen.advances hcopy hadv, hstaging.advances hcopy hadv,
      hadv.outboxes _ hcreated⟩

section Steps

variable {w : Shard I} {i : I} {owner : Versioned (Option ShardState)} {o : ShardState} {seen : Nat}
  {held : Held} {x : Outbox}

theorem Shard.state_eq (h : w.owner.value = some held.state) : w.state = held.state := by
  rw [Shard.state, h, getD_some]

/-- An update that goes through was made from the stored record. -/
theorem Shard.state_of_update (hcopy : w.owner.Copy held.copy)
    (hupdate : w.owner.update held.version (some o) = some owner) : w.state = held.state :=
  w.state_eq (hcopy.of_update hupdate).1.symm

theorem OwnerInv.grows {o' : ShardState} (h : OwnerInv E w o) (hgrows : o.Grows o') : OwnerInv E w o' := by
  refine ⟨fun x hx => ?_, fun s hs => ?_, hgrows.active.trans h.active⟩
  · exact (h.reserved x hx).trans_le hgrows.revision
  · exact (h.commits s hs).trans hgrows.epoch

/-- The owner record is updated without a commit. -/
theorem Inv.setOwner (h : Inv E region shard writes w)
    (hupdate : w.owner.update seen (some o) = some owner) (hgrows : w.state.Grows o) :
    Inv E region shard writes { w with owner := owner } := by
  have hadv : w.Advances writes { w with owner := owner } :=
    ⟨.refl _, fun _ hx => hx, fun _ hx => hx, .inr ⟨seen, some o, hupdate⟩⟩
  have hstate : ({ w with owner := owner } : Shard I).state = o := by
    rw [Shard.state, (update_eq_some.mp hupdate).2, getD_some]
  exact { h with
    owner := hstate ▸ { h.owner.grows hgrows with }
    phases := fun j => (h.phases j).advances hadv }

theorem Inv.of_fresh (h : w.Fresh) (hlabelled : ∀ o ∈ w.bindings.objects, o.Labelled E) :
    Inv E region shard writes w := by
  obtain ⟨⟨version, value⟩, planners, bindings, reserved, outboxes, commits⟩ := w
  obtain ⟨rfl, hidle, rfl, rfl, rfl⟩ := h
  refine ⟨⟨nofun, nofun, rfl⟩, fun i => ?_, hlabelled, .nil _, nofun, nodup_nil, nofun, nofun, .nil, .nil⟩
  rw [hidle i]
  trivial

section

variable (h : Inv E region shard writes w)
include h

/-- **The prior snapshot that a planner finds is the one committed last.** -/
theorem Inv.loadsPrior {prior : ServingSnapshot}
    (hprior : w.LoadsPrior E w.state prior) : prior = lastOf w.commits := by
  unfold Shard.LoadsPrior at hprior
  rw [h.owner.active] at hprior
  cases hlast : w.commits.getLast? with
  | none =>
    rw [hlast, elim_none, if_pos rfl] at hprior
    rw [hprior, lastOf, hlast, getD_none]
  | some last =>
    rw [hlast, elim_some, if_neg (snapshotName_ne_nil last)] at hprior
    obtain ⟨x, hx, hname, rfl⟩ := hprior
    obtain ⟨-, y, hy, rfl⟩ := h.commits last (mem_of_getLast? hlast)
    obtain ⟨hregion, hshard⟩ := h.placed x (h.created x hx)
    obtain ⟨hregion', hshard'⟩ := h.placed y (h.created y hy)
    have hrevision := revision_of_snapshotName (hregion.trans hregion'.symm)
      (hshard.trans hshard'.symm) hname
    rw [lastOf_eq hlast,
      inj_on_of_nodup_map h.revisions (h.created x hx) (h.created y hy) hrevision]

/-- What is reserved has a higher number than what is committed. -/
theorem Inv.number_lt {s : ServingSnapshot} (hepoch : s.configurationEpoch = w.state.epoch)
    (hrevision : s.configurationRevision = w.state.nextRevision) {t : ServingSnapshot}
    (ht : t ∈ w.commits) : t.number < s.number := by
  obtain ⟨-, x, hx, rfl⟩ := h.commits t ht
  have hlt := h.owner.reserved x (h.created x hx)
  have hle := h.owner.commits _ ht
  rw [number, number, Prod.Lex.toLex_lt_toLex, hepoch, hrevision]
  exact (lt_or_eq_of_le hle).imp_right fun heq => ⟨heq, hlt⟩

/-- A revision is reserved that no one has reserved before. -/
theorem Inv.addReserved
    (hupdate : w.owner.update seen (some o) = some owner) (hgrows : w.state.Grows o)
    (hplaced : x.snapshot.region = region ∧ x.snapshot.shard = shard)
    (hrevision : x.snapshot.configurationRevision = w.state.nextRevision)
    (hlt : w.state.nextRevision < o.nextRevision) :
    Inv E region shard writes { w with owner := owner, reserved := w.reserved ++ [x] } := by
  have hnext := h.setOwner hupdate hgrows
  have hstate : ({ w with owner := owner } : Shard I).state = o := by
    rw [Shard.state, (update_eq_some.mp hupdate).2, getD_some]
  have hadv : Shard.Advances writes { w with owner := owner }
      { w with owner := owner, reserved := w.reserved ++ [x] } :=
    ⟨.refl _, fun _ hy => mem_append_left _ hy, fun _ hy => hy, .inl ⟨rfl, rfl⟩⟩
  refine { h with
    owner := { hnext.owner with reserved := forall_mem_concat hnext.owner.reserved ?_ }
    phases := fun j => (hnext.phases j).advances hadv
    placed := forall_mem_concat h.placed hplaced
    revisions := nodup_map_concat h.revisions fun y hy => ?_
    created := fun y hy => mem_append_left _ (h.created y hy) }
  · exact hrevision ▸ hlt.trans_eq (congrArg ShardState.nextRevision hstate).symm
  · exact hrevision ▸ (h.owner.reserved y hy).ne

/-- An outbox is created. -/
theorem Inv.addOutbox (hx : x ∈ w.reserved) :
    Inv E region shard writes { w with outboxes := w.outboxes ++ [x] } := by
  have hadv : w.Advances writes { w with outboxes := w.outboxes ++ [x] } :=
    ⟨.refl _, fun _ hy => hy, fun _ hy => mem_append_left _ hy, .inl ⟨rfl, rfl⟩⟩
  refine { h with
    owner := { h.owner with }
    phases := fun j => (h.phases j).advances hadv
    created := forall_mem_concat h.created hx
    commits := fun s hs => ?_ }
  obtain ⟨huids, y, hy, heq⟩ := h.commits s hs
  exact ⟨huids, y, mem_append_left _ hy, heq⟩

/-- **A snapshot is committed.** -/
theorem Inv.addCommit (hwrites : writes.Lawful E) {bindings : ResolverBindings}
    (hphase : PhaseInv E region shard writes w (.staged held bindings x))
    (hupdate : w.owner.update held.version (some o) = some owner)
    (hepoch : o.epoch = held.state.epoch) (hrevision : o.nextRevision = held.state.nextRevision)
    (hactive : o.activeOutbox = snapshotName E x.snapshot) :
    Inv E region shard writes { w with owner := owner, commits := w.commits ++ [x.snapshot] } := by
  obtain ⟨hcopy, hseen, hstaging, hcreated⟩ := hphase
  have hcurrent : held.version = w.owner.version := (update_eq_some.mp hupdate).1
  have hplanned := hstaging.planned hcurrent
  have hheld := w.state_of_update hcopy hupdate
  have hadv : w.Advances writes { w with owner := owner, commits := w.commits ++ [x.snapshot] } :=
    ⟨.refl _, fun _ hy => hy, fun _ hy => hy, .inr ⟨_, _, hupdate⟩⟩
  have hstate : ({ w with owner := owner, commits := w.commits ++ [x.snapshot] } : Shard I).state =
      o := by
    rw [Shard.state, (update_eq_some.mp hupdate).2, getD_some]
  refine { h with
    owner := ?_
    phases := fun j => (h.phases j).advances hadv
    carried := hplanned.carried_concat hwrites hseen.later
    commits := forall_mem_concat h.commits ⟨hstaging.uids, x, hcreated, rfl⟩
    numbers := ?_
    history := hplanned.history_concat h.history fun t ht => (h.commits t ht).1 }
  · rw [hstate]
    refine ⟨fun y hy => ?_, ?_, ?_⟩
    · rw [hrevision, ← hheld]
      exact h.owner.reserved y hy
    · rw [hepoch]
      exact forall_mem_concat (fun s hs => (h.owner.commits s hs).trans_eq
        (congrArg ShardState.epoch hheld)) hstaging.epoch.le
    · rw [hactive, List.getLast?_concat, elim_some]
  · refine pairwise_append.mpr ⟨h.numbers, pairwise_singleton .., fun s hs t ht => ?_⟩
    exact mem_singleton.mp ht ▸ hstaging.number hcurrent s hs

theorem Inv.phase {phase : Phase} (hphase : w.planners i = phase) :
    PhaseInv E region shard writes w phase :=
  hphase ▸ h.phases i

end

variable [DecidableEq I]

theorem Shard.planners_setPhase (w : Shard I) (i j : I) (next : Phase) :
    (w.setPhase i next).planners j = next ∨ (w.setPhase i next).planners j = w.planners j := by
  by_cases h : j = i
  · exact .inl (by subst h; exact update_self ..)
  · exact .inr (update_of_ne h ..)

/-- A planner moves on. -/
theorem Inv.setPhase (h : Inv E region shard writes w) (next : Phase)
    (hnext : PhaseInv E region shard writes w next) :
    Inv E region shard writes (w.setPhase i next) := by
  have hadv : w.Advances writes (w.setPhase i next) :=
    ⟨.refl _, fun _ hx => hx, fun _ hx => hx, .inl ⟨rfl, rfl⟩⟩
  refine { h with owner := { h.owner with }, phases := fun j => ?_ }
  rcases w.planners_setPhase i j next with hj | hj <;> rw [hj]
  · exact hnext.advances hadv
  · exact (h.phases j).advances hadv

/-- **A revision is reserved for a plan.** -/
theorem Inv.reserve (h : Inv E region shard writes w) {bindings : ResolverBindings}
    {c : PlannerConfig} {publications : Publications} {prior : ServingSnapshot}
    {now leaseUntil : Time} (hphase : PhaseInv E region shard writes w (.listed held bindings))
    (hregion : c.region = region) (hshard : c.shard = shard)
    (hprior : w.LoadsPrior E held.state prior)
    (hplan : planSnapshot E c held.state now bindings.objects publications prior =
      .ok (x.snapshot, x.dependsOn))
    (hupdate : w.owner.update held.version (some (held.state.reserve leaseUntil)) = some owner) :
    Inv E region shard writes { ({ w with owner := owner }.setPhase i
      (.staging ⟨owner.version, held.state.reserve leaseUntil⟩ bindings x)) with
        reserved := w.reserved ++ [x] } := by
  obtain ⟨hcopy, hseen⟩ := hphase
  have hcurrent : held.version = w.owner.version := (update_eq_some.mp hupdate).1
  have hheld := w.state_of_update hcopy hupdate
  rw [← hheld] at hprior hplan
  obtain rfl := h.loadsPrior hprior
  obtain ⟨hregion', hshard', hepoch, hrevision, hvalid, hfollows⟩ := planSnapshot_eq_ok hplan
  have hgrows : w.state.Grows (held.state.reserve leaseUntil) := by
    rw [hheld]
    exact ⟨le_rfl, le_succ _, rfl⟩
  have hadded := h.addReserved hupdate hgrows ⟨hregion'.trans hregion, hshard'.trans hshard⟩ hrevision
    (by rw [hheld]; exact lt_succ_self _)
  have hvalue : owner.value = some (held.state.reserve leaseUntil) := (hcopy.of_update hupdate).2
  have hepoch' : x.snapshot.configurationEpoch = held.state.epoch :=
    hepoch.trans (congrArg ShardState.epoch hheld)
  have hplanned : Planned E writes region shard w.commits bindings x.snapshot :=
    ⟨hseen.labelled, hseen.carried hcurrent, c, hregion, hshard, hfollows⟩
  refine hadded.setPhase (.staging ⟨owner.version, held.state.reserve leaseUntil⟩ bindings x) ?_
  refine ⟨?_, ⟨hseen.later, hseen.labelled, fun _ => hseen.carried hcurrent⟩,
    ⟨mem_append_right _ (mem_singleton_self x), hepoch',
      (validate_eq_ok.mp hvalid).uids, fun _ s hs => ?_, fun _ => hplanned⟩⟩
  · exact ⟨le_rfl, fun _ => hvalue.symm⟩
  · exact h.number_lt hepoch hrevision hs

/-- **Every step keeps the invariant.** -/
theorem Inv.step {identity : I → GoString} {w' : Shard I} (hwrites : writes.Lawful E)
    (h : Inv E region shard writes w) (hstep : PlanStep E region shard identity writes w w') :
    Inv E region shard writes w' := by
  cases hstep with
  | create i now leaseUntil habsent =>
    have hstate : w.state = ⟨[], 0, 0, 0, [], []⟩ := by rw [Shard.state, habsent, getD_none]
    refine h.setOwner (update_eq_some.mpr ⟨rfl, rfl⟩) ?_
    rw [hstate]
    exact ⟨zero_le _, zero_le _, rfl⟩
  | hold i held hread hholder =>
    have hcopy : w.owner.Copy held.copy := hread ▸ .refl _
    exact h.setPhase (.holding held) hcopy
  | takeOver i held owner now leaseUntil hread hholder hexpired hupdate =>
    have hcopy : w.owner.Copy held.copy := hread ▸ .refl _
    have hgrows : w.state.Grows (held.state.takeOver (identity i) now leaseUntil) := by
      rw [w.state_of_update hcopy hupdate]
      exact ⟨(lt_of_succ_le (le_max_left _ _)).le, le_rfl, rfl⟩
    refine (h.setOwner hupdate hgrows).setPhase
      (.holding ⟨owner.version, held.state.takeOver (identity i) now leaseUntil⟩) ?_
    exact ⟨le_rfl, fun _ => (hcopy.of_update hupdate).2.symm⟩
  | list i held hphase =>
    refine h.setPhase (.listed held w.bindings) ⟨h.phase hphase, ?_⟩
    exact ⟨.refl _, h.labelled, fun _ => h.carried⟩
  | renew i held seen owner c publications prior x now leaseUntil hphase hregion hshard hprior hplan
      hsame hupdate =>
    have hgrows : w.state.Grows { held.state with leaseUntil := leaseUntil } := by
      rw [w.state_of_update (h.phase hphase).1 hupdate]
      exact ⟨le_rfl, le_rfl, rfl⟩
    exact (h.setOwner hupdate hgrows).setPhase (.idle) trivial
  | reserve i held seen owner c publications prior x ownerUID now leaseUntil hphase hregion hshard
      hprior hplan hnew hlease hsize hupdate =>
    exact h.reserve (h.phase hphase) hregion hshard hprior hplan hupdate
  | stage i held seen x hphase =>
    obtain ⟨hcopy, hseen, hstaging⟩ := h.phase hphase
    have hadded := h.addOutbox hstaging.reserved
    exact hadded.setPhase (.staged held seen x)
      ⟨hcopy, { hseen with }, { hstaging with }, mem_append_right _ (mem_singleton_self x)⟩
  | found i held seen x hphase hsame =>
    obtain ⟨hcopy, hseen, hstaging⟩ := h.phase hphase
    exact h.setPhase (.staged held seen x) ⟨hcopy, hseen, hstaging, hsame⟩
  | commit i held seen x owner leaseUntil hphase hupdate =>
    exact (h.addCommit hwrites (h.phase hphase) hupdate rfl rfl rfl).setPhase (.idle) trivial
  | release i held owner now hread hholder hlease hupdate =>
    refine h.setOwner hupdate ?_
    rw [w.state_of_update (hread ▸ .refl _) hupdate]
    exact ⟨le_rfl, le_rfl, rfl⟩
  | stop i => exact h.setPhase (.idle) trivial
  | bindings next hwrite =>
    have hadv : w.Advances writes { w with bindings := next } :=
      ⟨hwrite.later, fun _ hx => hx, fun _ hx => hx, .inl ⟨rfl, rfl⟩⟩
    exact { h with
      owner := { h.owner with }
      phases := fun j => (h.phases j).advances hadv
      labelled := hwrite.forall hwrites.born hwrites.labelled h.labelled
      carried := h.carried.later hwrites hwrite.later }

theorem inv_of_reachable {identity : I → GoString} (hwrites : writes.Lawful E)
    (h : Reachable (Shard.Started E) (PlanStep E region shard identity writes) w) :
    Inv E region shard writes w :=
  h.invariant (fun _ hstart => .of_fresh hstart.1 hstart.2) fun _ _ hinv hstep => hinv.step hwrites hstep

end Steps

/-! ## What follows from it -/

section Results

variable {identity : I → GoString} {w w' : Shard I}

theorem Inv.outbox_unique (h : Inv E region shard writes w) {x y : Outbox} (hx : x ∈ w.outboxes)
    (hy : y ∈ w.outboxes) (heq : x.snapshot.number = y.snapshot.number) : x = y :=
  inj_on_of_nodup_map h.revisions (h.created x hx) (h.created y hy)
    (Prod.mk.inj (toLex.injective heq)).2

variable [DecidableEq I]

/-- Whoever commits a snapshot has planned it from the one before. -/
theorem Inv.kept_of_commit (hwrites : writes.Lawful E) (h : Inv E region shard writes w)
    (hstep : PlanStep E region shard identity writes w w') {s : ServingSnapshot}
    (hcommits : w'.commits = w.commits ++ [s]) {last : ServingSnapshot}
    (hlast : last ∈ w.commits.getLast?) {uid : GoString} (huid : uid ∈ last.uids)
    {o : ResolverBinding} (ho : o ∈ w.bindings.objects) (heq : o.uid = uid)
    (hlive : o.deleting = false) : uid ∈ s.uids := by
  cases hstep with
  | commit i held seen x owner leaseUntil hphase hupdate =>
    obtain rfl : x.snapshot = s := singleton_inj.mp (append_cancel_left hcommits)
    obtain ⟨-, hseen, hstaging, -⟩ := h.phase hphase
    refine (hstaging.planned (update_eq_some.mp hupdate).1).kept hwrites hseen.later ?_ ho
      heq hlive
    rwa [lastOf_eq hlast]
  | _ => exact absurd hcommits (by simp [Shard.setPhase])

/-- **Snapshots of a shard are numbered once, in the order of their commits, and drop nothing.**
Whatever the planners do, and whoever writes bindings meanwhile:
the numbers of the committed snapshots rise, and the active outbox is that of the last one;
no two outboxes have the same number;
and the snapshot that is committed next has every binding of the last one that is still stored and is
not being deleted. -/
theorem snapshots_numbered_and_kept
    (h : Reachable (Shard.Started E) (PlanStep E region shard identity (.admitted E)) w) :
    (w.commits.Pairwise fun s t => s.number < t.number) ∧
      w.state.activeOutbox = w.commits.getLast?.elim [] (snapshotName E) ∧
      (∀ s ∈ w.commits, ∃ x ∈ w.outboxes, x.snapshot = s) ∧
      (∀ x ∈ w.outboxes, ∀ y ∈ w.outboxes, x.snapshot.number = y.snapshot.number → x = y) ∧
      ∀ w' s, PlanStep E region shard identity (.admitted E) w w' → w'.commits = w.commits ++ [s] →
        ∀ last ∈ w.commits.getLast?, ∀ uid ∈ last.uids, ∀ o ∈ w.bindings.objects, o.uid = uid →
          o.deleting = false → uid ∈ s.uids := by
  have hinv := inv_of_reachable BindingWrites.admitted_lawful h
  refine ⟨hinv.numbers, hinv.owner.active, fun s hs => (hinv.commits s hs).2,
    fun x hx y hy => hinv.outbox_unique hx hy, ?_⟩
  intro w' s hstep hcommits last hlast uid huid o ho heq hlive
  exact hinv.kept_of_commit BindingWrites.admitted_lawful hstep hcommits hlast huid ho heq hlive

/-- **A planner that holds the shard can publish a plan.** -/
theorem reachable_commit (i : I) (held : Held) (x : Outbox) {c : PlannerConfig}
    {publications : Publications} {prior : ServingSnapshot} {ownerUID : GoString} {now : Time}
    (h : Reachable (Shard.Started E) (PlanStep E region shard identity writes) w)
    (hread : w.owner = held.copy) (hholder : held.state.holder = identity i)
    (hregion : c.region = region) (hshard : c.shard = shard)
    (hprior : w.LoadsPrior E held.state prior)
    (hplan : planSnapshot E c held.state now w.bindings.objects publications prior =
      .ok (x.snapshot, x.dependsOn)) (hnew : held.state.contentHash ≠ contentHash E x.snapshot)
    (hlease : now < held.state.leaseUntil)
    (hsize : envelopeSize E ownerUID x.snapshot ≤ c.budgets.maxBytes) :
    ∃ w', Reachable (Shard.Started E) (PlanStep E region shard identity writes) w' ∧
      w'.commits = w.commits ++ [x.snapshot] ∧ w'.outboxes = w.outboxes ++ [x] ∧
      w'.bindings = w.bindings ∧ w'.state = (held.state.reserve now).commit
        (snapshotName E x.snapshot) (contentHash E x.snapshot) now := by
  have hself : ∀ (v : Shard I) (p : Phase), (v.setPhase i p).planners i = p :=
    fun v p => update_self ..
  have hupdate : w.owner.update held.version (some (held.state.reserve now)) =
      some ⟨w.owner.version + 1, some (held.state.reserve now)⟩ :=
    update_eq_some.mpr ⟨by rw [hread]; rfl, rfl⟩
  have h₁ := h.step (.hold i held hread hholder)
  have h₂ := h₁.step (.list i held (hself _ _))
  have h₃ := h₂.step (.reserve i held w.bindings _ c publications prior x ownerUID now now (hself _ _)
    hregion hshard hprior hplan hnew hlease hsize hupdate)
  have h₄ := h₃.step (.stage i _ w.bindings x (hself _ _))
  have h₅ := h₄.step (.commit i _ w.bindings x _ now (hself _ _)
    (update_eq_some.mpr ⟨rfl, rfl⟩))
  exact ⟨_, h₅, rfl, rfl, rfl, rfl⟩

/-- A binding of a project on the shard `east/a`. -/
def storedBinding (n : Nat) : ResolverBinding where
  name := lit "binding-" ++ itoa n
  uid := lit "uid-" ++ itoa n
  generation := 1
  deleting := false
  labels := ⟨lit "project", lit "default", lit "context", lit "access", lit "east", lit "a"⟩
  spec :=
    { projectUID := lit "project"
      resolverContextRef := ⟨lit "context", lit "context", 0⟩
      accessBindingRef := ⟨lit "access", lit "access", 1⟩
      region := lit "east"
      shard := lit "a"
      generation := 1
      revision := 1
      nodeAddress := lit "10.0.0." ++ itoa n
      regionalAddress := lit "fd54::" ++ itoa n
      zoneRefs := []
      zoneApices := ∅
      version := ⟨1, 1⟩
      tombstone := false }
  status := ⟨0, [], [], ∅⟩

/-- The bindings of two contexts. -/
def storedBindings : ResolverBindings where
  objects := [storedBinding 1, storedBinding 2]
  issued := [lit "uid-1", lit "uid-2"]
  distinct := by decide
  known := by
    have h : ∀ u ∈ [storedBinding 1, storedBinding 2].map ResolverBinding.uid,
      u ∈ [lit "uid-1", lit "uid-2"] := by decide
    exact fun o ho => h _ (List.mem_map_of_mem ho)

/-- The configuration of the planners of `east/a`. -/
def eastConfig : PlannerConfig := ⟨lit "east", lit "a", [], [], [], [], 0, 0⟩

/-- A fresh planner publishes both bindings. -/
theorem reachable_first (writes : BindingWrites) : ∃ w : Shard Unit,
    Reachable (Shard.Started .reference)
      (PlanStep .reference (lit "east") (lit "a") (fun _ => lit "planner") writes) w ∧
    w.bindings = storedBindings ∧
    w.commits.map ServingSnapshot.uids = [[lit "uid-1", lit "uid-2"]] := by
  have hlabelled : ∀ o ∈ storedBindings.objects, o.Labelled .reference := by
    have hall : storedBindings.objects.all (fun o =>
        o.labels.region = safeToken .reference o.spec.region &&
        o.labels.shard = safeToken .reference o.spec.shard) = true := by decide +kernel
    intro o ho
    simpa [ResolverBinding.Labelled] using all_eq_true.mp hall o ho
  have h₀ : Reachable (Shard.Started .reference)
      (PlanStep .reference (lit "east") (lit "a") (fun _ => lit "planner") writes)
      (⟨⟨0, none⟩, fun _ => .idle, storedBindings, [], [], []⟩ : Shard Unit) :=
    .init ⟨⟨rfl, fun _ => rfl, rfl, rfl, rfl⟩, hlabelled⟩
  have h₁ := h₀.step (.create () 0 100 rfl)
  have hplan : (planSnapshot .reference eastConfig (newShardState (lit "planner") 0 100) 1
      storedBindings.objects (fun _ => none) emptySnapshot).toOption.any (fun r =>
        contentHash .reference r.1 ≠ [] && envelopeSize .reference (lit "owner") r.1 ≤ 512 * 1024 &&
          r.1.uids = [lit "uid-1", lit "uid-2"]) = true := by
    decide +kernel
  obtain ⟨⟨s, dependsOn⟩, hs, hfacts⟩ := (Option.any_eq_true ..).mp hplan
  simp only [Bool.and_eq_true, decide_eq_true_eq] at hfacts
  obtain ⟨w, hw, hcommits, -, hbindings, -⟩ := reachable_commit ()
    ⟨1, newShardState (lit "planner") 0 100⟩ ⟨s, dependsOn⟩ h₁ rfl rfl rfl rfl rfl
    (Except.toOption_eq_some.mp hs) hfacts.1.1.symm (by decide) hfacts.1.2
  exact ⟨w, hw, hbindings, by rw [hcommits]; simp [hfacts.2]⟩

theorem first_snapshot_kept : ∃ w : Shard Unit,
    w.commits.map ServingSnapshot.uids = [[lit "uid-1", lit "uid-2"]] ∧
    (w.commits.Pairwise fun s t => s.number < t.number) ∧
    ∀ w' s, PlanStep .reference (lit "east") (lit "a") (fun _ => lit "planner") (.admitted .reference)
      w w' → w'.commits = w.commits ++ [s] → lit "uid-1" ∈ s.uids := by
  obtain ⟨w, hw, hbindings, hcommits⟩ := reachable_first _
  have h := snapshots_numbered_and_kept hw
  refine ⟨w, hcommits, h.1, fun w' s hstep hnext => ?_⟩
  obtain ⟨last, hlast, huids⟩ := map_eq_singleton_iff.mp hcommits
  refine h.2.2.2.2 w' s hstep hnext last (by simp [hlast]) (lit "uid-1") (by simp [huids])
    (storedBinding 1) (by simp [hbindings, storedBindings]) (by decide) rfl

end Results

end InternalDNS.Platform
