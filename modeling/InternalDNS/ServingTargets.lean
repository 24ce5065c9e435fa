import InternalDNS.ResolverBindings

/-! # Where a revision of a zone is served and withdrawn

A zone is published to the shards where one of its contexts is bound.  The control plane looks only at
the manifest that is active at the moment: the shards that it serves and the new revision does not
are withdrawn, and those that it withdraws are withdrawn again until the broker of the shard has
acknowledged one withdrawal.
-/
namespace InternalDNS.Controlplane

open Go Platform List

/-- `controlplane.ServingRegion`. -/
structure ServingRegion where
  region : GoString
  shard : GoString
  deriving DecidableEq

/-- The part of `controlplane.ReconcilerOptions` that says which shards there are and which of them
this control plane publishes to. -/
structure TargetOptions where
  projectUID : GoString
  region : GoString
  shard : GoString
  servingRegionList : List ServingRegion
  regions : List GoString

namespace TargetOptions

variable (o : TargetOptions)

def servingRegions : List ServingRegion :=
  if o.servingRegionList = [] then [⟨o.region, o.shard⟩] else o.servingRegionList

/-- Each region runs its own control plane. -/
def regional : Bool := !o.regions.isEmpty

/-- This control plane publishes the region; `ReconcilerOptions.local`. -/
def isLocal (region : GoString) : Bool := !o.regional || region ∈ o.regions

/-- The targets that this control plane publishes. -/
def publishes (targets : List ServingRegion) : List ServingRegion :=
  if o.regional then targets.filter fun v => o.isLocal v.region else targets

/-- The shard is configured and this control plane's to withdraw. -/
def withdraws (v : ServingRegion) : Bool := v ∈ o.servingRegions && o.isLocal v.region

end TargetOptions

/-! ## The shards of a context -/

section Select

variable (E : Externals) (o : TargetOptions) (contextUID : GoString) (bindings : List ResolverBinding)

/-- The binding is a live one of the context in the region. -/
def liveIn (region : GoString) (b : ResolverBinding) : Bool :=
  b.spec.projectUID = o.projectUID && b.spec.resolverContextRef.uid = contextUID &&
    b.spec.region = region && !b.spec.tombstone && !b.deleting

/-- The first of the shards to which live bindings are assigned. -/
def preservedTarget (candidates : List ServingRegion) (region : GoString) : Option ServingRegion :=
  (bindings.filter (liveIn o contextUID region)).foldl (fun preserved binding =>
    candidates.foldl (fun preserved c =>
      if binding.spec.shard = c.shard ∧ preserved.all (c.shard < ·.shard) then some c
      else preserved) preserved) none

/-- The shard with the highest hash; in hexadecimal the order of the hashes is the same. -/
def rendezvousTarget (candidates : List ServingRegion) (region : GoString) : Option ServingRegion :=
  (candidates.foldl (fun (best : Option ServingRegion × GoString) c =>
    let score := E.hash (o.projectUID ++ '/' :: contextUID ++ '/' :: region ++ '/' :: c.shard)
    if best.2 = [] ∨ best.2 < score then (some c, score) else best) (candidates.head?, [])).1

/-- `Reconciler.selectServingTargets`. -/
def selectServingTargets : List ServingRegion :=
  ((o.servingRegions.map ServingRegion.region).dedup.insertionSort (· ≤ ·)).filterMap fun region =>
    let candidates := (o.servingRegions.filter (·.region = region)).insertionSort (·.shard ≤ ·.shard)
    (preservedTarget o contextUID bindings candidates region).or
      (rendezvousTarget E o contextUID candidates region)

/-- `Reconciler.boundTargets`. -/
def boundTargets : List ServingRegion :=
  (selectServingTargets E o contextUID bindings).filter fun target =>
    bindings.any fun b => liveIn o contextUID target.region b && b.spec.shard = target.shard

end Select

/-! ## The shards of a revision -/

/-- The targets of a `DNSPublicationManifest`, and whether its label says that withdrawals are
tracked. -/
structure Targets where
  serving : List ServingRegion
  withdrawn : List ServingRegion
  tracked : Bool
  deriving DecidableEq

def sortedTargets (targets : List ServingRegion) : List ServingRegion :=
  targets.insertionSort fun a b => a.region < b.region ∨ a.region = b.region ∧ a.shard ≤ b.shard

section Publication

variable (E : Externals) (o : TargetOptions) (bindings : List ResolverBinding)
  (contextUIDs : List GoString)

/-- The shards where a context of the zone is bound, or all assigned shards if there is none. -/
def assignedTargets : List ServingRegion :=
  let bound := contextUIDs.flatMap fun uid => boundTargets E o uid bindings
  if bound = [] then (contextUIDs.flatMap fun uid => selectServingTargets E o uid bindings).dedup
  else bound.dedup

/-- The withdrawals of the active manifest that are still needed. -/
def keepWithdrawing (serving : List ServingRegion) (delivered : ServingRegion → Bool)
    (withdrawn prior : List ServingRegion) : List ServingRegion :=
  prior.foldl (fun withdrawn v =>
    if v ∈ serving ∨ ¬ o.withdraws v ∨ v ∈ withdrawn ∨ delivered v then withdrawn
    else v :: withdrawn) withdrawn

/-- `Reconciler.publicationTargets`: the shards that a revision serves and those it withdraws from;
`delivered` is what `withdrawalDelivered` has found for the active manifest. -/
def publicationTargets (tombstone : Bool) (active : Option Targets) (delivered : ServingRegion → Bool) :
    List ServingRegion × List ServingRegion :=
  let byKey := assignedTargets E o bindings contextUIDs
  match active with
  | none => (sortedTargets byKey, [])
  | some previous =>
    let serving := if tombstone then byKey ∪ previous.serving else byKey
    let left := if tombstone then [] else
      (previous.serving.filter fun v => v ∉ byKey ∧ o.withdraws v).dedup
    let prior := previous.withdrawn ++ if previous.tracked then [] else o.servingRegions
    (sortedTargets serving, sortedTargets (keepWithdrawing o serving delivered left prior))

/-- The targets of the manifest that `compileZone` writes; a regional control plane publishes only
its own.  Where nothing has served the zone, a regional control plane has nothing to publish. -/
def zoneTargets (tombstone : Bool) (active : Option Targets) (delivered : ServingRegion → Bool) :
    Option Targets :=
  let (serving, withdrawn) := publicationTargets E o bindings contextUIDs tombstone active delivered
  if o.regional ∧ o.publishes serving = [] ∧ active.isNone then none
  else some ⟨o.publishes serving, withdrawn, true⟩

end Publication

/-! ## What the targets are -/

section Facts

variable {E : Externals} {o : TargetOptions} {bindings : List ResolverBinding} {contextUID : GoString}
  {contextUIDs : List GoString} {candidates : List ServingRegion} {region : GoString}
  {v : ServingRegion} {targets : List ServingRegion}

/-- The loop over the bindings looks for the first shard that one of them has. -/
theorem preservedTarget_eq : preservedTarget o contextUID bindings candidates region =
    ((bindings.filter (liveIn o contextUID region)).flatMap fun b =>
      candidates.filter (b.spec.shard = ·.shard)).argmin ServingRegion.shard := by
  rw [preservedTarget, argmin, foldl_flatMap]
  congr
  funext preserved b
  rw [foldl_filter]
  congr
  funext preserved c
  cases preserved <;> by_cases hshard : b.spec.shard = c.shard <;> simp [argAux, hshard]

theorem mem_of_preservedTarget (h : preservedTarget o contextUID bindings candidates region = some v) :
    v ∈ candidates := by
  rw [preservedTarget_eq] at h
  obtain ⟨_, -, hv⟩ := mem_flatMap.mp (argmin_mem h)
  exact mem_of_mem_filter hv

theorem mem_of_rendezvousTarget (h : rendezvousTarget E o contextUID candidates region = some v) :
    v ∈ candidates := by
  have hall : ∀ v ∈ rendezvousTarget E o contextUID candidates region, v ∈ candidates := by
    refine foldl_invariant (P := fun _ (s : Option ServingRegion × GoString) =>
      ∀ v ∈ s.1, v ∈ candidates) (fun _ hv => mem_of_head? hv) ?_
    intro done c rest s hsplit hs
    dsimp only
    split_ifs
    · rintro _ ⟨⟩
      exact hsplit ▸ mem_append_right _ mem_cons_self
    · exact hs
  exact hall v h

/-- The candidates of a region. -/
def regionCandidates (o : TargetOptions) (region : GoString) : List ServingRegion :=
  (o.servingRegions.filter (·.region = region)).insertionSort (·.shard ≤ ·.shard)

theorem mem_regionCandidates :
    v ∈ regionCandidates o region ↔ v ∈ o.servingRegions ∧ v.region = region := by
  simp [regionCandidates]

/-- The shard that a context is assigned to in a region. -/
def assignedIn (E : Externals) (o : TargetOptions) (contextUID : GoString)
    (bindings : List ResolverBinding) (region : GoString) : Option ServingRegion :=
  (preservedTarget o contextUID bindings (regionCandidates o region) region).or
    (rendezvousTarget E o contextUID (regionCandidates o region) region)

theorem mem_of_assignedIn (h : assignedIn E o contextUID bindings region = some v) :
    v ∈ o.servingRegions ∧ v.region = region :=
  mem_regionCandidates.mp <| (Option.or_eq_some_iff.mp h).elim mem_of_preservedTarget
    fun h => mem_of_rendezvousTarget h.2

theorem mem_selectServingTargets : v ∈ selectServingTargets E o contextUID bindings ↔
    assignedIn E o contextUID bindings v.region = some v := by
  constructor
  · intro h
    obtain ⟨region, -, hregion⟩ := mem_filterMap.mp h
    rwa [(mem_of_assignedIn hregion).2]
  · intro h
    refine mem_filterMap.mpr ⟨v.region, ?_, h⟩
    simpa using ⟨v, (mem_of_assignedIn h).1, rfl⟩

/-- A context is assigned to configured shards. -/
theorem mem_of_selectServingTargets (h : v ∈ selectServingTargets E o contextUID bindings) :
    v ∈ o.servingRegions :=
  (mem_of_assignedIn (mem_selectServingTargets.mp h)).1

theorem mem_of_assignedTargets (h : v ∈ assignedTargets E o bindings contextUIDs) :
    v ∈ o.servingRegions := by
  unfold assignedTargets at h
  dsimp only at h
  split_ifs at h
  · obtain ⟨uid, -, hv⟩ := mem_flatMap.mp (mem_dedup.mp h)
    exact mem_of_selectServingTargets hv
  · obtain ⟨uid, -, hv⟩ := mem_flatMap.mp (mem_dedup.mp h)
    exact mem_of_selectServingTargets (mem_of_mem_filter hv)

@[simp] theorem mem_sortedTargets : v ∈ sortedTargets targets ↔ v ∈ targets :=
  List.mem_insertionSort _

variable {serving withdrawn prior : List ServingRegion} {delivered : ServingRegion → Bool}

/-- What is withdrawn already stays withdrawn, and so does every earlier withdrawal that was not
delivered. -/
theorem mem_keepWithdrawing (hv : v ∉ serving) (hwithdraws : o.withdraws v = true)
    (h : v ∈ withdrawn ∨ v ∈ prior ∧ delivered v = false) :
    v ∈ keepWithdrawing o serving delivered withdrawn prior := by
  suffices hloop : v ∈ withdrawn ∨ v ∈ prior ∧ delivered v = false →
      v ∈ keepWithdrawing o serving delivered withdrawn prior from hloop h
  refine foldl_invariant (P := fun done (s : List ServingRegion) =>
    v ∈ withdrawn ∨ v ∈ done ∧ delivered v = false → v ∈ s) (by simp) ?_
  intro done x rest s _ ih hmem
  by_cases hs : v ∈ s
  · split_ifs
    · exact hs
    · exact mem_cons_of_mem _ hs
  · -- it is the one that is looked at now
    obtain rfl : v = x := by
      rcases hmem with hmem | ⟨hmem, hdelivered⟩
      · exact absurd (ih (.inl hmem)) hs
      · rcases mem_append.mp hmem with hdone | hx
        · exact absurd (ih (.inr ⟨hdone, hdelivered⟩)) hs
        · exact mem_singleton.mp hx
    have hdelivered : delivered v = false := by
      rcases hmem with hmem | ⟨-, hdelivered⟩
      · exact absurd (ih (.inl hmem)) hs
      · exact hdelivered
    rw [if_neg (by simp [hv, hwithdraws, hs, hdelivered])]
    exact mem_cons_self

/-- **What follows the active targets.**  A shard that was served or withdrawn, and that this control
plane withdraws, is served, withdrawn, or one whose withdrawal was found delivered. -/
structure Targets.Follows (o : TargetOptions) (delivered : ServingRegion → Prop) (active : Option Targets)
    (t : Targets) : Prop where
  tracked : t.tracked = true
  configured : (∀ a ∈ active, ∀ v ∈ a.serving, v ∈ o.servingRegions) → ∀ v ∈ t.serving, v ∈ o.servingRegions
  left : ∀ a ∈ active, ∀ v ∈ a.serving, o.withdraws v = true → v ∈ t.serving ∨ v ∈ t.withdrawn
  still : ∀ a ∈ active, ∀ v ∈ a.withdrawn, o.withdraws v = true →
    v ∈ t.serving ∨ v ∈ t.withdrawn ∨ delivered v

/-- The shards that a revision serves, and those that it withdraws. -/
theorem publicationTargets_spec (E : Externals) (o : TargetOptions) (bindings : List ResolverBinding)
    (contextUIDs : List GoString) (tombstone : Bool) (active : Option Targets)
    (delivered : ServingRegion → Bool) :
    let targets := publicationTargets E o bindings contextUIDs tombstone active delivered
    (∀ v ∈ targets.1, v ∈ o.servingRegions ∨ ∃ a ∈ active, v ∈ a.serving) ∧
      (∀ a ∈ active, ∀ v ∈ a.serving, o.withdraws v = true → v ∈ targets.1 ∨ v ∈ targets.2) ∧
      ∀ a ∈ active, ∀ v ∈ a.withdrawn, o.withdraws v = true →
        v ∈ targets.1 ∨ v ∈ targets.2 ∨ delivered v = true := by
  unfold publicationTargets
  cases active with
  | none =>
    refine ⟨fun v hv => .inl (mem_of_assignedTargets (mem_sortedTargets.mp hv)), nofun, nofun⟩
  | some previous =>
    simp only [mem_sortedTargets]
    refine ⟨fun v hv => ?_, ?_, ?_⟩
    · cases tombstone with
      | false => exact .inl (mem_of_assignedTargets hv)
      | true =>
        rcases mem_union_iff.mp hv with hassigned | hserving
        · exact .inl (mem_of_assignedTargets hassigned)
        · exact .inr ⟨previous, rfl, hserving⟩
    · rintro _ ⟨⟩ v hserving hwithdraws
      cases tombstone with
      | false =>
        by_cases hv : v ∈ assignedTargets E o bindings contextUIDs
        · exact .inl hv
        · refine .inr (mem_keepWithdrawing hv hwithdraws (.inl (mem_dedup.mpr ?_)))
          exact mem_filter.mpr ⟨hserving, by simp [hv, hwithdraws]⟩
      | true => exact .inl (mem_union_iff.mpr (.inr hserving))
    · rintro _ ⟨⟩ v hwithdrawn hwithdraws
      by_cases hv : v ∈ if tombstone then assignedTargets E o bindings contextUIDs ∪ previous.serving
          else assignedTargets E o bindings contextUIDs
      · exact .inl hv
      · cases hdelivered : delivered v with
        | true => exact .inr (.inr rfl)
        | false =>
          refine .inr (.inl (mem_keepWithdrawing hv hwithdraws (.inr ⟨?_, hdelivered⟩)))
          exact mem_append_left _ hwithdrawn

theorem mem_of_publishes (h : v ∈ o.publishes targets) : v ∈ targets := by
  unfold TargetOptions.publishes at h
  split_ifs at h
  · exact mem_of_mem_filter h
  · exact h

/-- A control plane publishes to every shard that is its own to withdraw. -/
theorem mem_publishes (h : v ∈ targets) (hwithdraws : o.withdraws v = true) :
    v ∈ o.publishes targets := by
  have hlocal : o.isLocal v.region = true := ((Bool.and_eq_true _ _).mp hwithdraws).2
  unfold TargetOptions.publishes
  split_ifs
  · exact mem_filter.mpr ⟨h, hlocal⟩
  · exact h

theorem zoneTargets_follows {tombstone : Bool} {active : Option Targets} {t : Targets}
    (h : zoneTargets E o bindings contextUIDs tombstone active delivered = some t) :
    t.Follows o (fun v => delivered v = true) active := by
  obtain ⟨hconfigured, hleft, hstill⟩ :=
    publicationTargets_spec E o bindings contextUIDs tombstone active delivered
  unfold zoneTargets at h
  generalize publicationTargets E o bindings contextUIDs tombstone active delivered = targets at *
  obtain ⟨serving, withdrawn⟩ := targets
  dsimp only at h hconfigured hleft hstill
  split_ifs at h with hnone
  cases h
  refine ⟨rfl, fun hactive v hv => ?_, fun a ha v hv hwithdraws => ?_, fun a ha v hv hwithdraws => ?_⟩
  · rcases hconfigured v (mem_of_publishes hv) with hv | ⟨a, ha, hv⟩
    · exact hv
    · exact hactive a ha v hv
  · exact (hleft a ha v hv hwithdraws).imp_left fun hv => mem_publishes hv hwithdraws
  · exact (hstill a ha v hv hwithdraws).imp_left fun hv => mem_publishes hv hwithdraws

/-! ## The choice of a shard

Where no live binding decides, the shard with the highest hash is taken, and of equal hashes the one
with the first name.  No other shard has a part in this order, so a shard that comes or goes moves only
the contexts that choose it.
-/

variable {o' : TargetOptions} {new : ServingRegion}

/-- Of the live bindings with configured shards the one with the first shard decides. -/
theorem assignedIn_of_live {b : ResolverBinding} (hb : b ∈ bindings)
    (hlive : liveIn o contextUID region b = true) (hshard : ⟨region, b.spec.shard⟩ ∈ o.servingRegions) :
    ∃ v, assignedIn E o contextUID bindings region = some v ∧ v.shard ≤ b.spec.shard ∧
      ∃ a ∈ bindings, liveIn o contextUID region a = true ∧ a.spec.shard = v.shard := by
  have hmem : ⟨region, b.spec.shard⟩ ∈ (bindings.filter (liveIn o contextUID region)).flatMap fun b =>
      (regionCandidates o region).filter (b.spec.shard = ·.shard) :=
    mem_flatMap.mpr ⟨b, mem_filter.mpr ⟨hb, hlive⟩,
      mem_filter.mpr ⟨mem_regionCandidates.mpr ⟨hshard, rfl⟩, decide_eq_true rfl⟩⟩
  obtain ⟨v, hv⟩ := Option.ne_none_iff_exists'.mp
    (mt (argmin_eq_none (f := ServingRegion.shard)).mp (ne_nil_of_mem hmem))
  obtain ⟨a, ha, hva⟩ := mem_flatMap.mp (argmin_mem hv)
  obtain ⟨hmema, hlivea⟩ := mem_filter.mp ha
  refine ⟨v, ?_, not_lt.mp (not_lt_of_mem_argmin hmem hv), a, hmema, hlivea,
    of_decide_eq_true (mem_filter.mp hva).2⟩
  rw [assignedIn, preservedTarget_eq, hv, Option.some_or]

/-- The order in which a context prefers shards. -/
def preference (E : Externals) (o : TargetOptions) (contextUID : GoString) (c : ServingRegion) :
    GoString ×ₗ GoStringᵒᵈ :=
  toLex (E.hash (o.projectUID ++ '/' :: contextUID ++ '/' :: c.region ++ '/' :: c.shard),
    OrderDual.toDual c.shard)

section Hashed

variable (hhash : ∀ s, E.hash s ≠ [])
include hhash

/-- **The loop over the candidates** finds the one that is preferred to all others. -/
theorem rendezvousTarget_spec (contextUID : GoString) (hv : v ∈ o.servingRegions) :
    ∃ w, rendezvousTarget E o contextUID (regionCandidates o v.region) v.region = some w ∧
      ∀ c ∈ regionCandidates o v.region, preference E o contextUID c ≤ preference E o contextUID w := by
  have hloop := foldl_invariant
    (s := ((regionCandidates o v.region).head?, []))
    (f := fun (best : Option ServingRegion × GoString) c =>
      let score := E.hash (o.projectUID ++ '/' :: contextUID ++ '/' :: v.region ++ '/' :: c.shard)
      if best.2 = [] ∨ best.2 < score then (some c, score) else best)
    (P := fun done best => done = [] ∧ best.2 = [] ∨ ∃ w ∈ done,
      best = (some w, (ofLex (preference E o contextUID w)).1) ∧
      ∀ c ∈ done, preference E o contextUID c ≤ preference E o contextUID w)
    (.inl ⟨rfl, rfl⟩)
    fun done c rest best (hsplit : regionCandidates o v.region = _) hbest => ?_
  · obtain ⟨hnil, -⟩ | ⟨w, -, hbest, hall⟩ := hloop
    · exact absurd hnil (ne_nil_of_mem (mem_regionCandidates.mpr ⟨hv, rfl⟩))
    · exact ⟨w, congrArg Prod.fst hbest, hall⟩
  · have hc : c.region = v.region := (mem_regionCandidates.mp (by rw [hsplit]; simp)).2
    rw [← hc]
    right
    obtain ⟨rfl, hnone⟩ | ⟨w, hw, rfl, hall⟩ := hbest
    · exact ⟨c, by simp, if_pos (.inl hnone), by simp⟩
    · dsimp only
      split_ifs with hscore
      · refine ⟨c, by simp, rfl, forall_mem_concat (fun d hd => (hall d hd).trans ?_) le_rfl⟩
        exact (Prod.Lex.toLex_lt_toLex.mpr (.inl (hscore.resolve_left (hhash _)))).le
      · refine ⟨w, mem_append_left _ hw, rfl, forall_mem_concat hall ?_⟩
        -- the candidates are in the order of their names
        have htotal : Std.Total fun a b : ServingRegion => a.shard ≤ b.shard := ⟨fun _ _ => le_total _ _⟩
        have htrans : IsTrans ServingRegion fun a b => a.shard ≤ b.shard := ⟨fun _ _ _ => le_trans⟩
        have hsorted : (regionCandidates o v.region).Pairwise (·.shard ≤ ·.shard) :=
          pairwise_insertionSort _ _
        rw [hsplit] at hsorted
        have hle := (pairwise_append.mp hsorted).2.2 w hw c mem_cons_self
        rw [not_or, not_lt] at hscore
        exact Prod.Lex.toLex_le_toLex.mpr (hscore.2.lt_or_eq.imp_right fun heq => ⟨heq, hle⟩)

/-- The regions of the shards are all regions, each once. -/
theorem map_region_selectServingTargets :
    (selectServingTargets E o contextUID bindings).map ServingRegion.region =
      (o.servingRegions.map ServingRegion.region).dedup.insertionSort (· ≤ ·) := by
  rw [selectServingTargets, map_filterMap]
  refine (filterMap_congr fun region hregion => ?_).trans filterMap_some
  obtain ⟨v, hv, rfl⟩ := mem_map.mp (mem_dedup.mp ((mem_insertionSort _).mp hregion))
  obtain ⟨w, hw, -⟩ := rendezvousTarget_spec hhash contextUID hv
  obtain ⟨x, hx⟩ : ∃ x, assignedIn E o contextUID bindings v.region = some x := by
    rw [assignedIn, hw, Option.or_some]
    exact ⟨_, rfl⟩
  exact (congrArg _ hx).trans (congrArg some (mem_of_assignedIn hx).2)

/-- **One more shard.**  Where no live binding decides, it takes contexts only to itself. -/
theorem assignedIn_of_added (hproject : o'.projectUID = o.projectUID)
    (hadded : ∀ v, v ∈ o'.servingRegions ↔ v ∈ o.servingRegions ∨ v = new)
    (hlive : ∀ b ∈ bindings, ∀ region, liveIn o contextUID region b = false)
    (h : assignedIn E o' contextUID bindings v.region = some v) :
    v = new ∨ assignedIn E o contextUID bindings v.region = some v := by
  have hrendezvous : ∀ {o₁ : TargetOptions}, o₁.projectUID = o.projectUID →
      assignedIn E o₁ contextUID bindings v.region =
        rendezvousTarget E o₁ contextUID (regionCandidates o₁ v.region) v.region := by
    intro o₁ ho₁
    have hempty : bindings.filter (liveIn o₁ contextUID v.region) = [] := by
      simpa [liveIn, ho₁] using fun b hb => hlive b hb v.region
    rw [assignedIn, preservedTarget_eq, hempty]
    rfl
  have hv := (mem_of_assignedIn h).1
  refine ((hadded v).mp hv).symm.imp_right fun hold => ?_
  obtain ⟨w, hw, hbest⟩ := rendezvousTarget_spec hhash contextUID hold
  obtain ⟨w', hw', hbest'⟩ := rendezvousTarget_spec hhash contextUID hv
  rw [hrendezvous hproject, hw'] at h
  cases h
  have hmem := mem_of_rendezvousTarget hw
  rw [hrendezvous rfl, hw]
  -- each is preferred to the other
  have hle := hbest v (mem_regionCandidates.mpr ⟨hold, rfl⟩)
  rw [mem_regionCandidates] at hmem
  have hge := hbest' w (mem_regionCandidates.mpr ⟨(hadded w).mpr (.inl hmem.1), hmem.2⟩)
  unfold preference at hle hge
  rw [hproject] at hge
  have hshard := congrArg (fun p => OrderDual.ofDual (ofLex p).2) (le_antisymm hle hge)
  cases v
  cases w
  exact congrArg some (congrArg₂ ServingRegion.mk hmem.2 hshard.symm)

end Hashed

/-- **The shards of a context**: exactly one configured shard in each region; where live bindings have
configured shards, the first of these; and without live bindings a shard that is added takes contexts
only to itself, so one that is removed moves only its own. -/
theorem context_shards (hhash : ∀ s, E.hash s ≠ []) (o : TargetOptions) (contextUID : GoString)
    (bindings : List ResolverBinding) :
    ((selectServingTargets E o contextUID bindings).map ServingRegion.region).Nodup ∧
    (∀ region, region ∈ (selectServingTargets E o contextUID bindings).map ServingRegion.region ↔
      region ∈ o.servingRegions.map ServingRegion.region) ∧
    (∀ v ∈ selectServingTargets E o contextUID bindings, v ∈ o.servingRegions) ∧
    (∀ b ∈ bindings, liveIn o contextUID b.spec.region b = true →
      ⟨b.spec.region, b.spec.shard⟩ ∈ o.servingRegions →
      ∃ v ∈ selectServingTargets E o contextUID bindings, v.region = b.spec.region ∧
        v.shard ≤ b.spec.shard ∧
        ∃ a ∈ bindings, liveIn o contextUID v.region a = true ∧ a.spec.shard = v.shard) ∧
    ∀ (o' : TargetOptions) (new : ServingRegion), o'.projectUID = o.projectUID →
      (∀ v, v ∈ o'.servingRegions ↔ v ∈ o.servingRegions ∨ v = new) →
      (∀ b ∈ bindings, ∀ region, liveIn o contextUID region b = false) →
      ∀ v ∈ selectServingTargets E o' contextUID bindings,
        v = new ∨ v ∈ selectServingTargets E o contextUID bindings := by
  rw [map_region_selectServingTargets hhash]
  simp only [mem_selectServingTargets]
  refine ⟨?_, by simp, fun v hv => (mem_of_assignedIn hv).1, fun b hb hlive hshard => ?_, ?_⟩
  · exact (perm_insertionSort _ _).nodup_iff.mpr (nodup_dedup _)
  · obtain ⟨v, hv, hle, hlive⟩ := assignedIn_of_live (E := E) hb hlive hshard
    have hregion := (mem_of_assignedIn hv).2
    exact ⟨v, hregion ▸ hv, hregion, hle, hregion ▸ hlive⟩
  · exact fun o' new hproject hadded hlive v => assignedIn_of_added hhash hproject hadded hlive

theorem east_takes_new_shard :
    ((selectServingTargets { Externals.reference with hash := ('h' :: ·) }
        ⟨[], [], [], [⟨lit "east", lit "a"⟩], []⟩ (lit "context") []).map ServingRegion.region).Nodup ∧
    ∀ v ∈ selectServingTargets { Externals.reference with hash := ('h' :: ·) }
        ⟨[], [], [], [⟨lit "east", lit "a"⟩, ⟨lit "east", lit "b"⟩], []⟩ (lit "context") [],
      v = ⟨lit "east", lit "b"⟩ ∨ v ∈ selectServingTargets { Externals.reference with hash := ('h' :: ·) }
        ⟨[], [], [], [⟨lit "east", lit "a"⟩], []⟩ (lit "context") [] :=
  have h := context_shards (E := { Externals.reference with hash := ('h' :: ·) })
    (fun _ => cons_ne_nil _ _) ⟨[], [], [], [⟨lit "east", lit "a"⟩], []⟩ (lit "context") []
  ⟨h.1, h.2.2.2.2 _ _ rfl (by simp [TargetOptions.servingRegions]) nofun⟩

end Facts

end InternalDNS.Controlplane
