import InternalDNS.BootstrapChunks

/-! # Replaying a bootstrap

`verifyBootstrap` looks at a cut as a whole, and `loadBootstrap` then handles its events one after the
other, in another order, each against the state that the ones before it left.  On a fresh agent the
second has nothing to object to that the first has let through, with one exception: chunks under the
manifest of a withdrawn zone.  `VerifyManifest` looks at no chunks of such a manifest, they are replayed
all the same, and two of them at one index with different hashes are a conflict.
-/
namespace InternalDNS

open Go Go.Prog List AList PublicationChunk

variable {E : Externals} {cfg : AgentConfig}

/-! ## The cut that is replayed -/

/-- The plan that a live manifest of the cut comes to. -/
structure PlanOf (E : Externals) (envs : List Envelope) (m : PublicationManifest) (plan : PublicationPlan) :
    Prop where
  mem : m ∈ manifestsOf envs
  live : m.tombstone = false
  decodes : ∃ payload, verifyManifest E m (chunksUnder envs m.manifestUID) = .ok payload ∧
    E.decodePlan payload = some plan

/-- One manifest for each zone, payloads that decode to valid plans for the zone and apex of their
manifest, and no contribution in the plans of two zones. -/
structure PlansValid (E : Externals) (envs : List Envelope) : Prop where
  oneManifest : ((manifestsOf envs).map PublicationManifest.zoneUID).Nodup
  decodes : ∀ m ∈ manifestsOf envs, m.tombstone = false → ∃ plan, PlanOf E envs m plan ∧ plan.Valid E ∧
    plan.zoneUID = m.zoneUID ∧ absoluteName E.cases plan.apex = absoluteName E.cases m.apex
  disjoint : ∀ m m' plan plan', PlanOf E envs m plan → PlanOf E envs m' plan' → m.zoneUID ≠ m'.zoneUID →
    ∀ o ∈ plan.observationFences, ∀ o' ∈ plan'.observationFences, o.contributionUID ≠ o'.contributionUID

theorem PlansValid.inj {envs : List Envelope} (h : PlansValid E envs) {m m' : PublicationManifest}
    (hm : m ∈ manifestsOf envs) (hm' : m' ∈ manifestsOf envs) (hzone : m.zoneUID = m'.zoneUID) : m = m' :=
  inj_on_of_nodup_map h.oneManifest hm hm' hzone

/-- The staged chunks of a manifest are these. -/
def Checkpoint.Stages (c : Checkpoint) (uid : GoString) (chunks : List PublicationChunk) : Prop :=
  ∀ key chunk, (c.staged uid).lookup key = some chunk ↔ chunk ∈ chunks ∧ chunk.key = key

theorem Checkpoint.Stages.perm {c : Checkpoint} {uid : GoString} {chunks : List PublicationChunk}
    (h : c.Stages uid chunks) (hnodup : chunks.Nodup) :
    ((c.staged uid).entries.map fun e => e.2).Perm chunks := by
  have hkey : ∀ key chunk, (c.staged uid).lookup key = some chunk → chunk.key = key :=
    fun key chunk hlookup => ((h key chunk).mp hlookup).2
  refine (perm_ext_iff_of_nodup (List.Nodup.of_map key (GoMap.nodup_map_values hkey)) hnodup).mpr
    fun chunk => ?_
  rw [GoMap.mem_values hkey, h, and_iff_left rfl]

/-- Equal keys of valid chunks are equal indices. -/
theorem PublicationChunk.index_eq_of_key {c c' : PublicationChunk} (hc : c.validate E = .ok ())
    (hc' : c'.validate E = .ok ()) (hkey : c.key = c'.key) : c.index = c'.index := by
  have hnonneg : ∀ {c : PublicationChunk}, c.validate E = .ok () → 0 ≤ c.index := by
    intro c h
    simp only [validate, Except.bind_eq_ok, failIf_eq_ok] at h
    obtain ⟨_, hfields, -⟩ := h
    push Not at hfields
    exact hfields.2.2.2.2.1
  have htoNat : c.index.toNat = c'.index.toNat := itoa_injective hkey
  have hc := hnonneg hc
  have hc' := hnonneg hc'
  omega

/-- The staged chunks of a live manifest are its chunks. -/
theorem Checkpoint.Staging.stages {done : List PublicationChunk} {c : Checkpoint} {m : PublicationManifest}
    (h : c.Staging done) {chunks : List PublicationChunk} (hchunks : ChunksOfManifest E m chunks)
    (hdone : ∀ chunk, chunk ∈ chunks ↔ chunk ∈ done ∧ chunk.manifestUID = m.manifestUID) :
    c.Stages m.manifestUID chunks := by
  intro key chunk
  constructor
  · intro hlookup
    obtain ⟨hmem, huid, hkey⟩ := h.sound _ _ _ hlookup
    exact ⟨(hdone chunk).mpr ⟨hmem, huid⟩, hkey⟩
  · rintro ⟨hmem, rfl⟩
    obtain ⟨hmemDone, huid⟩ := (hdone chunk).mp hmem
    obtain ⟨chunk', hlookup, -⟩ := h.complete chunk hmemDone
    rw [huid] at hlookup
    obtain ⟨hmemDone', huid', hkey⟩ := h.sound _ _ _ hlookup
    have hmem' : chunk' ∈ chunks := (hdone chunk').mpr ⟨hmemDone', huid'⟩
    -- no two chunks of the manifest have the same index
    have hindex := index_eq_of_key (hchunks.valid chunk' hmem') (hchunks.valid chunk hmem) hkey
    rwa [inj_on_of_nodup_map hchunks.distinct hmem' hmem hindex] at hlookup

/-! ## The snapshot and the manifests -/

/-- The state after the snapshot and the manifests in `done`, when the contributions of those in `fenced`
have their fences. -/
structure Checkpoint.Applied (E : Externals) (envs : List Envelope) (snapshot : ServingSnapshot)
    (done fenced : List PublicationManifest) (c : Checkpoint) : Prop where
  formatVersion : c.formatVersion = checkpointFormatVersion
  snapshot : c.snapshot = some snapshot
  published : ∀ m ∈ done, ∃ p, c.publications.lookup m.zoneUID = some p ∧
    p.fence = ⟨m.writerEpoch, m.revision⟩
  unpublished : ∀ uid, (∀ m ∈ done, m.zoneUID ≠ uid) → c.publications.lookup uid = none
  contributions : ∀ uid fence, c.contributionFences.lookup uid = some fence → ∃ m ∈ fenced, ∃ plan,
    PlanOf E envs m plan ∧ ∃ o ∈ plan.observationFences, o.contributionUID = uid
  staged : ∀ m ∈ manifestsOf envs, (∀ m' ∈ done, m'.zoneUID ≠ m.zoneUID) → m.tombstone = false →
    c.Stages m.manifestUID (chunksUnder envs m.manifestUID)

namespace Checkpoint.Applied

variable {envs : List Envelope} {snapshot : ServingSnapshot} {done fenced : List PublicationManifest}
  {c : Checkpoint} {m : PublicationManifest}

theorem fenceOf (h : c.Applied E envs snapshot done fenced) {uid : GoString}
    (huid : ∀ m ∈ done, m.zoneUID ≠ uid) : c.fenceOf uid = ⟨0, 0⟩ := by
  rw [Checkpoint.fenceOf, h.unpublished uid huid]
  rfl

/-- A save drops no chunk of a manifest whose turn is still to come. -/
theorem prune (hverified : ∀ m ∈ manifestsOf envs, ∃ payload,
      verifyManifest E m (chunksUnder envs m.manifestUID) = .ok payload)
    (h : c.Applied E envs snapshot done fenced) :
    c.pruneSupersededChunks.Applied E envs snapshot done fenced := by
  refine { h with staged := fun m hm hfresh hlive key chunk => ?_ }
  have hstages := h.staged m hm hfresh hlive
  obtain ⟨payload, hpayload⟩ := hverified m hm
  have hchunks := verifyManifest_live hlive hpayload
  rw [lookup_staged_prune fun key chunk hlookup => ?_, hstages]
  rw [(hchunks.identity chunk ((hstages key chunk).mp hlookup).1).2.1, h.fenceOf hfresh]

/-- A manifest has become the publication of its zone. -/
theorem publish (hplans : PlansValid E envs) (hm : m ∈ manifestsOf envs)
    {done' : List PublicationManifest} (hdone : ∀ m' ∈ done', m' = m ∨ m' ∈ done)
    (hmem : m ∈ done') (hold : ∀ m' ∈ done, m' ∈ done') (hcut : ∀ m' ∈ done, m' ∈ manifestsOf envs)
    {p : PublicationState} (hfence : p.fence = ⟨m.writerEpoch, m.revision⟩)
    (h : c.Applied E envs snapshot done fenced) :
    (c.setPublication m.zoneUID p).Applied E envs snapshot done' fenced where
  formatVersion := h.formatVersion
  snapshot := h.snapshot
  published m' hm' := by
    by_cases hzone : m'.zoneUID = m.zoneUID
    · have hmem' : m' ∈ manifestsOf envs := (hdone m' hm').elim (fun heq => heq ▸ hm) (hcut m')
      obtain rfl := hplans.inj hmem' hm hzone
      exact ⟨p, lookup_insert _, hfence⟩
    · obtain rfl | hm' := hdone m' hm'
      · exact absurd rfl hzone
      · obtain ⟨q, hq, hfenceq⟩ := h.published m' hm'
        exact ⟨q, (lookup_insert_ne hzone).trans hq, hfenceq⟩
  unpublished uid huid :=
    (lookup_insert_ne (huid m hmem).symm).trans (h.unpublished uid fun m' hm' => huid m' (hold m' hm'))
  contributions := h.contributions
  staged m' hm' hfresh := h.staged m' hm' fun m'' hm'' => hfresh m'' (hold m'' hm'')

end Checkpoint.Applied

/-- Nothing stands in the way of the first snapshot's bindings. -/
theorem advanceBindingFences_empty (hash : GoString → GoString) (snapshot : ServingSnapshot) :
    ∃ fences, advanceBindingFences hash ∅ snapshot = .ok fences := by
  have hloop : ∃ fences, loop (advanceBinding hash ∅) (withdrawAll ∅) snapshot.bindings = .ok fences ∧ True :=
    loop_succeeds (P := fun _ _ => True) trivial fun _ b _ next _ _ =>
      ⟨next.insert b.bindingUID (bindingFenceFor hash b), by simp [advanceBinding], trivial⟩
  exact hloop.imp fun _ h => h.1

section Steps

variable {n : Nat} {envs : List Envelope} {snapshot : ServingSnapshot}
  {done : List PublicationManifest} {m : PublicationManifest} {env : Envelope} {F : Sys → Prop}

/-- An accepted publication is stored. -/
theorem applyPublication_fine {Φ Ψ : Checkpoint → Prop} {uid : GoString} {next : PublicationState}
    (hset : ∀ c verified, Φ c → Ψ (c.setPublication uid { next with verified := verified }))
    (hreset : ∀ c verified, Ψ c → Ψ (c.setPublication uid { next with verified := verified }))
    (hformat : ∀ c, Ψ c → c.formatVersion = checkpointFormatVersion)
    (hprune : ∀ c, Ψ c → Ψ c.pruneSupersededChunks) :
    Triple (Sys.Bootstrapping (n + 2) Φ) (applyPublication E cfg uid next)
      (fun _ => Sys.Bootstrapping n Ψ) F := by
  unfold applyPublication
  split
  · refine triple_bind (modifyState_fine fun c hc => hset c false hc) fun _ => ?_
    refine triple_bind (save_fine hformat hprune) fun _ => ?_
    exact triple_bind (modifyState_fine fun c hc => hreset c true hc) fun _ => save_fine hformat hprune
  · refine triple_bind (modifyState_fine fun c hc => hset c next.verified hc) fun _ => ?_
    refine triple_bind (save_fine hformat hprune) fun _ => triple_get_bind fun t ht => ?_
    rintro u rfl
    rw [when, if_neg (by simp [ht.inProgress])]
    exact ht.le (Nat.le_succ n)

variable (hverified : ∀ m ∈ manifestsOf envs, ∃ payload,
  verifyManifest E m (chunksUnder envs m.manifestUID) = .ok payload)

include hverified

/-- The snapshot of a bootstrap is accepted. -/
theorem handle_serving {chunks : List PublicationChunk}
    (haccepted : env.Accepted E cfg.region cfg.shard) (hpayload : env.payload = .serving snapshot)
    (hlimit : snapshot.bindings.length ≤ if cfg.maxBindings = 0 then 4096 else cfg.maxBindings)
    (hstages : ∀ c : Checkpoint, c.Staging chunks → ∀ m ∈ manifestsOf envs, m.tombstone = false →
      c.Stages m.manifestUID (chunksUnder envs m.manifestUID)) :
    Triple (Sys.Bootstrapping (n + 2) (Checkpoint.Staging chunks)) (handle E cfg env)
      (fun _ => Sys.Bootstrapping n (Checkpoint.Applied E envs snapshot [] [])) F := by
  have hserving := haccepted.payload
  refine handle_fine haccepted ?_
  rw [hpayload] at hserving ⊢
  obtain ⟨hvalid, hregion, hshard, hepoch, hrevision⟩ := hserving
  show Triple _ (handleServing E cfg env snapshot) _ _
  unfold handleServing
  rw [check_bind hvalid]
  rw [check_failIf (not_lt.mpr hlimit), check_failIf (by simp [hregion, hshard, hepoch, hrevision])]
  refine triple_look fun s hs => ?_
  have hfresh : s.agent.state.servingFence = ⟨0, 0⟩ := hs.state.servingFence
  refine triple_ite (fun hlt => ?_) fun _ => triple_ite (fun hsame => ?_) fun _ => ?_
  · rw [hfresh] at hlt
    exact absurd hlt (compare_zero_not_neg _ _)
  · rw [hs.state.snapshot] at hsame
    exact absurd hsame.2 (by simp)
  · refine triple_bind (Q := fun _ => Sys.Bootstrapping n (Checkpoint.Applied E envs snapshot [] [])) ?_
      fun _ => triple_get_bind fun t ht => ?_
    · refine triple_look fun t ht => ?_
      obtain ⟨fences, hfences⟩ := advanceBindingFences_empty E.hash snapshot
      rw [ht.state.bindingFences, check_bind hfences]
      refine triple_bind (modifyState_fine
        (Ψ := Checkpoint.Applied E envs snapshot [] []) fun c hc => ?_) fun _ => ?_
      · refine ⟨hc.formatVersion, rfl, fun _ h => absurd h not_mem_nil, fun uid _ => ?_,
          fun uid fence h => ?_, fun m hm _ hlive => hstages c hc m hm hlive⟩
        · rw [hc.publications, lookup_empty]
        · rw [hc.contributionFences, lookup_empty] at h
          cases h
      · refine triple_look fun u hu => ?_
        refine triple_bind (triple_when (modifyState_fine fun c hc => ?_) fun _ h => h) fun _ => ?_
        · exact { hc with }
        · refine Triple.attempt_succeeds (save_fine (fun _ hc => hc.formatVersion)
            fun _ hc => hc.prune hverified) fun _ => ?_
          exact fun _ h => h
    · rintro u rfl
      rw [when, if_neg (by simp [ht.inProgress])]
      exact ht

variable (hplans : PlansValid E envs)

include hplans

/-- The plan of a live manifest is accepted. -/
theorem acceptPlan_fine (hm : m ∈ manifestsOf envs) (hlive : m.tombstone = false)
    (hfresh : ∀ m' ∈ done, m'.zoneUID ≠ m.zoneUID) :
    Triple (Sys.Bootstrapping (n + 1) (Checkpoint.Applied E envs snapshot done done)) (acceptPlan E m)
      (fun next t => next.fence = ⟨m.writerEpoch, m.revision⟩ ∧
        t.Bootstrapping n (Checkpoint.Applied E envs snapshot done (done ++ [m]))) F := by
  obtain ⟨plan, hplan, hvalid, hzone, hapex⟩ := hplans.decodes m hm hlive
  obtain ⟨payload, hpayload, hdecode⟩ := hplan.decodes
  have hchunks := verifyManifest_live hlive hpayload
  refine triple_look fun s hs => ?_
  have hperm := (hs.state.staged m hm hfresh hlive).perm (List.Nodup.of_map _ hchunks.distinct)
  have hfences : s.agent.state.validateContributionFences plan = .ok () := by
    refine forEach_eq_ok.mpr fun o ho => ?_
    have hnone : s.agent.state.contributionFences.lookup o.contributionUID = none := by
      rw [Option.eq_none_iff_forall_ne_some]
      intro fence hfence
      obtain ⟨m', hm', plan', hplan', o', ho', huid⟩ := hs.state.contributions _ _ hfence
      exact hplans.disjoint m' m plan' plan hplan' hplan (hfresh m' hm') o' ho' o ho huid
    rw [hnone]
    rfl
  rw [← Checkpoint.staged, check_bind (verifyManifest_perm hlive hperm hpayload),
    check_bind (orError_eq_ok.mpr hdecode), check_bind (PublicationPlan.validate_eq_ok.mpr hvalid),
    check_failIf (by simp [hzone, hapex]), check_bind hfences]
  refine triple_bind (modifyState_fine
    (Ψ := Checkpoint.Applied E envs snapshot done (done ++ [m])) fun c hc => ?_) fun _ => ?_
  · refine { hc with contributions := fun uid fence hfence => ?_ }
    obtain hold | ⟨o, ho, huid, -⟩ := lookup_commitContributionFences hfence
    · obtain ⟨m', hm', hplan'⟩ := hc.contributions uid fence hold
      exact ⟨m', mem_append_left _ hm', hplan'⟩
    · exact ⟨m, mem_append_right _ (mem_singleton_self m), plan, hplan, o, ho, huid⟩
  · refine triple_bind (save_fine (fun _ hc => hc.formatVersion) fun _ hc => hc.prune hverified) fun _ => ?_
    exact triple_pure _ fun t ht => ⟨rfl, ht⟩

/-- The next manifest of a bootstrap is accepted. -/
theorem handle_manifest (haccepted : env.Accepted E cfg.region cfg.shard) (hpayload : env.payload = .manifest m)
    (hm : m ∈ manifestsOf envs) (hcut : ∀ m' ∈ done, m' ∈ manifestsOf envs)
    (hfresh : ∀ m' ∈ done, m'.zoneUID ≠ m.zoneUID) :
    Triple (Sys.Bootstrapping (n + 4) (Checkpoint.Applied E envs snapshot done done)) (handle E cfg env)
      (fun _ => Sys.Bootstrapping n (Checkpoint.Applied E envs snapshot (done ++ [m]) (done ++ [m]))) F := by
  have hmanifest := haccepted.payload
  refine handle_fine haccepted ?_
  rw [hpayload] at hmanifest ⊢
  obtain ⟨hvalid, hzone, hepoch, hrevision⟩ := hmanifest
  -- whatever was accepted at this fence is stored
  have hstore : ∀ next : PublicationState, next.fence = ⟨m.writerEpoch, m.revision⟩ →
      Triple (Sys.Bootstrapping (n + 2) (Checkpoint.Applied E envs snapshot done (done ++ [m])))
        (applyPublication E cfg m.zoneUID next)
        (fun _ => Sys.Bootstrapping n (Checkpoint.Applied E envs snapshot (done ++ [m]) (done ++ [m])))
        (fun _ => False) := by
    intro next hfence
    have hlast : m ∈ done ++ [m] := mem_append_right _ (mem_singleton_self m)
    have hcut' : ∀ m' ∈ done ++ [m], m' ∈ manifestsOf envs := fun m' hm' =>
      (mem_append.mp hm').elim (hcut m') fun h => mem_singleton.mp h ▸ hm
    refine applyPublication_fine (fun c verified hc => ?_) (fun c verified hc => ?_)
      (fun _ hc => hc.formatVersion) fun _ hc => hc.prune hverified
    · refine hc.publish hplans hm (fun m' hm' => ?_) hlast (fun _ => mem_append_left _) hcut hfence
      exact (mem_append.mp hm').symm.imp_left mem_singleton.mp
    · exact hc.publish hplans hm (fun _ => .inr) hlast (fun _ h => h) hcut' hfence
  refine Triple.attempt_succeeds (Q := fun _ =>
    Sys.Bootstrapping n (Checkpoint.Applied E envs snapshot (done ++ [m]) (done ++ [m]))) ?_
      fun _ => finishEvent_fine
  unfold handleManifest
  rw [check_bind hvalid, check_failIf (by simp [hzone, hepoch, hrevision])]
  refine triple_look fun s hs => ?_
  have hnone : s.agent.state.publications.lookup m.zoneUID = none := hs.state.unpublished _ hfresh
  have hzero : s.agent.state.fenceOf m.zoneUID = ⟨0, 0⟩ := hs.state.fenceOf hfresh
  rw [hnone, hzero, if_neg (compare_zero_not_neg _ _), if_neg (by simp)]
  show Triple _ (if _ then _ else if m.tombstone = true then _ else _) _ _
  rw [if_neg (by simp)]
  refine triple_ite (fun _ => ?_) fun hlive => ?_
  · refine (hstore _ rfl).weaken fun t ht => (ht.le (by omega)).imp fun c hc => ?_
    refine { hc with contributions := fun uid fence hfence => ?_ }
    obtain ⟨m', hm', hplan⟩ := hc.contributions uid fence hfence
    exact ⟨m', mem_append_left _ hm', hplan⟩
  · refine triple_bind (acceptPlan_fine hverified hplans hm (by simpa using hlive) hfresh) fun next => ?_
    rintro t ⟨hfence, ht⟩
    exact hstore next hfence t ht

/-- **The manifests of a bootstrap are accepted.** -/
theorem replay_manifests {xs : List Envelope}
    (haccepted : ∀ env ∈ xs, env.Accepted E cfg.region cfg.shard)
    (hmanifests : ∀ env ∈ xs, env.payload.manifestOf.isSome = true)
    (hall : manifestsOf xs = manifestsOf envs) :
    Triple (Sys.Bootstrapping (n + 4 * xs.length) (Checkpoint.Applied E envs snapshot [] []))
      (each (handle E cfg) xs)
      (fun _ => Sys.Bootstrapping n
        (Checkpoint.Applied E envs snapshot (manifestsOf envs) (manifestsOf envs))) F := by
  have hloop := triple_each_done (F := F) (f := handle E cfg) (P := fun done =>
    Sys.Bootstrapping (n + 4 * (xs.length - done.length))
      (Checkpoint.Applied E envs snapshot (manifestsOf done) (manifestsOf done))) xs ?_
  · rw [← hall]
    simpa [manifestsOf] using hloop
  · intro done env rest hxs
    have hmem : env ∈ xs := by simp [hxs]
    obtain ⟨m, hm⟩ := Option.isSome_iff_exists.mp (hmanifests env hmem)
    have hpayload : env.payload = .manifest m := by
      cases hkind : env.payload <;> simp_all [Payload.manifestOf]
    have hdone : manifestsOf (done ++ [env]) = manifestsOf done ++ [m] := by
      rw [manifestsOf_concat, hm, Option.toList_some]
    have hsplit : manifestsOf envs = manifestsOf done ++ m :: manifestsOf rest := by
      rw [← hall, hxs]
      simp [manifestsOf, hm]
    have hcount : n + 4 * (xs.length - done.length) =
        n + 4 * (xs.length - (done ++ [env]).length) + 4 := by
      simp only [hxs, length_append, length_cons, length_nil]
      omega
    rw [hcount, hdone]
    refine handle_manifest hverified hplans (haccepted env hmem) hpayload (by simp [hsplit])
      (fun m' hm' => by simp [hsplit, hm']) fun m' hm' hzone => ?_
    have honce := hplans.oneManifest
    rw [hsplit, map_append, nodup_append] at honce
    exact honce.2.2 _ (mem_map_of_mem hm') _ mem_cons_self hzone

end Steps

/-! ## The whole replay -/

variable (envs : List Envelope)

/-- No two chunks for the manifest of a withdrawn zone have one index and different hashes. -/
def ChunksAgree : Prop :=
  ∀ m ∈ manifestsOf envs, m.tombstone = true → ∀ c ∈ chunksUnder envs m.manifestUID,
    ∀ c' ∈ chunksUnder envs m.manifestUID, c.index = c'.index → c.sha256 = c'.sha256

instance (envs : List Envelope) : Decidable (ChunksAgree envs) :=
  inferInstanceAs (Decidable (∀ m ∈ manifestsOf envs, m.tombstone = true →
    ∀ c ∈ chunksUnder envs m.manifestUID, ∀ c' ∈ chunksUnder envs m.manifestUID,
      c.index = c'.index → c.sha256 = c'.sha256))

/-- The snapshot is accepted, and every zone it serves has a publication as new as it requires. -/
def Checkpoint.ServesZones (c : Checkpoint) (snapshot : ServingSnapshot) : Prop :=
  c.snapshot = some snapshot ∧ ∀ zone, snapshot.ServesZone zone →
    ∃ p, c.publications.lookup zone.zoneUID = some p ∧ compare p.fence.epoch p.fence.revision
      zone.requiredPublicationEpoch zone.requiredPublicationRevision ≥ 0

/-- The envelopes with the chunks that are handled. -/
def chunkEnvelopes : List Envelope :=
  envs.filter fun env => keptEnvelope (manifestsOf envs) env && (env.payload.chunkOf).isSome

theorem mem_chunksOf_chunkEnvelopes {envs : List Envelope} {c : PublicationChunk} :
    c ∈ chunksOf (chunkEnvelopes envs) ↔
      c ∈ chunksOf envs ∧ ∃ m ∈ manifestsOf envs, m.manifestUID = c.manifestUID := by
  have hkept : ∀ env : Envelope, env.payload.chunkOf = some c →
      (keptEnvelope (manifestsOf envs) env = true ↔
        ∃ m ∈ manifestsOf envs, m.manifestUID = c.manifestUID) := by
    intro env hchunk
    have hpayload : env.payload = .chunk c := by
      cases hkind : env.payload <;> simp_all [Payload.chunkOf]
    simp [keptEnvelope, hpayload]
  simp only [chunksOf, chunkEnvelopes, mem_filterMap, mem_filter, Bool.and_eq_true]
  constructor
  · rintro ⟨env, ⟨henv, hk, -⟩, hchunk⟩
    exact ⟨⟨env, henv, hchunk⟩, (hkept env hchunk).mp hk⟩
  · rintro ⟨⟨env, henv, hchunk⟩, hm⟩
    exact ⟨env, ⟨henv, (hkept env hchunk).mpr hm, by simp [hchunk]⟩, hchunk⟩

theorem manifestsOf_filter :
    manifestsOf (envs.filter fun env => (env.payload.manifestOf).isSome) = manifestsOf envs := by
  unfold manifestsOf
  induction envs with
  | nil => rfl
  | cons env envs ih => cases hm : env.payload.manifestOf <;> simp [hm, ih]

/-- The sort loses no envelope. -/
theorem length_sortBootstrap : (sortBootstrap envs).length = envs.length := by
  induction envs with
  | nil => rfl
  | cons env envs ih =>
    simp only [sortBootstrap, length_append] at ih ⊢
    have hkind : bootstrapOrder env = 0 ∨ bootstrapOrder env = 1 ∨ bootstrapOrder env = 2 := by
      cases hpayload : env.payload <;> simp [bootstrapOrder, hpayload]
    rcases hkind with hkind | hkind | hkind <;> simp [hkind] <;> omega

section Verified

variable {envs replayed : List Envelope} {snapshot : ServingSnapshot} {serving : Envelope}

/-- Staged chunks agree. -/
theorem Checkpoint.Staging.agree {c : Checkpoint} (h : c.Staging (chunksOf (chunkEnvelopes envs))) :
    ChunksAgree envs := by
  intro m hm _ chunk hchunk chunk' hchunk' hindex
  have hmem : ∀ chunk ∈ chunksUnder envs m.manifestUID,
      chunk ∈ chunksOf (chunkEnvelopes envs) ∧ chunk.manifestUID = m.manifestUID := by
    intro chunk hchunk
    obtain ⟨hmem, huid⟩ := mem_filter.mp hchunk
    have huid := of_decide_eq_true huid
    exact ⟨mem_chunksOf_chunkEnvelopes.mpr ⟨hmem, m, hm, huid.symm⟩, huid⟩
  obtain ⟨hdone, huid⟩ := hmem chunk hchunk
  obtain ⟨hdone', huid'⟩ := hmem chunk' hchunk'
  obtain ⟨staged, hstaged, hhash⟩ := h.complete chunk hdone
  obtain ⟨staged', hstaged', hhash'⟩ := h.complete chunk' hdone'
  rw [huid', ← huid, show chunk'.key = chunk.key by rw [key, key, hindex],
    hstaged] at hstaged'
  cases hstaged'
  exact hhash.symm.trans hhash'

variable (h : VerifiedBootstrap E cfg.region cfg.shard envs replayed snapshot serving)

include h

/-- Chunks under one UID with equal keys have equal indices. -/
theorem VerifiedBootstrap.index_eq {c c' : PublicationChunk} (hc : c ∈ chunksOf envs)
    (hc' : c' ∈ chunksOf envs) (hkey : c.key = c'.key) : c.index = c'.index := by
  have hvalid : ∀ c ∈ chunksOf envs, c.validate E = .ok () := by
    intro c hc
    obtain ⟨env, henv, hchunk⟩ := mem_filterMap.mp hc
    have haccepted := (h.accepted env henv).payload
    cases hkind : env.payload with
    | chunk c' =>
      rw [hkind] at hchunk haccepted
      cases hchunk
      exact haccepted.1
    | serving _ | manifest _ | ack _ | malformed =>
      rw [hkind] at hchunk
      cases hchunk
  exact index_eq_of_key (hvalid c hc) (hvalid c' hc') hkey

/-- The handled chunks conflict only under the manifest of a withdrawn zone. -/
theorem VerifiedBootstrap.conflict {c c' : PublicationChunk} (hc : c ∈ chunksOf (chunkEnvelopes envs))
    (hc' : c' ∈ chunksOf (chunkEnvelopes envs)) (huid : c.manifestUID = c'.manifestUID)
    (hkey : c.key = c'.key) (hhash : c.sha256 ≠ c'.sha256) : ¬ ChunksAgree envs := by
  intro hagree
  obtain ⟨hc, m, hm, hmuid⟩ := mem_chunksOf_chunkEnvelopes.mp hc
  obtain ⟨hc', -⟩ := mem_chunksOf_chunkEnvelopes.mp hc'
  have hindex := h.index_eq hc hc' hkey
  have hunder : c ∈ chunksUnder envs m.manifestUID := mem_filter.mpr ⟨hc, by simp [hmuid]⟩
  have hunder' : c' ∈ chunksUnder envs m.manifestUID := mem_filter.mpr ⟨hc', by simp [hmuid, huid]⟩
  cases htombstone : m.tombstone with
  | true => exact hhash (hagree m hm htombstone c hunder c' hunder' hindex)
  | false =>
    obtain ⟨payload, hpayload⟩ := h.verified m hm
    have hdistinct := (verifyManifest_live htombstone hpayload).distinct
    rw [inj_on_of_nodup_map hdistinct hunder hunder' hindex] at hhash
    exact hhash rfl

/-- **What a replay comes to.**  It goes through if the chunks under tombstones agree, and ends in an
error if they do not. -/
theorem VerifiedBootstrap.replay (hplans : PlansValid E envs)
    (hlimit : snapshot.bindings.length ≤ if cfg.maxBindings = 0 then 4096 else cfg.maxBindings) :
    Triple (Sys.Bootstrapping (4 * replayed.length) (Checkpoint.Staging [])) (replayBootstrap E cfg replayed)
      (fun _ t => ChunksAgree envs ∧ t.agent.state.ServesZones snapshot) (fun _ => ¬ ChunksAgree envs) := by
  set manifests := envs.filter fun env => (env.payload.manifestOf).isSome with hmanifests
  have hsorted : sortBootstrap replayed = chunkEnvelopes envs ++ [serving] ++ manifests := h.sorted
  have hcount : 4 * manifests.length + 2 + 2 * (chunkEnvelopes envs).length ≤ 4 * replayed.length := by
    rw [← length_sortBootstrap replayed, hsorted]
    simp only [length_append, length_cons, length_nil]
    omega
  have haccepted : ∀ p : Envelope → Bool, ∀ env ∈ envs.filter p, env.Accepted E cfg.region cfg.shard :=
    fun p env henv => h.accepted env (mem_of_mem_filter henv)
  have hstages : ∀ c : Checkpoint, c.Staging (chunksOf (chunkEnvelopes envs)) → ∀ m ∈ manifestsOf envs,
      m.tombstone = false → c.Stages m.manifestUID (chunksUnder envs m.manifestUID) := by
    intro c hc m hm hlive
    obtain ⟨payload, hpayload⟩ := h.verified m hm
    refine hc.stages (verifyManifest_live hlive hpayload) fun chunk => ?_
    rw [mem_chunksOf_chunkEnvelopes, chunksUnder, mem_filter, decide_eq_true_eq, and_assoc]
    exact and_congr_right fun _ => ⟨fun huid => ⟨⟨m, hm, huid.symm⟩, huid⟩, fun hchunk => hchunk.2⟩
  have hchunks : Triple (Sys.Bootstrapping (4 * replayed.length) (Checkpoint.Staging []))
      (each (handle E cfg) (chunkEnvelopes envs))
      (fun _ => Sys.Bootstrapping (4 * manifests.length + 2)
        (Checkpoint.Staging (chunksOf (chunkEnvelopes envs)))) fun _ => ¬ ChunksAgree envs := by
    refine (replay_chunks (haccepted _) (fun env henv => ?_) fun old hold chunk hchunk huid hkey hhash _ =>
      h.conflict hold hchunk huid hkey hhash).weaken fun s hs => hs.le hcount
    exact (Bool.and_eq_true _ _ ▸ (mem_filter.mp henv).2).2
  have hserving : Triple (Sys.Bootstrapping (4 * manifests.length + 2)
      (Checkpoint.Staging (chunksOf (chunkEnvelopes envs)))) (each (handle E cfg) [serving])
      (fun _ => Sys.Bootstrapping (4 * manifests.length) (Checkpoint.Applied E envs snapshot [] []))
      fun _ => ¬ ChunksAgree envs :=
    triple_bind (handle_serving h.verified (h.accepted serving h.serving_mem) h.serving_payload hlimit hstages)
      fun _ => triple_pure () fun _ hs => hs
  have hmanifest : Triple (Sys.Bootstrapping (4 * manifests.length) (Checkpoint.Applied E envs snapshot [] []))
      (each (handle E cfg) manifests) (fun _ => Sys.Bootstrapping 0
        (Checkpoint.Applied E envs snapshot (manifestsOf envs) (manifestsOf envs)))
      fun _ => ¬ ChunksAgree envs :=
    (replay_manifests h.verified hplans (haccepted _) (fun env henv => (mem_filter.mp henv).2)
      (manifestsOf_filter envs)).weaken fun s hs => hs.le (Nat.zero_add _).le
  rw [replayBootstrap, hsorted, each_append, each_append]
  -- that the chunks agree is known once they are staged
  refine triple_bind (triple_bind (hchunks.imp fun _ s hs => And.intro hs.state.agree hs) fun _ s hs =>
    (hserving.imp fun _ t ht => And.intro hs.1 ht) s hs.2) fun _ s hs => ?_
  refine (hmanifest.imp fun _ t ht => And.intro hs.1 ⟨ht.state.snapshot, fun zone hzone => ?_⟩) s hs.2
  obtain ⟨m, hm, huid, hnew⟩ := h.zones zone hzone
  obtain ⟨p, hp, hfence⟩ := ht.state.published m hm
  exact ⟨p, huid ▸ hp, hfence ▸ hnew⟩

end Verified

/-- A store in which every payload is the empty plan of one zone. -/
def oneZoneExternals : Externals :=
  { Externals.reference with
    decodePlan := fun _ => some { emptyPlan with zoneUID := lit "live", apex := lit "example.com" } }

/-- The publication of that zone, with one chunk. -/
def liveManifest : PublicationManifest where
  manifestUID := lit "manifest"
  zoneUID := lit "live"
  apex := lit "example.com"
  writerEpoch := 1
  revision := 1
  previousRevision := 0
  tombstone := false
  chunks := [⟨0, List.replicate 64 '0', 32⟩]
  contentHash := List.replicate 64 '0'
  generatedAt := 1

/-- A binding that serves the zone. -/
def liveBinding : Binding where
  bindingUID := lit "binding"
  projectUID := lit "project"
  contextUID := lit "context"
  bindingGeneration := 1
  configurationRevision := 1
  consumerAddress := lit "fd00::1"
  clusterAddress := lit "fd00::2"
  port := 53
  transports := [lit "UDP"]
  zones := [⟨false, lit "live", lit "example.com", 1, 1⟩]
  nodeBackends := []
  clusterBackends := []
  version := ⟨1, 1⟩
  tombstone := false
  configurationPending := false

def liveSnapshot : ServingSnapshot where
  region := lit "region"
  shard := lit "shard"
  configurationEpoch := 1
  configurationRevision := 1
  bindings := [liveBinding]
  members := []
  memberPatterns := []
  requiredPublications := []
  generatedAt := 1

def envelopeOf (resourceUID : GoString) (revision : Nat) (payload : Payload) : Envelope :=
  ⟨true, lit "region", lit "shard", resourceUID, 1, revision, payload⟩

/-- A chunk under the manifest of the withdrawn zone. -/
def withdrawnChunk (byte : UInt8) (hash : GoString) : PublicationChunk :=
  { chunkOf (lit "gone") 0 with
    manifestUID := lit "withdrawal", sha256 := hash, payload := List.replicate 32 byte }

/-- The bucket with some chunks left under the manifest of the withdrawn zone. -/
def bucketWith (left : List PublicationChunk) : List Envelope :=
  (left.map fun c => envelopeOf (lit "gone") 1 (.chunk c)) ++
    [envelopeOf (lit "live") 1 (.chunk (chunkOf (lit "live") 0)),
      envelopeOf (lit "live") 1 (.manifest liveManifest),
      envelopeOf (lit "gone") 2 (.manifest (withdrawalOf (lit "gone")))]

def servingEnvelope : Envelope := envelopeOf (lit "shard") 1 (.serving liveSnapshot)

/-- An agent that has just started its bootstrap. -/
def bootstrapping : Sys where
  agent := { newAgent newCheckpoint with bootstrapInProgress := true }
  disk := none
  answers := List.replicate 32 ⟨true, 1, .saved, none, []⟩
  log := []

def oldChunk : PublicationChunk := withdrawnChunk 0 (List.replicate 64 '0')

def otherChunk : PublicationChunk := withdrawnChunk 17 (List.replicate 64 '1')

/-- The bucket of the witness and of the counterexample, as it is listed. -/
def listing (left : List PublicationChunk) : List Envelope := servingEnvelope :: bucketWith left

theorem listing_plansValid {left : List PublicationChunk}
    (hmanifests : manifestsOf (listing left) = [liveManifest, withdrawalOf (lit "gone")])
    (hchunks : chunksUnder (listing left) (lit "manifest") = [chunkOf (lit "live") 0]) :
    PlansValid oneZoneExternals (listing left) where
  oneManifest := by
    rw [hmanifests]
    decide
  decodes m hm hlive := by
    rw [hmanifests] at hm
    rcases mem_cons.mp hm with rfl | hm
    · refine ⟨_, ⟨hmanifests ▸ mem_cons_self, rfl, List.replicate 32 0, ?_, rfl⟩,
        PublicationPlan.validate_eq_ok.mp rfl, rfl, rfl⟩
      show verifyManifest _ _ (chunksUnder (listing left) (lit "manifest")) = _
      rw [hchunks]
      rfl
    · rw [mem_singleton.mp hm] at hlive
      cases hlive
  disjoint m m' plan plan' hplan hplan' _ o ho := by
    obtain ⟨payload, -, hdecode⟩ := hplan.decodes
    cases hdecode
    exact absurd ho not_mem_nil

end InternalDNS
