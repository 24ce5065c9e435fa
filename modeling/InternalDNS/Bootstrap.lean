import InternalDNS.AgentSafety

/-! # Bootstrap

An agent that starts takes a cut of everything its shard was sent: chunks, manifests and serving
snapshots, as they stand in the bucket.  The cut is checked as a whole, the newest serving snapshot is
chosen, and what is left is handled like any other events, chunks first and manifests last.
-/
namespace InternalDNS

open Go Go.Prog List Except

variable (E : Externals)

/-! ## The cut -/

/-- What the loop of `verifyBootstrap` over the envelopes has collected. -/
structure BootstrapCut where
  chunks : GoMap GoString (List PublicationChunk)
  manifests : List PublicationManifest
  manifestByZone : GoMap GoString PublicationManifest
  servingCandidates : List (ServingSnapshot × Envelope)

def BootstrapCut.empty : BootstrapCut := ⟨∅, [], ∅, []⟩

def BootstrapCut.addChunk (cut : BootstrapCut) (c : PublicationChunk) : BootstrapCut :=
  { cut with chunks := cut.chunks.insert c.manifestUID ((cut.chunks.lookup c.manifestUID).getD [] ++ [c]) }

/-- A manifest replaces an older one of its zone. -/
def BootstrapCut.addManifest (cut : BootstrapCut) (m : PublicationManifest) : BootstrapCut :=
  { cut with
    manifests := cut.manifests ++ [m]
    manifestByZone :=
      if (cut.manifestByZone.lookup m.zoneUID).any fun old =>
          compare m.writerEpoch m.revision old.writerEpoch old.revision ≤ 0
      then cut.manifestByZone else cut.manifestByZone.insert m.zoneUID m }

/-- One envelope. -/
def collectEnvelope (region shard : GoString) (cut : BootstrapCut) (env : Envelope) :
    Except GoString BootstrapCut := do
  failIf (¬ env.valid) (lit "invalid envelope")
  failIf (env.region ≠ region ∨ env.shard ≠ shard) (lit "bootstrap contains a foreign region or shard")
  match env.payload with
  | .chunk c => do
    c.validate E
    failIf (c.zoneUID ≠ env.resourceUID ∨ c.writerEpoch ≠ env.epoch ∨ c.revision ≠ env.revision)
      (lit "bootstrap chunk envelope identity does not match payload")
    .ok (cut.addChunk c)
  | .manifest m => do
    m.validate E
    failIf (m.zoneUID ≠ env.resourceUID ∨ m.writerEpoch ≠ env.epoch ∨ m.revision ≠ env.revision)
      (lit "bootstrap manifest envelope identity does not match payload")
    .ok (cut.addManifest m)
  | .serving snapshot => do
    snapshot.validate E
    failIf (snapshot.region ≠ env.region ∨ snapshot.shard ≠ env.shard ∨
        snapshot.configurationEpoch ≠ env.epoch ∨ snapshot.configurationRevision ≠ env.revision)
      (lit "bootstrap serving envelope identity does not match payload")
    .ok { cut with servingCandidates := cut.servingCandidates ++ [(snapshot, env)] }
  | .ack _ | .malformed => .error (lit "bootstrap contains unsupported kind")

/-- The newest of the candidates. -/
def newestServing (first : ServingSnapshot × Envelope) (rest : List (ServingSnapshot × Envelope)) :
    ServingSnapshot × Envelope :=
  rest.foldl (fun best candidate =>
    if compare candidate.2.epoch candidate.2.revision best.2.epoch best.2.revision > 0 then candidate
    else best) first

/-- The manifest of an attached zone is there, and as new as the zone requires. -/
def checkAttachedZone (manifestByZone : GoMap GoString PublicationManifest) (zone : ZoneAttachment) :
    Except GoString Unit :=
  skipIf zone.pending
    (failIf (¬ (manifestByZone.lookup zone.zoneUID).any fun m =>
        compare m.writerEpoch m.revision zone.requiredPublicationEpoch zone.requiredPublicationRevision ≥ 0)
      (lit "bootstrap has no current publication for attached zone " ++ quoted zone.zoneUID))

/-- The envelopes that are handled: manifests, and chunks that belong to one of them. -/
def keptEnvelope (manifests : List PublicationManifest) (env : Envelope) : Bool :=
  match env.payload with
  | .serving _ => false
  | .chunk c => manifests.any fun m => m.manifestUID = c.manifestUID
  | _ => true

/-- `verifyBootstrap`. -/
def verifyBootstrap (envs : List Envelope) (region shard : GoString) : Except GoString (List Envelope) := do
  let cut ← loop (collectEnvelope E region shard) .empty envs
  match cut.servingCandidates with
  | [] => .error (lit "bootstrap has no complete serving snapshot")
  | first :: rest => do
    let serving := newestServing first rest
    forEach (fun candidate => failIf (compare candidate.2.epoch candidate.2.revision serving.2.epoch
        serving.2.revision = 0 ∧ candidate.1 ≠ serving.1)
      (lit "bootstrap has conflicting serving snapshots at the winning fence")) cut.servingCandidates
    forEach (fun m => (verifyManifest E m ((cut.chunks.lookup m.manifestUID).getD [])).map fun _ => ())
      cut.manifests
    forEach (fun binding => skipIf (binding.tombstone ∨ binding.configurationPending)
      (forEach (checkAttachedZone cut.manifestByZone) binding.zones)) serving.1.bindings
    .ok (envs.filter (keptEnvelope cut.manifests) ++ [serving.2])

/-- The order in which `loadBootstrap` handles the kinds of events. -/
def bootstrapOrder (env : Envelope) : Nat :=
  match env.payload with
  | .chunk _ => 0
  | .serving _ => 1
  | _ => 2

/-- The envelopes in this order; envelopes of one kind stay in theirs. -/
def sortBootstrap (envs : List Envelope) : List Envelope :=
  envs.filter (bootstrapOrder · = 0) ++ envs.filter (bootstrapOrder · = 1) ++
    envs.filter (bootstrapOrder · = 2)

variable (cfg : AgentConfig)

/-- The events of a bootstrap, handled one after the other. -/
def replayBootstrap (envs : List Envelope) : Act Unit := each (handle E cfg) (sortBootstrap envs)

/-! ## What an accepted cut is like -/

/-- The chunk in the payload, if it is one. -/
def Payload.chunkOf : Payload → Option PublicationChunk
  | .chunk c => some c
  | _ => none

def Payload.manifestOf : Payload → Option PublicationManifest
  | .manifest m => some m
  | _ => none

def chunksOf (envs : List Envelope) : List PublicationChunk := envs.filterMap (·.payload.chunkOf)

def manifestsOf (envs : List Envelope) : List PublicationManifest := envs.filterMap (·.payload.manifestOf)

/-- The chunks that belong to a manifest. -/
def chunksUnder (envs : List Envelope) (uid : GoString) : List PublicationChunk :=
  (chunksOf envs).filter fun c => c.manifestUID = uid

/-- An envelope that the loop of `verifyBootstrap` takes. -/
structure Envelope.Accepted (region shard : GoString) (env : Envelope) : Prop where
  valid : env.valid = true
  region : env.region = region
  shard : env.shard = shard
  payload : match env.payload with
    | .chunk c => c.validate E = .ok () ∧ c.zoneUID = env.resourceUID ∧ c.writerEpoch = env.epoch ∧
        c.revision = env.revision
    | .manifest m => m.validate E = .ok () ∧ m.zoneUID = env.resourceUID ∧ m.writerEpoch = env.epoch ∧
        m.revision = env.revision
    | .serving snapshot => snapshot.validate E = .ok () ∧ snapshot.region = env.region ∧
        snapshot.shard = env.shard ∧ snapshot.configurationEpoch = env.epoch ∧
        snapshot.configurationRevision = env.revision
    | .ack _ | .malformed => False

/-- What has been collected from the envelopes. -/
structure BootstrapCut.From (cut : BootstrapCut) (region shard : GoString) (envs : List Envelope) : Prop where
  accepted : ∀ env ∈ envs, env.Accepted E region shard
  chunks : ∀ uid, (cut.chunks.lookup uid).getD [] = chunksUnder envs uid
  manifests : cut.manifests = manifestsOf envs
  manifestByZone : ∀ zone m, cut.manifestByZone.lookup zone = some m →
    m ∈ manifestsOf envs ∧ m.zoneUID = zone
  serving : ∀ candidate ∈ cut.servingCandidates,
    candidate.2 ∈ envs ∧ candidate.2.payload = .serving candidate.1

section Cut

variable {E} {region shard : GoString} {cut : BootstrapCut} {envs : List Envelope} {env : Envelope}

section

variable (envs : List Envelope) (env : Envelope)

theorem chunksOf_concat :
    chunksOf (envs ++ [env]) = chunksOf envs ++ env.payload.chunkOf.toList := by
  cases hchunk : env.payload.chunkOf <;> simp [chunksOf, hchunk]

theorem manifestsOf_concat :
    manifestsOf (envs ++ [env]) = manifestsOf envs ++ env.payload.manifestOf.toList := by
  cases hmanifest : env.payload.manifestOf <;> simp [manifestsOf, hmanifest]

theorem chunksUnder_concat (uid : GoString) :
    chunksUnder (envs ++ [env]) uid =
      chunksUnder envs uid ++ env.payload.chunkOf.toList.filter fun c => c.manifestUID = uid := by
  rw [chunksUnder, chunksOf_concat, filter_append]
  rfl

end

section

variable (h : cut.From E region shard envs) (haccepted : env.Accepted E region shard)
include h haccepted

/-- One envelope more that is neither a chunk nor a manifest. -/
theorem BootstrapCut.From.concat (hchunk : env.payload.chunkOf = none)
    (hmanifest : env.payload.manifestOf = none) {candidates : List (ServingSnapshot × Envelope)}
    (hcandidates : ∀ candidate ∈ candidates, candidate ∈ cut.servingCandidates ∨
      candidate.2 = env ∧ env.payload = .serving candidate.1) :
    ({ cut with servingCandidates := candidates } : BootstrapCut).From E region shard (envs ++ [env]) where
  accepted env' henv' := (mem_append.mp henv').elim (h.accepted env') fun hmem =>
    mem_singleton.mp hmem ▸ haccepted
  chunks uid := by
    rw [chunksUnder_concat, hchunk, Option.toList_none, filter_nil, append_nil]
    exact h.chunks uid
  manifests := by
    rw [manifestsOf_concat, hmanifest, Option.toList_none, append_nil]
    exact h.manifests
  manifestByZone zone m hm := by
    rw [manifestsOf_concat, hmanifest, Option.toList_none, append_nil]
    exact h.manifestByZone zone m hm
  serving candidate hcandidate := by
    rcases hcandidates candidate hcandidate with hold | ⟨henv, hpayload⟩
    · exact ⟨mem_append_left _ (h.serving candidate hold).1, (h.serving candidate hold).2⟩
    · exact ⟨mem_append_right _ (mem_singleton.mpr henv), henv ▸ hpayload⟩

theorem BootstrapCut.From.addChunk {c : PublicationChunk} (hpayload : env.payload = .chunk c) :
    (cut.addChunk c).From E region shard (envs ++ [env]) where
  accepted env' henv' := (mem_append.mp henv').elim (h.accepted env') fun hmem =>
    mem_singleton.mp hmem ▸ haccepted
  chunks uid := by
    rw [chunksUnder_concat, hpayload]
    show ((cut.chunks.insert c.manifestUID _).lookup uid).getD [] = _ ++ [c].filter _
    by_cases huid : uid = c.manifestUID
    · rw [huid, AList.lookup_insert, Option.getD_some, h.chunks]
      simp
    · rw [AList.lookup_insert_ne huid, h.chunks]
      simp [Ne.symm huid]
  manifests := by
    rw [manifestsOf_concat, hpayload]
    exact h.manifests.trans (append_nil _).symm
  manifestByZone zone m hm := by
    rw [manifestsOf_concat, hpayload]
    exact ⟨mem_append_left _ (h.manifestByZone zone m hm).1, (h.manifestByZone zone m hm).2⟩
  serving candidate hcandidate :=
    ⟨mem_append_left _ (h.serving candidate hcandidate).1, (h.serving candidate hcandidate).2⟩

theorem BootstrapCut.From.addManifest {m : PublicationManifest}
    (hpayload : env.payload = .manifest m) :
    (cut.addManifest m).From E region shard (envs ++ [env]) where
  accepted env' henv' := (mem_append.mp henv').elim (h.accepted env') fun hmem =>
    mem_singleton.mp hmem ▸ haccepted
  chunks uid := by
    rw [chunksUnder_concat, hpayload]
    exact (h.chunks uid).trans (append_nil _).symm
  manifests := by
    rw [manifestsOf_concat, hpayload]
    exact congrArg (· ++ [m]) h.manifests
  manifestByZone zone m' hm := by
    rw [manifestsOf_concat, hpayload]
    have hold : ∀ m', cut.manifestByZone.lookup zone = some m' →
        m' ∈ manifestsOf envs ++ [m] ∧ m'.zoneUID = zone := fun m' hm' =>
      ⟨mem_append_left _ (h.manifestByZone zone m' hm').1, (h.manifestByZone zone m' hm').2⟩
    simp only [BootstrapCut.addManifest] at hm
    split_ifs at hm
    · exact hold m' hm
    · rcases GoMap.of_lookup_insert hm with ⟨rfl, rfl⟩ | hm
      · exact ⟨mem_append_right _ (mem_singleton_self _), rfl⟩
      · exact hold m' hm
  serving candidate hcandidate :=
    ⟨mem_append_left _ (h.serving candidate hcandidate).1, (h.serving candidate hcandidate).2⟩

end

/-- **What the loop collects**, and which envelopes it takes. -/
theorem collectEnvelopes_from (h : loop (collectEnvelope E region shard) .empty envs = .ok cut) :
    cut.From E region shard envs := by
  refine loop_invariant (P := fun done (cut : BootstrapCut) => cut.From E region shard done) ?_ ?_ h
  · exact ⟨fun _ h => absurd h not_mem_nil, fun uid => by simp [BootstrapCut.empty, chunksUnder, chunksOf],
      rfl, fun zone m hm => by simp [BootstrapCut.empty] at hm, fun _ h => absurd h not_mem_nil⟩
  · intro done env rest cut cut' _ hcut hstep
    simp only [collectEnvelope, bind_eq_ok, failIf_eq_ok] at hstep
    obtain ⟨_, hvalid, _, hplace, hstep⟩ := hstep
    rw [not_not] at hvalid
    push Not at hplace
    cases hpayload : env.payload with
    | chunk c =>
      simp only [hpayload, bind_eq_ok, failIf_eq_ok, ok.injEq] at hstep
      obtain ⟨_, hchunk, _, hidentity, rfl⟩ := hstep
      push Not at hidentity
      refine hcut.addChunk ⟨hvalid, hplace.1, hplace.2, ?_⟩ hpayload
      rw [hpayload]
      exact ⟨hchunk, hidentity⟩
    | manifest m =>
      simp only [hpayload, bind_eq_ok, failIf_eq_ok, ok.injEq] at hstep
      obtain ⟨_, hmanifest, _, hidentity, rfl⟩ := hstep
      push Not at hidentity
      refine hcut.addManifest ⟨hvalid, hplace.1, hplace.2, ?_⟩ hpayload
      rw [hpayload]
      exact ⟨hmanifest, hidentity⟩
    | serving snapshot =>
      simp only [hpayload, bind_eq_ok, failIf_eq_ok, ok.injEq] at hstep
      obtain ⟨_, hsnapshot, _, hidentity, rfl⟩ := hstep
      push Not at hidentity
      refine hcut.concat ⟨hvalid, hplace.1, hplace.2, ?_⟩ (by rw [hpayload]; rfl) (by rw [hpayload]; rfl) ?_
      · rw [hpayload]
        exact ⟨hsnapshot, hidentity⟩
      · intro candidate hcandidate
        refine (mem_append.mp hcandidate).imp_right fun hmem => ?_
        rw [mem_singleton.mp hmem]
        exact ⟨rfl, hpayload⟩
    | ack a => simp [hpayload] at hstep
    | malformed => simp [hpayload] at hstep

theorem newestServing_mem (first : ServingSnapshot × Envelope) (rest : List (ServingSnapshot × Envelope)) :
    newestServing first rest ∈ first :: rest := by
  induction rest generalizing first with
  | nil => exact mem_cons_self
  | cons candidate rest ih =>
    rw [newestServing, foldl_cons, ← newestServing]
    split_ifs
    · exact mem_cons_of_mem _ (ih candidate)
    · rcases mem_cons.mp (ih first) with h | h
      · rw [h]
        exact mem_cons_self
      · exact mem_cons_of_mem _ (mem_cons_of_mem _ h)

/-- The zones that the live bindings of a snapshot serve. -/
def ServingSnapshot.ServesZone (snapshot : ServingSnapshot) (zone : ZoneAttachment) : Prop :=
  ∃ b ∈ snapshot.bindings, b.tombstone = false ∧ b.configurationPending = false ∧ zone ∈ b.zones ∧
    zone.pending = false

/-- **What `verifyBootstrap` has checked**, and what it returns. -/
structure VerifiedBootstrap (E : Externals) (region shard : GoString) (envs replayed : List Envelope)
    (snapshot : ServingSnapshot) (serving : Envelope) : Prop where
  accepted : ∀ env ∈ envs, env.Accepted E region shard
  verified : ∀ m ∈ manifestsOf envs, ∃ payload, verifyManifest E m (chunksUnder envs m.manifestUID) =
    .ok payload
  serving_mem : serving ∈ envs
  serving_payload : serving.payload = .serving snapshot
  zones : ∀ zone, snapshot.ServesZone zone → ∃ m ∈ manifestsOf envs, m.zoneUID = zone.zoneUID ∧
    compare m.writerEpoch m.revision zone.requiredPublicationEpoch zone.requiredPublicationRevision ≥ 0
  replayed : replayed = envs.filter (keptEnvelope (manifestsOf envs)) ++ [serving]

theorem verifyBootstrap_eq_ok {replayed : List Envelope}
    (h : verifyBootstrap E envs region shard = .ok replayed) :
    ∃ snapshot serving, VerifiedBootstrap E region shard envs replayed snapshot serving := by
  obtain ⟨cut, hloop, h⟩ := bind_eq_ok.mp h
  have hcut := collectEnvelopes_from hloop
  split at h
  · cases h
  next first rest hcandidates =>
    simp only [bind_eq_ok, forEach_eq_ok, skipIf_eq_ok, ok.injEq] at h
    obtain ⟨_, -, _, hmanifests, _, hzones, hreplayed⟩ := h
    obtain ⟨hmem, hpayload⟩ := hcut.serving (newestServing first rest)
      (hcandidates ▸ newestServing_mem first rest)
    refine ⟨_, _, hcut.accepted, fun m hm => ?_, hmem, hpayload, ?_, ?_⟩
    · have hverify := hmanifests m (hcut.manifests ▸ hm)
      rw [hcut.chunks] at hverify
      cases hpayload : verifyManifest E m (chunksUnder envs m.manifestUID) with
      | ok payload => exact ⟨payload, rfl⟩
      | error e =>
        rw [hpayload] at hverify
        cases hverify
    · rintro zone ⟨b, hb, hlive, hconfigured, hzone, hpending⟩
      have hcheck := hzones b hb (by simp [hlive, hconfigured]) zone hzone
      rw [checkAttachedZone, skipIf_eq_ok, failIf_eq_ok, not_not] at hcheck
      have hcurrent := hcheck (by simp [hpending])
      rw [Option.any_eq_true] at hcurrent
      obtain ⟨m, hm, hnew⟩ := hcurrent
      obtain ⟨hmem, hzoneUID⟩ := hcut.manifestByZone _ m hm
      exact ⟨m, hmem, hzoneUID, of_decide_eq_true hnew⟩
    · rw [← hreplayed, hcut.manifests]

/-- The order of the replay: the chunks, the snapshot, the manifests. -/
theorem VerifiedBootstrap.sorted {replayed : List Envelope} {snapshot : ServingSnapshot} {serving : Envelope}
    (h : VerifiedBootstrap E region shard envs replayed snapshot serving) :
    sortBootstrap replayed =
      (envs.filter fun env => keptEnvelope (manifestsOf envs) env && (env.payload.chunkOf).isSome) ++
        [serving] ++ envs.filter fun env => (env.payload.manifestOf).isSome := by
  have hkind : bootstrapOrder serving = 1 := by rw [bootstrapOrder, h.serving_payload]
  have hchunks : ((envs.filter (keptEnvelope (manifestsOf envs)) ++ [serving]).filter
      (bootstrapOrder · = 0)) =
      envs.filter fun env => keptEnvelope (manifestsOf envs) env && (env.payload.chunkOf).isSome := by
    rw [filter_append, filter_filter, filter_cons_of_neg (by simp [hkind]), filter_nil, append_nil]
    refine filter_congr fun env _ => ?_
    cases hpayload : env.payload <;> simp [bootstrapOrder, keptEnvelope, Payload.chunkOf, hpayload]
  have hserving : ((envs.filter (keptEnvelope (manifestsOf envs)) ++ [serving]).filter
      (bootstrapOrder · = 1)) = [serving] := by
    rw [filter_append, filter_filter, filter_cons_of_pos (by simp [hkind]), filter_nil,
      filter_eq_nil_iff.mpr, nil_append]
    intro env _
    cases hpayload : env.payload <;> simp [bootstrapOrder, keptEnvelope, hpayload]
  have hmanifests : ((envs.filter (keptEnvelope (manifestsOf envs)) ++ [serving]).filter
      (bootstrapOrder · = 2)) = envs.filter fun env => (env.payload.manifestOf).isSome := by
    rw [filter_append, filter_filter, filter_cons_of_neg (by simp [hkind]), filter_nil, append_nil]
    refine filter_congr fun env henv => ?_
    have hpayload := (h.accepted env henv).payload
    cases hkind : env.payload <;> rw [hkind] at hpayload <;>
      simp_all [bootstrapOrder, keptEnvelope, Payload.manifestOf]
  rw [h.replayed, sortBootstrap, hchunks, hserving, hmanifests]

end Cut

end InternalDNS
