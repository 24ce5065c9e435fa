import InternalDNS.Bootstrap
import InternalDNS.CheckpointRestart
import InternalDNS.Chunking

/-! # The chunks of a bootstrap

A chunk is staged by manifest and index, and a chunk with another hash at a place that is taken is an
error.  This is the first part of a replay: on a fresh agent whose calls succeed, all chunks of a bootstrap
are staged, or two of them are in conflict.  `VerifyManifest` later takes the staged chunks in the order
of a map; for a live manifest the order is of no account.
-/
namespace InternalDNS

open Go Go.Prog List AList Except Option

variable {E : Externals} {cfg : AgentConfig} {m : PublicationManifest} {cs : List PublicationChunk}

/-! ## Manifests and the order of their chunks -/

/-- The chunks that a live manifest was verified with. -/
structure ChunksOfManifest (E : Externals) (m : PublicationManifest) (cs : List PublicationChunk) : Prop where
  valid : ∀ c ∈ cs, c.validate E = .ok ()
  identity : ∀ c ∈ cs, c.manifestUID = m.manifestUID ∧ c.zoneUID = m.zoneUID ∧
    c.writerEpoch = m.writerEpoch ∧ c.revision = m.revision
  distinct : (cs.map PublicationChunk.index).Nodup

theorem verifyChunks_spec {byIndex : GoMap Int PublicationChunk}
    (h : loop (verifyChunk E m) ∅ cs = .ok byIndex) :
    ChunksOfManifest E m cs ∧ ∀ i c, byIndex.lookup i = some c ↔ c ∈ cs ∧ c.index = i := by
  refine loop_invariant (P := fun done (byIndex : GoMap Int PublicationChunk) =>
    ChunksOfManifest E m done ∧ ∀ i c, byIndex.lookup i = some c ↔ c ∈ done ∧ c.index = i) ?_ ?_ h
  · refine ⟨⟨fun _ h => absurd h not_mem_nil, fun _ h => absurd h not_mem_nil, nodup_nil⟩,
      fun i c => ?_⟩
    simp
  · rintro done c rest byIndex byIndex' - ⟨hdone, hlookup⟩ hstep
    simp only [verifyChunk, bind_eq_ok, failIf_eq_ok, ok.injEq] at hstep
    obtain ⟨_, hvalid, _, hidentity, _, hfresh, rfl⟩ := hstep
    push Not at hidentity
    rw [not_isSome_iff_eq_none] at hfresh
    have hnew : ∀ c' ∈ done, c'.index ≠ c.index := fun c' hc' hindex => by
      rw [(hlookup c.index c').mpr ⟨hc', hindex⟩] at hfresh
      cases hfresh
    refine ⟨⟨forall_mem_concat hdone.valid hvalid, forall_mem_concat hdone.identity hidentity,
      nodup_map_concat hdone.distinct hnew⟩, fun i c' => ?_⟩
    rw [mem_append, mem_singleton]
    by_cases hi : i = c.index
    · subst hi
      rw [lookup_insert]
      constructor
      · rintro ⟨⟩
        exact ⟨.inr rfl, rfl⟩
      · rintro ⟨hc' | rfl, hindex⟩
        · exact absurd hindex (hnew c' hc')
        · rfl
    · rw [lookup_insert_ne hi, hlookup]
      constructor
      · exact fun h => ⟨.inl h.1, h.2⟩
      · rintro ⟨hc' | rfl, hindex⟩
        · exact ⟨hc', hindex⟩
        · exact absurd hindex.symm hi

/-- What a manifest was verified with, and what it comes to. -/
theorem verifyManifest_live {payload : List UInt8} (hlive : m.tombstone = false)
    (h : verifyManifest E m cs = .ok payload) : ChunksOfManifest E m cs := by
  unfold verifyManifest at h
  rw [hlive, if_neg (by decide)] at h
  simp only [bind_eq_ok] at h
  obtain ⟨_, -, _, -, byIndex, hloop, -⟩ := h
  exact (verifyChunks_spec hloop).1

/-- **The order of the chunks does not matter.** -/
theorem verifyManifest_perm {cs cs' : List PublicationChunk} {payload : List UInt8}
    (hlive : m.tombstone = false) (hperm : cs'.Perm cs) (h : verifyManifest E m cs = .ok payload) :
    verifyManifest E m cs' = .ok payload := by
  have hcs := verifyManifest_live hlive h
  unfold verifyManifest at h ⊢
  rw [hlive, if_neg (by decide)] at h ⊢
  simp only [bind_eq_ok] at h ⊢
  obtain ⟨u, hvalid, u', hlength, byIndex, hloop, payloads, hcollect, hhash⟩ := h
  have hcs' : ∃ byIndex', loop (verifyChunk E m) ∅ cs' = .ok byIndex' ∧
      ∀ c ∈ cs', byIndex'.lookup c.index = some c :=
    Controlplane.loop_verifyChunk (fun c hc => hcs.valid c (hperm.mem_iff.mp hc))
      (fun c hc => hcs.identity c (hperm.mem_iff.mp hc)) ((hperm.map _).nodup_iff.mpr hcs.distinct)
  obtain ⟨byIndex', hloop', -⟩ := hcs'
  -- both loops find the same chunk at every index
  have hlookup : ∀ i, byIndex'.lookup i = byIndex.lookup i := fun i => ext fun c => by
    rw [(verifyChunks_spec hloop').2, (verifyChunks_spec hloop).2, hperm.mem_iff]
  have hpayload : chunkPayload byIndex' = chunkPayload byIndex := funext fun ref => by
    simp [chunkPayload, hlookup]
  refine ⟨u, hvalid, u', ?_, byIndex', hloop', payloads, hpayload ▸ hcollect, hhash⟩
  rwa [hperm.length_eq]

/-! ## A run in which nothing fails -/

/-- The call succeeds. -/
structure Answer.Fine (a : Answer) : Prop where
  ok : a.ok = true
  save : a.save = .saved

/-- An agent in its bootstrap, with a state in `Φ`, whose next `n` calls succeed. -/
structure Sys.Bootstrapping (n : Nat) (Φ : Checkpoint → Prop) (s : Sys) : Prop where
  inProgress : s.agent.bootstrapInProgress = true
  fine : ∀ a ∈ s.answers, a.Fine
  enough : n ≤ s.answers.length
  state : Φ s.agent.state

section Rules

variable {n : Nat} {Φ Ψ : Checkpoint → Prop} {F : Sys → Prop} {α β : Type}

theorem Sys.Bootstrapping.imp {s : Sys} (h : s.Bootstrapping n Φ) (himp : ∀ c, Φ c → Ψ c) :
    s.Bootstrapping n Ψ := { h with state := himp _ h.state }

theorem Sys.Bootstrapping.le {s : Sys} {k : Nat} (h : s.Bootstrapping n Φ) (hk : k ≤ n) :
    s.Bootstrapping k Φ := { h with enough := hk.trans h.enough }

theorem ask_fine : Triple (Sys.Bootstrapping (n + 1) Φ) ask
    (fun a s => a.Fine ∧ s.Bootstrapping n Φ) F := by
  rintro ⟨agent, disk, answers, log⟩ hs
  cases answers with
  | nil => exact absurd hs.enough (by simp)
  | cons a rest =>
    obtain ⟨ha, hrest⟩ := forall_mem_cons.mp hs.fine
    exact ⟨ha, hs.inProgress, hrest, Nat.le_of_succ_le_succ hs.enough, hs.state⟩

theorem call_fine (text : GoString) : Triple (Sys.Bootstrapping (n + 1) Φ) (call text)
    (fun _ => Sys.Bootstrapping n Φ) F := by
  refine triple_bind ask_fine fun a s hs => ?_
  rw [if_pos hs.1.ok]
  exact hs.2

theorem modifyState_fine {f : Checkpoint → Checkpoint} (h : ∀ c, Φ c → Ψ (f c)) :
    Triple (Sys.Bootstrapping n Φ) (modify (Sys.modifyState f) : Act Unit)
      (fun _ => Sys.Bootstrapping n Ψ) F :=
  triple_modify fun _ hs => { hs with state := h _ hs.state }

theorem save_fine (hformat : ∀ c, Φ c → c.formatVersion = checkpointFormatVersion)
    (h : ∀ c, Φ c → Ψ c.pruneSupersededChunks) :
    Triple (Sys.Bootstrapping (n + 1) Φ) save (fun _ => Sys.Bootstrapping n Ψ) F := by
  refine triple_look fun s hs => ?_
  refine triple_ite (fun hne => absurd (hformat _ hs.state) hne) fun _ => ?_
  refine triple_bind (modifyState_fine h) fun _ => triple_bind ask_fine fun a => ?_
  rintro t ⟨ha, ht⟩
  rw [ha.save]
  exact { ht with }

/-- A check that succeeds. -/
theorem check_bind {x : Except GoString α} {a : α} (h : x = .ok a) (f : α → Act β) :
    check x >>= f = f a := by
  rw [h]
  rfl

/-- A condition that does not hold. -/
theorem check_failIf {bad : Prop} [Decidable bad] (h : ¬ bad) (text : GoString) (f : Unit → Act β) :
    check (failIf bad text) >>= f = f () := check_bind (failIf_eq_ok.mpr h) f

/-- The end of an event does nothing during the bootstrap. -/
theorem finishEvent_fine : Triple (Sys.Bootstrapping n Φ) (finishEvent E cfg)
    (fun _ => Sys.Bootstrapping n Φ) F := by
  refine triple_get_bind fun s hs => ?_
  rintro t rfl
  rw [when, if_neg (by simp [hs.inProgress])]
  exact hs

/-- An envelope that the cut was checked with passes the checks of `Handle`. -/
theorem handle_fine {env : Envelope} (haccepted : env.Accepted E cfg.region cfg.shard)
    {Q : Unit → Sys → Prop} (h : Triple (Sys.Bootstrapping n Φ)
      (match env.payload with
        | .serving snapshot => handleServing E cfg env snapshot
        | .chunk c => handleChunk E env c
        | .manifest m => attempt (handleManifest E cfg env m) >>= fun result =>
          match result with
          | .ok _ => finishEvent E cfg
          | .error e => gateRejectedUpdate E cfg e >>= fun _ => fail e
        | _ => pure ()) Q F) :
    Triple (Sys.Bootstrapping (n + 1) Φ) (handle E cfg env) Q F := by
  have hpayload := haccepted.payload
  unfold handle
  rw [check_failIf (not_not.mpr haccepted.valid), check_failIf (by simp [haccepted.region, haccepted.shard])]
  unfold handlePayload
  cases hkind : env.payload with
  | ack a =>
    rw [hkind] at hpayload
    exact hpayload.elim
  | malformed =>
    rw [hkind] at hpayload
    exact hpayload.elim
  | _ =>
    rw [hkind] at h
    exact triple_bind (call_fine _) fun _ => h

end Rules

/-! ## The chunks -/

/-- Nothing is older than a fence that was never set. -/
theorem compare_zero_not_neg (epoch revision : Nat) : ¬ compare epoch revision 0 0 < 0 := by
  unfold compare
  split_ifs <;> omega

/-- The key under which `handleChunk` stages a chunk. -/
def PublicationChunk.key (c : PublicationChunk) : GoString := itoa c.index.toNat

/-- The chunks staged for a manifest. -/
def Checkpoint.staged (c : Checkpoint) (uid : GoString) : GoMap GoString PublicationChunk :=
  (c.chunks.lookup uid).getD ∅

/-- The state in which `handleChunk` has staged a chunk. -/
def Checkpoint.stage (chunk : PublicationChunk) (c : Checkpoint) : Checkpoint :=
  { c with
    chunks := c.chunks.insert chunk.manifestUID ((c.staged chunk.manifestUID).insert chunk.key chunk) }

open Checkpoint

theorem lookup_stage_self (chunk : PublicationChunk) (c : Checkpoint) :
    ((c.stage chunk).staged chunk.manifestUID).lookup chunk.key = some chunk := by
  simp [stage, staged]

theorem lookup_stage_ne {chunk : PublicationChunk} {uid key : GoString} (c : Checkpoint)
    (hne : ¬ (uid = chunk.manifestUID ∧ key = chunk.key)) :
    ((c.stage chunk).staged uid).lookup key = (c.staged uid).lookup key := by
  unfold stage staged
  by_cases huid : uid = chunk.manifestUID
  · have hkey : key ≠ chunk.key := fun hkey => hne ⟨huid, hkey⟩
    rw [huid, lookup_insert, getD_some, lookup_insert_ne hkey]
  · rw [lookup_insert_ne huid]

/-- A save keeps the staged chunks of zones that have no publication. -/
theorem lookup_staged_prune {c : Checkpoint} {uid : GoString}
    (h : ∀ key chunk, (c.staged uid).lookup key = some chunk → (c.fenceOf chunk.zoneUID).revision = 0)
    (key : GoString) :
    (c.pruneSupersededChunks.staged uid).lookup key = (c.staged uid).lookup key := by
  unfold staged at h ⊢
  rw [lookup_pruneSupersededChunks]
  cases hstaged : c.chunks.lookup uid with
  | none => rfl
  | some staged =>
    rw [filter_some]
    split_ifs with hkept
    · rfl
    · rw [hstaged, getD_some] at h
      rw [getD_none, getD_some, AList.lookup_empty]
      have hsuperseded : c.superseded staged = true := by simpa using hkept
      unfold superseded at hsuperseded
      split at hsuperseded
      next hhead =>
        rw [eq_comm, AList.lookup_eq_none, AList.mem_keys, AList.keys, List.head?_eq_none_iff.mp hhead]
        exact not_mem_nil
      next k chunk hhead =>
        have hmem : staged.lookup k = some chunk := AList.mem_lookup_iff.mpr (mem_of_head? hhead)
        simp [h k chunk hmem] at hsuperseded

/-- The state after some chunks and nothing else. -/
structure Checkpoint.Staging (done : List PublicationChunk) (c : Checkpoint) : Prop where
  formatVersion : c.formatVersion = checkpointFormatVersion
  servingFence : c.servingFence = ⟨0, 0⟩
  snapshot : c.snapshot = none
  publications : c.publications = ∅
  bindingFences : c.bindingFences = ∅
  contributionFences : c.contributionFences = ∅
  sound : ∀ uid key chunk, (c.staged uid).lookup key = some chunk →
    chunk ∈ done ∧ chunk.manifestUID = uid ∧ chunk.key = key
  complete : ∀ chunk ∈ done, ∃ chunk', (c.staged chunk.manifestUID).lookup chunk.key = some chunk' ∧
    chunk'.sha256 = chunk.sha256

theorem newCheckpoint_staging : newCheckpoint.Staging [] where
  formatVersion := rfl
  servingFence := rfl
  snapshot := rfl
  publications := rfl
  bindingFences := rfl
  contributionFences := rfl
  sound uid key chunk h := by simp [staged, newCheckpoint] at h
  complete _ h := absurd h not_mem_nil

namespace Checkpoint.Staging

variable {done : List PublicationChunk} {c : Checkpoint} {chunk : PublicationChunk}

theorem fenceOf (h : c.Staging done) (zoneUID : GoString) : c.fenceOf zoneUID = ⟨0, 0⟩ := by
  rw [Checkpoint.fenceOf, h.publications]
  rfl

theorem prune (h : c.Staging done) : c.pruneSupersededChunks.Staging done := by
  have hlookup : ∀ uid key, (c.pruneSupersededChunks.staged uid).lookup key = (c.staged uid).lookup key :=
    fun uid => lookup_staged_prune fun key chunk _ => by rw [h.fenceOf]
  refine { h with sound := fun uid key chunk => ?_, complete := fun chunk hchunk => ?_ }
  · rw [hlookup]
    exact h.sound uid key chunk
  · rw [hlookup]
    exact h.complete chunk hchunk

/-- One chunk more, at an index that no chunk with another hash has. -/
theorem insert (h : c.Staging done)
    (hagree : ∀ old, (c.staged chunk.manifestUID).lookup chunk.key = some old → old.sha256 = chunk.sha256) :
    (c.stage chunk).Staging (done ++ [chunk]) := by
  refine { h with sound := fun uid key chunk' hlookup => ?_, complete := fun chunk' hchunk' => ?_ }
  · by_cases hplace : uid = chunk.manifestUID ∧ key = chunk.key
    · obtain ⟨rfl, rfl⟩ := hplace
      rw [lookup_stage_self] at hlookup
      cases hlookup
      exact ⟨mem_append_right _ (mem_singleton_self _), rfl, rfl⟩
    · rw [lookup_stage_ne c hplace] at hlookup
      obtain ⟨hdone, huid, hkey⟩ := h.sound uid key chunk' hlookup
      exact ⟨mem_append_left _ hdone, huid, hkey⟩
  · rcases mem_append.mp hchunk' with hdone | hnew
    · obtain ⟨old, hold, hhash⟩ := h.complete chunk' hdone
      by_cases hplace : chunk'.manifestUID = chunk.manifestUID ∧ chunk'.key = chunk.key
      · rw [hplace.1, hplace.2] at hold ⊢
        exact ⟨chunk, lookup_stage_self chunk c, (hagree old hold).symm.trans hhash⟩
      · exact ⟨old, (lookup_stage_ne c hplace).trans hold, hhash⟩
    · rw [mem_singleton.mp hnew]
      exact ⟨chunk, lookup_stage_self chunk c, rfl⟩

end Checkpoint.Staging

/-- A chunk is staged, unless one with another hash is staged at its index. -/
theorem handle_chunk {n : Nat} {done : List PublicationChunk} {env : Envelope} {chunk : PublicationChunk}
    {F : Sys → Prop} (haccepted : env.Accepted E cfg.region cfg.shard) (hpayload : env.payload = .chunk chunk)
    (hconflict : ∀ old ∈ done, old.manifestUID = chunk.manifestUID → old.key = chunk.key →
      old.sha256 ≠ chunk.sha256 → ∀ s, F s) :
    Triple (Sys.Bootstrapping (n + 2) (Checkpoint.Staging done)) (handle E cfg env)
      (fun _ => Sys.Bootstrapping n (Checkpoint.Staging (done ++ [chunk]))) F := by
  have hchunk := haccepted.payload
  refine handle_fine haccepted ?_
  rw [hpayload] at hchunk ⊢
  obtain ⟨hvalid, hzone, hepoch, hrevision⟩ := hchunk
  show Triple _ (handleChunk E env chunk) _ _
  unfold handleChunk
  rw [check_bind hvalid, check_failIf (by simp [hzone, hepoch, hrevision])]
  refine triple_get_bind fun s hs => ?_
  have hfence := hs.state.fenceOf chunk.zoneUID
  refine triple_ite (fun hlt => ?_) fun _ => triple_ite (fun hother => ?_) fun hagree => ?_
  · rw [hfence] at hlt
    exact absurd hlt (compare_zero_not_neg _ _)
  · rw [Option.any_eq_true] at hother
    obtain ⟨old, hold, hhash⟩ := hother
    obtain ⟨hdone, huid, hkey⟩ := hs.state.sound _ _ old hold
    exact triple_fail _ fun s _ => hconflict old hdone huid hkey (of_decide_eq_true hhash) s
  · have hstage : s.agent.state.Staging done → (s.agent.state.stage chunk).Staging (done ++ [chunk]) :=
      fun h => h.insert fun old hold => by_contra fun hne => hagree <| by
        rw [Option.any_eq_true]
        exact ⟨old, hold, decide_eq_true hne⟩
    refine triple_bind (Q := fun _ => Sys.Bootstrapping (n + 1) (Checkpoint.Staging (done ++ [chunk])))
      (triple_modify fun t (ht : t = s) => ?_)
      fun _ => save_fine (fun _ hc => hc.formatVersion) fun _ hc => hc.prune
    rw [ht]
    exact { hs with state := hstage hs.state }

/-- **The chunks of a bootstrap are staged**, if no two of them conflict. -/
theorem replay_chunks {n : Nat} {xs : List Envelope} {F : Sys → Prop}
    (haccepted : ∀ env ∈ xs, env.Accepted E cfg.region cfg.shard)
    (hchunks : ∀ env ∈ xs, env.payload.chunkOf.isSome = true)
    (hconflict : ∀ old ∈ chunksOf xs, ∀ chunk ∈ chunksOf xs, old.manifestUID = chunk.manifestUID →
      old.key = chunk.key → old.sha256 ≠ chunk.sha256 → ∀ s, F s) :
    Triple (Sys.Bootstrapping (n + 2 * xs.length) (Checkpoint.Staging [])) (each (handle E cfg) xs)
      (fun _ => Sys.Bootstrapping n (Checkpoint.Staging (chunksOf xs))) F := by
  have hloop := triple_each_done (F := F) (f := handle E cfg) (P := fun done =>
    Sys.Bootstrapping (n + 2 * (xs.length - done.length)) (Checkpoint.Staging (chunksOf done))) xs ?_
  · simpa [chunksOf] using hloop
  · intro done env rest hxs
    have hmem : env ∈ xs := by simp [hxs]
    obtain ⟨chunk, hchunk⟩ := isSome_iff_exists.mp (hchunks env hmem)
    have hpayload : env.payload = .chunk chunk := by
      cases hkind : env.payload <;> simp_all [Payload.chunkOf]
    have hdone : chunksOf (done ++ [env]) = chunksOf done ++ [chunk] := by
      rw [chunksOf_concat, hchunk, toList_some]
    have hearlier : ∀ old ∈ chunksOf (done ++ [env]), old ∈ chunksOf xs := by
      intro old hold
      rw [hxs, show done ++ env :: rest = (done ++ [env]) ++ rest by simp, chunksOf, filterMap_append]
      exact mem_append_left _ hold
    have hcount : n + 2 * (xs.length - done.length) =
        n + 2 * (xs.length - (done ++ [env]).length) + 2 := by
      simp only [hxs, length_append, length_cons, length_nil]
      omega
    rw [hcount, hdone]
    refine handle_chunk (haccepted env hmem) hpayload fun old hold huid hkey hhash => ?_
    refine hconflict old (hearlier old ?_) chunk (hearlier chunk ?_) huid hkey hhash
    · rw [hdone]
      exact mem_append_left _ hold
    · rw [hdone]
      exact mem_append_right _ (mem_singleton_self _)

end InternalDNS
