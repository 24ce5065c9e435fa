import InternalDNS.AgentSafety
import InternalDNS.CheckpointText

/-! # An agent restarts from what it saved

`stateStore.Load` checks a checkpoint before it is used: the fences are complete, the snapshot is
valid and agrees with the binding fences, the plans are valid.  All of it is about the desired state,
and nothing enters the desired state without having passed these checks, so whatever an agent has in
memory or on disk passes them.  With the round trip of the text, an agent that starts again has the state
that was saved.

Chunks are the exception.  Those of publications that a zone has left behind are dropped, and a set of
chunks is dropped as a whole for any one of them.
-/
namespace InternalDNS

open Go Go.Prog Go.JSON List Machine ServingSnapshot

variable {E : Externals} {cfg : AgentConfig} {c : Checkpoint} {snapshot : ServingSnapshot}

/-! ## States that pass the checks -/

/-- What `stateStore.Load` checks. -/
structure Desired.Loadable (E : Externals) (d : Desired) : Prop where
  format : d.formatVersion = checkpointFormatVersion
  bindings : ∀ uid f, d.bindingFences.lookup uid = some f → uid ≠ [] ∧ f.identity ≠ [] ∧
    f.configurationGeneration ≠ 0 ∧ f.configurationRevision ≠ 0 ∧ f.version.epoch ≠ 0 ∧
    f.version.sequence ≠ 0
  snapshot : ∀ s ∈ d.snapshot, s.Valid E ∧
    ∀ b ∈ s.bindings, d.bindingFences.lookup b.bindingUID = some (bindingFenceFor E.hash b)
  contributions : ∀ uid f, d.contributionFences.lookup uid = some f →
    uid ≠ [] ∧ f.generation ≠ 0 ∧ f.sequence ≠ 0
  publications : ∀ uid p, d.publications.lookup uid = some p → p.manifest.tombstone = false →
    p.plan.Valid E

theorem mem_entries {V : Type} {m : GoMap GoString V} {e : Sigma fun _ : GoString => V} :
    e ∈ m.entries ↔ m.lookup e.1 = some e.2 := AList.mem_lookup_iff.symm

/-- **A state that passes the checks is loaded.** -/
theorem Desired.Loadable.load (h : c.desired.Loadable E) :
    c.load E = .ok c.pruneSupersededChunks := by
  have hbindings : ∀ e ∈ c.bindingFences.entries, _ := fun e he => h.bindings e.1 e.2 (mem_entries.mp he)
  have hcontributions : ∀ e ∈ c.contributionFences.entries, _ :=
    fun e he => h.contributions e.1 e.2 (mem_entries.mp he)
  have hpublications : ∀ e ∈ c.publications.entries, _ :=
    fun e he => h.publications e.1 e.2 (mem_entries.mp he)
  have hsnapshot : ∀ s ∈ c.snapshot, _ := h.snapshot
  simp only [Checkpoint.load, Except.bind_eq_ok, failIf_eq_ok, forEach_eq_ok, skipIf_eq_ok, wrap_eq_ok,
    exists_const, not_or, not_not]
  refine ⟨h.format, fun e he => hbindings e he, ?_, fun e he => hcontributions e he, fun s hs => ?_,
    fun e he hlive => ?_, trivial⟩
  · cases hs : c.snapshot with
    | none => simp
    | some s => exact (hsnapshot s hs).2
  · exact validate_eq_ok.mpr (hsnapshot s (by simpa using hs)).1
  · exact PublicationPlan.validate_eq_ok.mpr (hpublications e he (by simpa using hlive))

open Checkpoint

theorem newCheckpoint_loadable : newCheckpoint.desired.Loadable E where
  format := rfl
  bindings _ _ h := by simp [desired, newCheckpoint] at h
  snapshot _ h := by cases h
  contributions _ _ h := by simp [desired, newCheckpoint] at h
  publications _ _ h := by simp [desired, newCheckpoint] at h

/-! ## Every step keeps them so -/

/-- The state in memory and the one on disk pass the checks. -/
structure Sys.Loadable (E : Externals) (s : Sys) : Prop where
  memory : s.agent.state.desired.Loadable E
  disk : ∀ d ∈ s.disk, d.desired.Loadable E

/-- Code that keeps the states loadable. -/
abbrev KeepsLoadable (E : Externals) {α : Type} (p : Act α) : Prop :=
  Triple (Sys.Loadable E) p (fun _ => Sys.Loadable E) (Sys.Loadable E)

theorem Unmoved.loadable {s t : Sys} (h : Unmoved s t) (hs : s.Loadable E) : t.Loadable E := by
  refine ⟨?_, fun d hd => ?_⟩
  · rw [h.desired]
    exact hs.memory
  · rcases h.disk with hsame | ⟨d', hd', hdesired⟩
    · exact hs.disk d (hsame ▸ hd)
    · obtain rfl : d' = d := Option.mem_unique hd' hd
      rw [hdesired]
      exact hs.memory

theorem calm_loadable {α : Type} {p : Act α} (hp : Calming ∅ p) : KeepsLoadable E p :=
  triple_of_always hp (fun _ _ hst hs => hst.unmoved.loadable hs) fun _ h => h

/-- A publication that passes the check. -/
def PublicationState.Checked (E : Externals) (p : PublicationState) : Prop :=
  p.manifest.tombstone = false → p.plan.Valid E

section Publications

variable {uid : GoString} {next : PublicationState}

theorem Sys.Loadable.setPublication {s : Sys} (hs : s.Loadable E) (h : next.Checked E) :
    (s.modifyState (setPublication uid next)).Loadable E := by
  obtain ⟨hformat, hbindings, hsnapshot, hcontributions, hpublications⟩ := hs.memory
  exact ⟨⟨hformat, hbindings, hsnapshot, hcontributions, GoMap.forall_insert hpublications h⟩, hs.disk⟩

theorem guarded_loadable :
    Guarded (Sys.Loadable E) fun _ next s => s.Loadable E ∧ next.Checked E where
  sound h := h.1
  current hs h := ⟨hs, hs.memory.publications _ _ h⟩
  keeps := calm_loadable
  calm hp := triple_of_always hp (fun _ _ hst h => ⟨hst.unmoved.loadable h.1, h.2⟩) fun _ h => h.1
  set _ hmanifest hplan := triple_modify fun s hs => by
    refine ⟨hs.1.setPublication ?_, hs.2⟩
    rw [PublicationState.Checked, hmanifest, hplan]
    exact hs.2

theorem PublicationState.Checked.retire {p : PublicationState} (h : p.Checked E) (now : Time) :
    ((p.retire now).getD p).Checked E := by
  unfold PublicationState.retire
  split_ifs with hlive
  · exact h
  · exact h
  · rw [not_or, not_not] at hlive
    exact fun hfalse => absurd (hlive.1.symm.trans hfalse) (by decide)
  · exact h

theorem setPublications_loadable {m : GoMap GoString PublicationState}
    (h : ∀ uid p, m.lookup uid = some p → p.Checked E) :
    KeepsLoadable E (modify (Sys.modifyState (setPublications m)) : Act Unit) :=
  triple_modify fun _ hs => ⟨⟨hs.memory.format, hs.memory.bindings, hs.memory.snapshot,
    hs.memory.contributions, h⟩, hs.disk⟩

theorem retireTombstones_loadable (now : Time) : KeepsLoadable E (retireTombstones now) := by
  refine triple_look fun s hs => ?_
  refine triple_when ?_ fun _ h => h
  refine triple_bind (setPublications_loadable fun uid p hp => ?_) fun _ => ?_
  · rw [GoMap.lookup_mapValues] at hp
    obtain ⟨q, hq, rfl⟩ := Option.map_eq_some_iff.mp hp
    exact PublicationState.Checked.retire (hs.memory.publications uid q hq) now
  · refine (calm_loadable save_calm).attempt_bind (fun _ => triple_pure () fun _ h => h) fun e => ?_
    exact triple_bind (setPublications_loadable hs.memory.publications) fun _ =>
      triple_fail e fun _ h => h

end Publications

/-! ### Accepting a manifest -/

theorem commit_loadable {plan : PublicationPlan} (h : plan.Valid E) :
    KeepsLoadable E (modify (Sys.modifyState (commitContributionFences plan)) : Act Unit) := by
  refine triple_modify fun s hs => ⟨?_, hs.disk⟩
  obtain ⟨hformat, hbindings, hsnapshot, hcontributions, hpublications⟩ := hs.memory
  refine ⟨hformat, hbindings, hsnapshot, fun uid f hf => ?_, hpublications⟩
  rcases lookup_commitContributionFences hf with hold | ⟨o, ho, rfl, rfl⟩
  · exact hcontributions uid f hold
  · exact h.observations o ho

theorem acceptPlan_loadable (m : PublicationManifest) :
    Triple (Sys.Loadable E) (acceptPlan E m) (fun next s => s.Loadable E ∧ next.Checked E)
      (Sys.Loadable E) := by
  refine triple_look fun s hs => ?_
  refine triple_bind (calm_loadable (always_check _)) fun payload =>
    triple_bind (calm_loadable (always_check _)) fun plan =>
    triple_bind (triple_check _ fun _ h => h) fun _ => ?_
  intro t ht
  have hvalid : plan.Valid E := PublicationPlan.validate_eq_ok.mp ht.1
  refine (triple_bind (calm_loadable (always_check _)) fun _ =>
    triple_bind (calm_loadable (always_check _)) fun _ =>
    triple_bind (commit_loadable hvalid) fun _ => triple_bind (calm_loadable save_calm) fun _ =>
    triple_pure _ fun u hu => ⟨hu, fun _ => hvalid⟩ : Triple (Sys.Loadable E) _ _ _) t ht.2

theorem handleManifest_loadable (env : Envelope) (m : PublicationManifest) :
    KeepsLoadable E (handleManifest E cfg env m) := by
  refine triple_bind (calm_loadable (always_check _)) fun _ =>
    triple_bind (calm_loadable (always_check _)) fun _ => ?_
  refine triple_look fun s hs => ?_
  refine triple_ite (fun _ => triple_pure () fun _ h => h) fun _ => ?_
  refine triple_ite (fun _ => triple_fail _ fun _ h => h) fun _ => ?_
  split
  case h_1 _ p hp =>
    have hcurrent := hs.memory.publications _ p (Option.filter_eq_some_iff.mp hp).1
    exact guarded_loadable.repeatPublication.weaken fun t ht => ⟨ht, hcurrent⟩
  case h_2 =>
    refine triple_ite (fun _ => triple_fail _ fun _ h => h) fun _ =>
      triple_ite (fun htombstone => ?_) fun _ => ?_
    · refine guarded_loadable.applyPublication.weaken fun t ht => ⟨ht, fun hlive => ?_⟩
      exact absurd (htombstone.symm.trans hlive) (by decide)
    · exact triple_bind (acceptPlan_loadable m) fun next => guarded_loadable.applyPublication

/-! ### Accepting a snapshot -/

/-- The hash of a text that is not empty is not empty. -/
def Externals.HashesText (E : Externals) : Prop := ∀ s, s ≠ [] → E.hash s ≠ []

theorem identityText_ne_nil (b : Binding) : identityText b ≠ [] :=
  append_ne_nil_of_right_ne_nil _ (by decide)

/-- The fences after an accepted snapshot are complete. -/
theorem advanced_complete (hhash : E.HashesText) {prior next : BindingFences}
    (hvalid : snapshot.Valid E) (hadvance : advanceBindingFences E.hash prior snapshot = .ok next)
    (hprior : ∀ uid f, prior.lookup uid = some f → uid ≠ [] ∧ f.identity ≠ [] ∧
      f.configurationGeneration ≠ 0 ∧ f.configurationRevision ≠ 0 ∧ f.version.epoch ≠ 0 ∧
      f.version.sequence ≠ 0) {uid : GoString} {f : BindingFence} (hf : next.lookup uid = some f) :
    uid ≠ [] ∧ f.identity ≠ [] ∧ f.configurationGeneration ≠ 0 ∧ f.configurationRevision ≠ 0 ∧
      f.version.epoch ≠ 0 ∧ f.version.sequence ≠ 0 := by
  rcases advanceBindingFences_lookup hadvance uid with ⟨b, hb, rfl, hlookup, -⟩ | ⟨-, hlookup⟩
  · rw [hlookup] at hf
    cases hf
    have hbvalid := hvalid.bindings b hb
    exact ⟨hbvalid.bindingUID, hhash _ (identityText_ne_nil b), hbvalid.generation, hbvalid.revision,
      hbvalid.epoch, hbvalid.sequence⟩
  · rw [hlookup] at hf
    obtain ⟨old, hold, rfl⟩ := Option.map_eq_some_iff.mp hf
    exact hprior uid old hold

/-- The bindings of an accepted snapshot have their fences. -/
theorem advanced_agrees {prior next : BindingFences} (hvalid : snapshot.Valid E)
    (hadvance : advanceBindingFences E.hash prior snapshot = .ok next) {b : Binding}
    (hb : b ∈ snapshot.bindings) :
    next.lookup b.bindingUID = some (bindingFenceFor E.hash b) := by
  rcases advanceBindingFences_lookup hadvance b.bindingUID with ⟨b', hb', heq, hlookup, -⟩ | ⟨hnone, -⟩
  · rw [hlookup, inj_on_of_nodup_map hvalid.uids hb' hb heq]
  · exact absurd rfl (hnone b hb)

theorem acceptSnapshot_loadable (hhash : E.HashesText) (hvalid : snapshot.Valid E) :
    KeepsLoadable E (acceptSnapshot E cfg snapshot) := by
  refine triple_get_bind fun s hs => ?_
  refine triple_bind (triple_check _ fun t (ht : t = s) => ht ▸ hs) fun fences => ?_
  refine triple_bind (Q := fun _ => Sys.Loadable E) (triple_modify ?_) fun _ => ?_
  · rintro t ⟨hadvance, rfl⟩
    refine ⟨⟨hs.memory.format, ?_, ?_, hs.memory.contributions, hs.memory.publications⟩, hs.disk⟩
    · exact fun uid f hf => advanced_complete hhash hvalid hadvance hs.memory.bindings hf
    · rintro _ ⟨⟩
      exact ⟨hvalid, fun b hb => advanced_agrees hvalid hadvance hb⟩
  · refine calm_loadable (always_get_bind fun _ => withdrawApproval_calm.when.bind fun _ => ?_)
    exact save_calm.attempt (fun _ => always_pure ()) failClosed_calm.rethrow

theorem handleServing_loadable (hhash : E.HashesText) (env : Envelope) (snapshot : ServingSnapshot) :
    KeepsLoadable E (handleServing E cfg env snapshot) := by
  refine triple_bind (triple_check _ fun _ h => h) fun _ => ?_
  rintro s ⟨hvalidate, hs⟩
  have hvalid : snapshot.Valid E := validate_eq_ok.mp hvalidate
  have happly : ∀ advance, KeepsLoadable E (applyServingSnapshot E cfg snapshot advance) := fun advance =>
    triple_bind (triple_when (acceptSnapshot_loadable hhash hvalid) fun _ h => h) fun _ =>
      calm_loadable <| always_get_bind fun _ => .when <| reconcile_calm.bind fun _ => finishEvent_calm
  refine (triple_bind (calm_loadable (always_check _)) fun _ =>
    triple_bind (calm_loadable (always_check _)) fun _ =>
    triple_look fun t ht => ?_ : KeepsLoadable E _) s hs
  refine triple_ite (fun _ => triple_pure () fun _ h => h) fun _ => triple_ite (fun _ => ?_) fun _ =>
    happly true
  exact triple_ite (fun _ => happly false) fun _ => triple_fail _ fun _ h => h

/-! ### Whole histories -/

/-- **Every input keeps the states loadable**, however far its code gets. -/
theorem code_loadable (hhash : E.HashesText) (input : Input) : KeepsLoadable E (input.code E cfg) :=
  guarded_loadable.code (handleServing_loadable hhash) (fun env m _ _ => handleManifest_loadable env m)
    retireTombstones_loadable

/-- What a machine has in memory and on disk passes the checks. -/
structure Machine.Loadable (E : Externals) (m : Machine) : Prop where
  memory : ∀ agent ∈ m.agent, agent.state.desired.Loadable E
  disk : ∀ d ∈ m.disk, d.desired.Loadable E

theorem Machine.Loadable.process {m : Machine} (h : m.Loadable E) {input : Input} {agent : Agent}
    (ha : m.process E input = some agent) : agent.state.desired.Loadable E := by
  cases input with
  | start =>
    simp only [Machine.process] at ha
    split at ha
    · cases ha
      exact newCheckpoint_loadable
    next c hc =>
      rw [(h.disk c hc).load] at ha
      cases ha
      exact h.disk c hc
  | handle | step | beginBootstrap | endBootstrap => exact h.memory agent ha

theorem Machine.after_loadable {r : Exit Failure Unit × Sys} (h : r.2.Loadable E) :
    (Machine.after r).Loadable E := by
  obtain ⟨e, s⟩ := r
  have hrunning : ∀ agent ∈ some s.agent, agent.state.desired.Loadable E := by
    rintro _ ⟨⟩
    exact h.memory
  cases e with
  | crash => exact ⟨fun _ hnone => (Option.not_mem_none _ hnone).elim, h.disk⟩
  | ok _ => exact ⟨hrunning, h.disk⟩
  | error _ => exact ⟨hrunning, h.disk⟩

theorem Machine.Loadable.run (hhash : E.HashesText) {m : Machine} (h : m.Loadable E)
    (input : Input × List Answer) : (m.run E cfg input).Loadable E := by
  unfold Machine.run
  match hagent : m.process E input.1 with
  | none => exact ⟨fun _ hnone => (Option.not_mem_none _ hnone).elim, h.disk⟩
  | some agent =>
    exact after_loadable ((code_loadable hhash input.1).final ⟨h.process hagent, h.disk⟩)

/-- **After every history, memory and disk pass the checks.** -/
theorem Machine.runs_loadable (hhash : E.HashesText) (inputs : List (Input × List Answer)) :
    (Machine.runs E cfg inputs).Loadable E := by
  induction inputs using List.reverseRecOn with
  | nil => exact ⟨fun _ h => (Option.not_mem_none _ h).elim, fun _ h => (Option.not_mem_none _ h).elim⟩
  | append_singleton inputs input ih =>
    rw [runs, foldl_concat]
    exact ih.run hhash input

/-! ## The round trip -/

/-- The chunk belongs to a publication that its zone has left behind. -/
def Checkpoint.Older (c : Checkpoint) (chunk : PublicationChunk) : Prop :=
  (c.fenceOf chunk.zoneUID).revision > 0 ∧ compare chunk.writerEpoch chunk.revision
    (c.fenceOf chunk.zoneUID).epoch (c.fenceOf chunk.zoneUID).revision < 0

/-- No chunk was staged, or one of them is of a publication that its zone has left behind. -/
def Checkpoint.LeftBehind (c : Checkpoint) (staged : GoMap GoString PublicationChunk) : Prop :=
  (∀ key, staged.lookup key = none) ∨ ∃ key chunk, staged.lookup key = some chunk ∧ c.Older chunk

/-- The checkpoint is the other one, but for the time of the update and for chunks that were staged
together with one that is left behind. -/
structure Checkpoint.RestoredFrom (c d : Checkpoint) : Prop where
  same : c.SameAs d
  chunks : ∀ uid, Option.Rel (SameMap Eq) (c.chunks.lookup uid) (d.chunks.lookup uid) ∨
    c.chunks.lookup uid = none ∧ ∃ staged ∈ d.chunks.lookup uid, d.LeftBehind staged

theorem leftBehind_of_superseded {staged : GoMap GoString PublicationChunk}
    (h : c.superseded staged = true) : c.LeftBehind staged := by
  unfold superseded at h
  split at h
  next hnone =>
    refine .inl fun key => ?_
    rw [AList.lookup_eq_none, AList.mem_keys, AList.keys, List.head?_eq_none_iff.mp hnone]
    exact not_mem_nil
  next key chunk hhead =>
    rw [Bool.and_eq_true, decide_eq_true_eq, decide_eq_true_eq] at h
    exact .inr ⟨key, chunk, mem_entries.mp (mem_of_mem_head? hhead), h⟩

/-- What is left of the chunks: whole sets are dropped. -/
theorem lookup_pruneSupersededChunks (c : Checkpoint) (uid : GoString) :
    c.pruneSupersededChunks.chunks.lookup uid =
      (c.chunks.lookup uid).filter fun staged => !c.superseded staged := by
  have hfold : ∀ (l : List (Sigma fun _ : GoString => GoMap GoString PublicationChunk))
      (m : GoMap GoString (GoMap GoString PublicationChunk)),
      (l.foldl (fun chunks e => chunks.erase e.1) m).lookup uid =
        if uid ∈ l.map (·.1) then none else m.lookup uid := by
    intro l
    induction l with
    | nil => intro m; rfl
    | cons e l ih =>
      intro m
      rw [foldl_cons, ih]
      by_cases huid : uid = e.1
      · subst huid
        simp
      · have hmem : uid ∈ (e :: l).map (·.1) ↔ uid ∈ l.map (·.1) := by
          rw [map_cons, mem_cons, or_iff_right huid]
        rw [AList.lookup_erase_ne huid, if_congr hmem rfl rfl]
  show ((c.chunks.entries.filter fun e => c.superseded e.2).foldl (fun chunks e => chunks.erase e.1)
    c.chunks).lookup uid = _
  rw [hfold]
  have hmem : uid ∈ (c.chunks.entries.filter fun e => c.superseded e.2).map (·.1) ↔
      ∃ staged, c.chunks.lookup uid = some staged ∧ c.superseded staged = true := by
    rw [mem_map]
    constructor
    · rintro ⟨e, he, rfl⟩
      obtain ⟨hentry, hsuperseded⟩ := mem_filter.mp he
      exact ⟨e.2, mem_entries.mp hentry, hsuperseded⟩
    · rintro ⟨staged, hstaged, hsuperseded⟩
      exact ⟨⟨uid, staged⟩, mem_filter.mpr ⟨mem_entries.mpr hstaged, hsuperseded⟩, rfl⟩
  rw [if_congr hmem rfl rfl]
  cases hlookup : c.chunks.lookup uid with
  | none => simp
  | some staged =>
    cases hsuperseded : c.superseded staged <;> simp [hsuperseded, Option.filter]

theorem Checkpoint.LeftBehind.congr {c d : Checkpoint} {staged staged' : GoMap GoString PublicationChunk}
    (h : c.LeftBehind staged) (hpublications : SameMap Eq c.publications d.publications)
    (hstaged : SameMap Eq staged staged') : d.LeftBehind staged' := by
  have hfence : ∀ uid, c.fenceOf uid = d.fenceOf uid := fun uid => by
    rw [fenceOf, fenceOf, hpublications.lookup_eq]
  rcases h with hempty | ⟨key, chunk, hchunk, holder⟩
  · exact .inl fun key => (hstaged.lookup_eq key).symm.trans (hempty key)
  · refine .inr ⟨key, chunk, (hstaged.lookup_eq key).symm.trans hchunk, ?_⟩
    rw [Checkpoint.Older, hfence] at holder
    exact holder

theorem Desired.Loadable.congr {c d : Checkpoint} (h : c.desired.Loadable E) (hsame : d.SameAs c) :
    d.desired.Loadable E where
  format := hsame.formatVersion.trans h.format
  bindings uid f hf := h.bindings uid f ((hsame.bindingFences.lookup_eq uid).symm.trans hf)
  snapshot s hs := by
    have hd : d.snapshot = some s := hs
    obtain ⟨hvalid, hagrees⟩ := h.snapshot s (hsame.snapshot.symm.trans hd)
    exact ⟨hvalid, fun b hb => (hsame.bindingFences.lookup_eq _).trans (hagrees b hb)⟩
  contributions uid f hf := h.contributions uid f ((hsame.contributionFences.lookup_eq uid).symm.trans hf)
  publications uid p hp := h.publications uid p ((hsame.publications.lookup_eq uid).symm.trans hp)

section RoundTrip

variable {S : Type} (J : CheckpointCodecs S) {c : Checkpoint}

/-- A checkpoint that passes the checks is loaded from its text. -/
theorem loadText_encodeCheckpoint (h : c.desired.Loadable E) :
    ∃ d, loadText J E (encodeCheckpoint J c) = .ok d ∧ d.RestoredFrom c := by
  obtain ⟨d, hdecode, hsame, -, hchunks⟩ := decodeCheckpoint_encodeCheckpoint J c
  have hload : d.desired.Loadable E := h.congr hsame
  refine ⟨d.pruneSupersededChunks, ?_, ⟨{ hsame with }, fun uid => ?_⟩⟩
  · simp only [loadText, hdecode, Except.bind_eq_ok, failIf_eq_ok, exists_const, not_not]
    exact ⟨hload.format, trivial, hload.load⟩
  · rw [lookup_pruneSupersededChunks]
    have huid := hchunks uid
    generalize hread : d.chunks.lookup uid = read, hstaged : c.chunks.lookup uid = staged at huid ⊢
    cases huid with
    | none => exact .inl .none
    | @some read staged hmap =>
      cases hsuperseded : d.superseded read with
      | false =>
        rw [Option.filter_some, if_pos (by rw [hsuperseded]; rfl)]
        exact .inl (.some hmap)
      | true =>
        rw [Option.filter_some, if_neg (by rw [hsuperseded]; decide)]
        exact .inr ⟨rfl, staged, rfl, (leftBehind_of_superseded hsuperseded).congr hsame.publications hmap⟩

/-- **Load after Save** gives the state that was saved. -/
theorem loadText_savedText (h : c.desired.Loadable E) (now : Time) :
    ∃ d, loadText J E (savedText J now c) = .ok d ∧ d.RestoredFrom c := by
  have hpruned : ({ c.pruneSupersededChunks with updatedAt := now } : Checkpoint).desired.Loadable E := h
  obtain ⟨d, hload, hsame, hchunks⟩ := loadText_encodeCheckpoint J hpruned
  refine ⟨d, hload, { hsame with }, fun uid => ?_⟩
  have hlookup := lookup_pruneSupersededChunks c uid
  have huid := hchunks uid
  rw [show ({ c.pruneSupersededChunks with updatedAt := now } : Checkpoint).chunks.lookup uid = _
    from hlookup] at huid
  cases hstaged : c.chunks.lookup uid with
  | none =>
    rw [hstaged] at huid
    rcases huid with hrel | ⟨-, staged, hmem, -⟩
    · exact .inl hrel
    · exact absurd hmem (Option.not_mem_none _)
  | some staged =>
    rw [hstaged, Option.filter_some] at huid
    cases hsuperseded : c.superseded staged with
    | true =>
      rw [if_neg (by rw [hsuperseded]; decide)] at huid
      rcases huid with hrel | ⟨-, _, hmem, -⟩
      · generalize d.chunks.lookup uid = read at hrel ⊢
        cases hrel
        exact .inr ⟨rfl, staged, rfl, leftBehind_of_superseded hsuperseded⟩
      · exact absurd hmem (Option.not_mem_none _)
    | false =>
      rw [if_pos (by rw [hsuperseded]; rfl)] at huid
      exact huid

variable (E cfg)

/-- **An agent restarts from what it saved.**  After any history, saving the state of the agent and
loading it gives the state again, and the disk loads as it is: everything is the same but the time of the
update and chunks that were staged together with one whose zone has left it behind. -/
theorem saved_state_restored (hhash : E.HashesText) (inputs : List (Input × List Answer)) (now : Time) :
    (∀ agent ∈ (Machine.runs E cfg inputs).agent,
      ∃ d, loadText J E (savedText J now agent.state) = .ok d ∧ d.RestoredFrom agent.state) ∧
    ∀ saved ∈ (Machine.runs E cfg inputs).disk,
      ∃ d, loadText J E (encodeCheckpoint J saved) = .ok d ∧ d.RestoredFrom saved := by
  have h : (runs E cfg inputs).Loadable E := runs_loadable hhash inputs
  exact ⟨fun agent hagent => loadText_savedText J (h.memory agent hagent) now,
    fun saved hsaved => loadText_encodeCheckpoint J (h.disk saved hsaved)⟩

end RoundTrip

/-! An agent that got chunks of two zones under one manifest, and then left the publication of one of the
zones behind. -/

/-- An agent that only hands out publications. -/
def resolverConfig : AgentConfig where
  region := lit "region"
  shard := lit "shard"
  mode := .resolver
  nodeAuthoritative := false
  maxBindings := 0
  verifies := false
  nodeDNSDistPath := []
  render _ _ := .ok ∅
  refreshActiveDNSDist := .ok

/-- Everything that is asked of the outside succeeds. -/
def fineAnswers : List Answer := List.replicate 8 ⟨true, 1, .saved, none, []⟩

/-- A chunk of the first publication of a zone. -/
def chunkOf (zoneUID : GoString) (index : Int) : PublicationChunk where
  manifestUID := lit "manifest"
  zoneUID := zoneUID
  writerEpoch := 1
  revision := 1
  index := index
  sha256 := List.replicate 64 '0'
  payload := List.replicate 32 0

/-- The withdrawal of a zone at its second revision. -/
def withdrawalOf (zoneUID : GoString) : PublicationManifest where
  manifestUID := lit "withdrawal"
  zoneUID := zoneUID
  apex := lit "example.com"
  writerEpoch := 1
  revision := 2
  previousRevision := 1
  tombstone := true
  chunks := []
  contentHash := []
  generatedAt := 1

def eventOf (zoneUID : GoString) (revision : Nat) (payload : Payload) : Input × List Answer :=
  (.handle ⟨true, lit "region", lit "shard", zoneUID, 1, revision, payload⟩, fineAnswers)

def mixedChunks : List (Input × List Answer) :=
  [(.start, fineAnswers), eventOf (lit "left") 1 (.chunk (chunkOf (lit "left") 1)),
    eventOf (lit "kept") 1 (.chunk (chunkOf (lit "kept") 0)),
    eventOf (lit "left") 2 (.manifest (withdrawalOf (lit "left")))]

theorem reference_hashesText : Externals.reference.HashesText := fun _ h => h

/-- The state of that agent is saved and loaded. -/
theorem mixedChunks_restored : ∃ agent ∈ (Machine.runs .reference resolverConfig mixedChunks).agent,
    ∃ d, loadText .reference .reference (savedText .reference 5 agent.state) = .ok d ∧
      d.RestoredFrom agent.state := by
  have hrunning : (runs .reference resolverConfig mixedChunks).agent.isSome = true := by
    decide +kernel
  obtain ⟨agent, hagent⟩ := Option.isSome_iff_exists.mp hrunning
  exact ⟨agent, hagent, (saved_state_restored .reference _ _ reference_hashesText _ 5).1 agent hagent⟩

/-- **The chunk of the zone that is not left behind is lost**, with the one that is. -/
theorem current_chunk_lost : ∃ agent ∈ (Machine.runs .reference resolverConfig mixedChunks).agent,
    ((agent.state.chunks.lookup (lit "manifest")).bind fun staged => staged.lookup (lit "0")) =
      some (chunkOf (lit "kept") 0) ∧
    agent.state.fenceOf (lit "kept") = ⟨0, 0⟩ ∧
    ∃ d, loadText .reference .reference (savedText .reference 5 agent.state) = .ok d ∧
      d.chunks.lookup (lit "manifest") = none := by
  have hlost : ((runs .reference resolverConfig mixedChunks).agent.any fun agent =>
      (((agent.state.chunks.lookup (lit "manifest")).bind fun staged => staged.lookup (lit "0")) =
        some (chunkOf (lit "kept") 0) : Bool) &&
      (agent.state.fenceOf (lit "kept") = ⟨0, 0⟩ : Bool) &&
      match loadText .reference .reference (savedText .reference 5 agent.state) with
      | .ok d => (d.chunks.lookup (lit "manifest")).isNone
      | .error _ => false) = true := by
    decide +kernel
  rw [Option.any_eq_true] at hlost
  obtain ⟨agent, hagent, htest⟩ := hlost
  rw [Bool.and_eq_true, Bool.and_eq_true, decide_eq_true_eq, decide_eq_true_eq] at htest
  refine ⟨agent, hagent, htest.1.1, htest.1.2, ?_⟩
  have hload := htest.2
  split at hload
  next d hd => exact ⟨d, hd, Option.isNone_iff_eq_none.mp hload⟩
  · cases hload

end InternalDNS
