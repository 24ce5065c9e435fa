import InternalDNS.AgentDesired

/-! # What no history of an agent can undo

An agent's fences protect its zones only if they survive everything that can happen to the agent.
The invariant `Sys.Safe` says of a running agent that

* the checkpoints written so far follow each other in the order of their fences, and the one on
  disk is the last of them;
* memory is at or above the disk;
* the publications in memory, those on disk and those of the approved configuration rest only on
  observations that are on disk.

Most of the agent's code leaves the publications alone.  For it, `Keeps` is proved piece by piece:
the invariant is kept, the publications are the same, and the fences on disk have grown.  It may
rest on sets of publications that are known to be covered, such as those it has just read.  The few
pieces that set a publication are then followed with triples; what they need to know of the new
publication, `Sys.Allowed`, cannot be lost by code in `Keeps`.
-/
namespace InternalDNS

open Go Go.Prog AList Option Machine Always Checkpoint

/-- The checkpoints that reached the disk, in order. -/
def writes (log : List Effect) : List Checkpoint :=
  log.filterMap fun
    | .write c => some c
    | .install .. => none

/-- What holds of a disk and its history. -/
structure Durable (disk : Option Checkpoint) (log : List Effect) : Prop where
  ordered : (writes log).Pairwise Checkpoint.Below
  last : disk = (writes log).getLast?
  latest : ∀ c ∈ writes log, ∃ d ∈ disk, c.Below d
  installs : ∀ source files before, Effect.install source files before ∈ log → Covered source before
  published : ∀ d ∈ disk, Covered d.publications disk
  approved : ∀ d ∈ disk, ∀ a ∈ d.active, Covered a.publications disk

/-- **What holds of a running agent.** -/
structure Sys.Safe (s : Sys) : Prop where
  durable : Durable s.disk s.log
  below : ∀ d ∈ s.disk, d.Below s.agent.state
  published : Covered s.agent.state.publications s.disk
  approved : ∀ a ∈ s.agent.state.active, Covered a.publications s.disk

/-- What code that sets no publication may do. -/
structure Kept (s t : Sys) : Prop where
  safe : t.Safe
  publications : t.agent.state.publications = s.agent.state.publications
  contributions : t.agent.state.contributionFences = s.agent.state.contributionFences
  fences : FencesGrow (fencesOn s.disk) (fencesOn t.disk)
  disk : t.disk = s.disk ∨ ∃ d, t.disk = some d ∧ d.publications = s.agent.state.publications ∧
    d.contributionFences = s.agent.state.contributionFences

variable {s : Sys}

theorem Kept.trans {s t u : Sys} (hst : Kept s t) (htu : Kept t u) : Kept s u := by
  refine ⟨htu.safe, htu.publications.trans hst.publications,
    htu.contributions.trans hst.contributions, hst.fences.trans htu.fences, ?_⟩
  rcases htu.disk with hsame | ⟨d, hd, hp, hf⟩
  · rw [hsame]
    exact hst.disk
  · exact .inr ⟨d, hd, hp.trans hst.publications, hf.trans hst.contributions⟩

/-- Sets of publications. -/
abbrev Sources := Set (GoMap GoString PublicationState)

/-- The step is allowed, given that the publications in `S` are covered. -/
def Keeps (S : Sources) (s t : Sys) : Prop := s.Safe → (∀ m ∈ S, Covered m s.disk) → Kept s t

theorem keeps_refl (S : Sources) (s : Sys) : Keeps S s s := fun hs _ =>
  ⟨hs, rfl, rfl, .refl _, .inl rfl⟩

theorem keeps_trans (S : Sources) (s t u : Sys) (hst : Keeps S s t) (htu : Keeps S t u) :
    Keeps S s u := by
  intro hs hS
  have ht := hst hs hS
  exact ht.trans (htu ht.safe fun m hm => (hS m hm).grow ht.fences)

/-! ## Saving -/

/-- Memory is always at or above the fences on disk. -/
theorem Sys.Safe.fencesOn_grow (h : s.Safe) :
    FencesGrow (fencesOn s.disk) s.agent.state.contributionFences := by
  match hd : s.disk with
  | none => exact .empty _
  | some d => exact (h.below d (by simp [hd])).contributions

/-- **A write keeps the invariant**: the memory that becomes the disk is above everything written
before, and covers what the old disk covered. -/
theorem Sys.Safe.write (hs : s.Safe) (now : Time) : Kept s (s.write now) := by
  have hgrow : FencesGrow (fencesOn s.disk) (fencesOn (s.write now).disk) := hs.fencesOn_grow
  have hwrites : writes (s.write now).log =
      writes s.log ++ [{ s.agent.state with updatedAt := now }] := by
    simp [Sys.write, writes]
  have hbefore : ∀ c ∈ writes s.log, c.Below { s.agent.state with updatedAt := now } := by
    intro c hc
    obtain ⟨d, hd, hcd⟩ := hs.durable.latest c hc
    exact hcd.trans ((hs.below d hd).trans (.of_eq rfl rfl))
  refine ⟨⟨?_, ?_, hs.published.grow hgrow, fun a ha => (hs.approved a ha).grow hgrow⟩, rfl,
    rfl, hgrow, .inr ⟨_, rfl, rfl, rfl⟩⟩
  · constructor
    case ordered =>
      rw [hwrites, List.pairwise_append]
      exact ⟨hs.durable.ordered, List.pairwise_singleton _ _, fun c hc d hd =>
        List.mem_singleton.mp hd ▸ hbefore c hc⟩
    case last => rw [hwrites, List.getLast?_concat]; rfl
    case latest =>
      intro c hc
      refine ⟨_, rfl, ?_⟩
      rw [hwrites, List.mem_append, List.mem_singleton] at hc
      exact hc.elim (hbefore c) fun h => h ▸ .of_eq rfl rfl
    case installs =>
      intro source files before hmem
      refine hs.durable.installs source files before ?_
      simpa [Sys.write] using hmem
    case published =>
      rintro d ⟨⟩
      exact hs.published.grow hgrow
    case approved =>
      rintro d ⟨⟩ a ha
      exact (hs.approved a ha).grow hgrow
  · rintro d ⟨⟩
    exact .of_eq rfl rfl

/-! ## Code that sets no publication -/

/-- What such code does to the checkpoint in memory. -/
structure Quiet (S : Sources) (c d : Checkpoint) : Prop where
  publications : d.publications = c.publications
  contributions : d.contributionFences = c.contributionFences
  active : ∀ a ∈ d.active, a ∈ c.active ∨ a.publications ∈ S

theorem keeps_modifyAgent {S : Sources} {f : Agent → Agent} (h : ∀ a, Quiet S a.state (f a).state)
    (s : Sys) : Keeps S s (s.modifyAgent f) := by
  intro hs hS
  obtain ⟨hp, hf, hactive⟩ := h s.agent
  refine ⟨⟨hs.durable, fun d hd => (hs.below d hd).trans (.of_eq hp.symm hf.symm), ?_, ?_⟩, hp,
    hf, .refl _, .inl rfl⟩
  · exact (congrArg (Covered · s.disk) hp).mpr hs.published
  · exact fun a ha => (hactive a ha).elim (hs.approved a) (hS a.publications)

/-- A piece of code that sets no publication. -/
abbrev Keeping (S : Sources) {α : Type} (p : Act α) : Prop := Always (Keeps S) p

/-- A step that sets no publication, and leaves the desired state alone. -/
structure Calm (S : Sources) (s t : Sys) : Prop where
  keeps : Keeps S s t
  unmoved : Unmoved s t

/-- A piece of code that leaves the desired state alone. -/
abbrev Calming (S : Sources) {α : Type} (p : Act α) : Prop := Always (Calm S) p

/-- What such code does to the checkpoint in memory. -/
structure Still (S : Sources) (c d : Checkpoint) : Prop where
  desired : d.desired = c.desired
  active : ∀ a ∈ d.active, a ∈ c.active ∨ a.publications ∈ S

section Calming

variable {α β : Type} {S : Sources} {p : Act α}

instance : Std.Refl (Keeps S) := ⟨keeps_refl S⟩

instance : IsTrans Sys (Keeps S) := ⟨keeps_trans S⟩

instance : Std.Refl (Calm S) := ⟨fun s => ⟨keeps_refl S s, unmoved_refl s⟩⟩

instance : IsTrans Sys (Calm S) :=
  ⟨fun s t u hst htu => ⟨keeps_trans S s t u hst.keeps htu.keeps,
    unmoved_trans s t u hst.unmoved htu.unmoved⟩⟩

theorem Calming.keeping (hp : Calming S p) : Keeping S p := fun s => (hp s).keeps

theorem Still.quiet {c d : Checkpoint} (h : Still S c d) : Quiet S c d :=
  ⟨congrArg Desired.publications h.desired, congrArg Desired.contributionFences h.desired, h.active⟩

theorem keeping_modifyState {f : Checkpoint → Checkpoint} (h : ∀ c, Quiet S c (f c)) :
    Keeping S (modify (Sys.modifyState f)) :=
  always_modify (keeps_modifyAgent (f := fun a => { a with state := f a.state }) fun a => h a.state)

theorem calm_modifyAgent {f : Agent → Agent} (h : ∀ a, Still S a.state (f a).state) :
    Calming S (modify (Sys.modifyAgent f)) :=
  always_modify fun s => ⟨keeps_modifyAgent (fun a => (h a).quiet) s, (h s.agent).desired, .inl rfl⟩

theorem calm_modifyState {f : Checkpoint → Checkpoint} (h : ∀ c, Still S c (f c)) :
    Calming S (modify (Sys.modifyState f)) :=
  calm_modifyAgent (f := fun a => { a with state := f a.state }) fun a => h a.state

/-- The publications that an agent in a safe state may install. -/
def Sys.sources (s : Sys) : Sources :=
  {m | m = s.agent.state.publications ∨ ∃ a ∈ s.agent.state.active, m = a.publications}

/-- Code may rest on the publications it reads. -/
theorem calm_read_bind {g : Sys → Act β} (h : ∀ s, Calming (S ∪ s.sources) (g s)) :
    Calming S (get >>= g) := by
  refine fun s => ⟨fun hs hS => (h s s).keeps hs fun m hm => hm.elim (hS m) ?_, (h s s).unmoved⟩
  rintro (rfl | ⟨a, ha, rfl⟩)
  · exact hs.published
  · exact hs.approved a ha

theorem always_check {R : Sys → Sys → Prop} [Std.Refl R] (x : Except GoString α) :
    Always R (check x) := by
  cases x with
  | ok a => exact always_pure a
  | error e => exact always_fail _

end Calming

section Pieces

variable {E : Externals} {cfg : AgentConfig} {S : Sources}

theorem ask_calm : Calming S ask := by
  intro s
  unfold ask
  split
  · exact refl_of (Calm S) s
  · exact ⟨fun hs _ => ⟨{ hs with }, rfl, rfl, .refl _, .inl rfl⟩, rfl, .inl rfl⟩

theorem call_calm (text : GoString) : Calming S (call text) :=
  ask_calm.bind fun _ => .ite (always_pure ()) (always_fail _)

theorem write_calm (now : Time) : Calming S (modify (Sys.write now)) :=
  always_modify fun _ => ⟨fun hs _ => hs.write now, rfl, .inr ⟨_, rfl, rfl⟩⟩

theorem still_prune (c : Checkpoint) : Still S c c.pruneSupersededChunks := ⟨rfl, fun _ => .inl⟩

theorem save_calm : Calming S save := by
  refine always_get_bind fun s => .ite (always_fail _) ?_
  refine (calm_modifyState still_prune).bind fun _ => ask_calm.bind fun a => ?_
  match a.save with
  | .saved => exact write_calm a.now
  | .failed => exact always_fail _
  | .failedAfterRename => exact (write_calm a.now).rethrow _

/-- **Files are installed only from covered publications.** -/
theorem apply_calm {source : GoMap GoString PublicationState} (h : source ∈ S) (files : Files) :
    Calming S (apply source files) := by
  have hlog : Calming S (modify fun s =>
      { s with log := s.log ++ [.install source files s.disk] } : Act Unit) := by
    refine always_modify fun s => ⟨fun hs hS => ⟨{ hs with durable := ?_ }, rfl, rfl,
      .refl _, .inl rfl⟩, rfl, .inl rfl⟩
    have hwrites : writes (s.log ++ [.install source files s.disk]) = writes s.log := by
      simp [writes]
    refine { hs.durable with
      ordered := hwrites ▸ hs.durable.ordered
      last := hwrites ▸ hs.durable.last
      latest := hwrites ▸ hs.durable.latest
      installs := fun source' files' before hmem => ?_ }
    rcases List.mem_append.mp hmem with hmem | hmem
    · exact hs.durable.installs source' files' before hmem
    · obtain ⟨rfl, -, rfl⟩ := Effect.install.inj (List.mem_singleton.mp hmem)
      exact hS _ h
  refine hlog.bind fun _ => ask_calm.bind fun a => ?_
  match a.install with
  | none => exact always_pure ()
  | some kind => exact always_fail _

theorem failClosed_calm : Calming S failClosed :=
  calm_modifyAgent (f := fun a => { a with
    needsActivation := true, state := { a.state with withdrawing := none } })
    fun _ => ⟨rfl, fun _ => .inl⟩

theorem withdrawApproval_calm : Calming S withdrawApproval :=
  calm_modifyState fun _ => ⟨rfl, nofun⟩

theorem gateRejectedUpdate_calm (e : Failure) : Calming S (gateRejectedUpdate E cfg e) :=
  always_get_bind fun _ => .ite (always_pure ()) failClosed_calm

/-- The approved publications are those read at the beginning, or those that were approved then. -/
theorem approveConfiguration_calm (snapshot : ServingSnapshot) (files : Files) :
    Calming S (approveConfiguration cfg snapshot files) := by
  refine calm_read_bind fun s => .ite (call_calm _) ?_
  refine (calm_modifyState fun c => ?_).bind fun _ => ?_
  · refine ⟨rfl, ?_⟩
    rintro a ⟨⟩
    exact .inr (.inr (.inl rfl))
  refine save_calm.attempt (fun _ => call_calm _) fun e => .rethrow ?_ e
  exact calm_modifyState fun c => ⟨rfl, fun a ha => .inr (.inr (.inr ⟨a, ha, rfl⟩))⟩

theorem verifyPublication_calm (p : PublicationState) : Calming S (verifyPublication E cfg p) :=
  always_get_bind fun _ => .ite (always_pure ()) (.ite (call_calm _) (always_fail _))

theorem verifyAppliedConfiguration_calm : Calming S (verifyAppliedConfiguration E cfg) :=
  (call_calm _).bind fun _ => always_get_bind fun _ =>
    .ite (failClosed_calm.rethrow _) (call_calm _)

theorem eachPublication_calm {f : GoString → PublicationState → Act Unit}
    (hf : ∀ uid p, Calming S (f uid p)) : Calming S (eachPublication f) := by
  refine always_get_bind fun s => always_each (fun uid => ?_) _
  refine always_get_bind fun s => ?_
  match s.agent.state.publications.lookup uid with
  | none => exact always_pure ()
  | some p => exact hf uid p

theorem withdrawUnretained_calm : Calming S (withdrawUnretained E cfg) :=
  always_get_bind fun _ => .when <| (call_calm _).when.bind fun _ =>
    withdrawApproval_calm.bind fun _ => save_calm

theorem installRendered_calm (files : Files) : Calming S (installRendered E cfg files) := by
  refine always_get_bind fun s => .ite ?_ ?_
  · refine withdrawUnretained_calm.bind fun _ => calm_read_bind fun t => ?_
    refine (apply_calm (.inr (.inl rfl)) files).attempt (fun _ => ?_) fun e =>
      (gateRejectedUpdate_calm e).rethrow e
    refine bind (calm_modifyState fun c => ⟨rfl, fun _ => .inl⟩) fun _ => ?_
    exact save_calm.bind fun _ => calm_modifyAgent fun a => ⟨rfl, fun _ => .inl⟩
  · exact (withdrawApproval_calm.bind fun _ => save_calm).when

theorem verifyInstalled_calm : Calming S (verifyInstalled E cfg) := by
  refine bind (calm_modifyAgent fun a => ⟨rfl, fun _ => .inl⟩) fun _ =>
    eachPublication_calm fun _ p => always_get_bind fun s => .when ?_
  exact (verifyPublication_calm p).attempt (fun _ => always_pure ()) failClosed_calm.rethrow

theorem regateProbed_calm (active : List GoString) (files : Files) :
    Calming S (regateProbed E cfg active files) := by
  refine ask_calm.bind fun a => .ite (always_pure _) (calm_read_bind fun s => ?_)
  match cfg.render s.agent.state (active.filter (· ∉ a.probes)) with
  | .error e => exact always_fail _
  | .ok gated =>
    refine .ite (always_pure _) ((apply_calm (.inr (.inl rfl)) gated).attempt (fun _ => ?_)
      failClosed_calm.rethrow)
    exact bind (calm_modifyState fun c => ⟨rfl, fun _ => .inl⟩) fun _ =>
      save_calm.bind fun _ => always_pure _

theorem reconcileDesired_calm (snapshot : ServingSnapshot) (retained : Option GoString) :
    Calming S (reconcileDesired E cfg snapshot retained) := by
  refine always_get_bind fun s => ?_
  dsimp only
  match cfg.render s.agent.state snapshot.activeUIDs with
  | .error e => exact always_fail _
  | .ok rendered =>
    refine (installRendered_calm _).bind fun _ => verifyInstalled_calm.when.bind fun _ =>
      (regateProbed_calm _ _).bind fun files => always_get_bind fun _ => .when ?_
    exact (approveConfiguration_calm snapshot files).bind fun _ =>
      verifyAppliedConfiguration_calm.when

theorem reconcileWithNodeRouting_calm (retained : Option GoString) :
    Calming S (reconcileWithNodeRouting E cfg retained) := by
  refine always_get_bind fun s => ?_
  match s.agent.state.snapshot with
  | none => exact always_pure ()
  | some snapshot =>
    exact (reconcileDesired_calm snapshot retained).attempt (fun _ => always_pure ()) fun e =>
      ask_calm.bind fun _ => failClosed_calm.when.rethrow e

section

variable (env : Envelope) (snapshot : ServingSnapshot)

theorem reconcile_calm : Calming S (reconcile E cfg) := reconcileWithNodeRouting_calm none

theorem retainedNodeRouting_calm : Calming S (retainedNodeRouting E cfg) :=
  always_get_bind fun _ => .ite (always_pure _) <|
    ask_calm.bind fun _ => .ite (always_pure _) (always_pure _)

theorem heartbeatPublications_calm : Calming S (heartbeatPublications E cfg) :=
  when <| eachPublication_calm fun _ p => always_get_bind fun _ =>
    .when <| ask_calm.bind fun _ => (verifyPublication_calm p).when

theorem finishEvent_calm : Calming S (finishEvent E cfg) :=
  always_get_bind fun _ => .when <| heartbeatPublications_calm.when.bind fun _ =>
    verifyAppliedConfiguration_calm

theorem acceptSnapshot_keeping :
    Keeping S (acceptSnapshot E cfg snapshot) := by
  refine always_get_bind fun s => (always_check _).bind fun fences => ?_
  refine bind (keeping_modifyState fun c => ⟨rfl, rfl, fun _ => .inl⟩) fun _ =>
    Calming.keeping ?_
  refine always_get_bind fun _ => withdrawApproval_calm.when.bind fun _ => ?_
  exact save_calm.attempt (fun _ => always_pure ()) failClosed_calm.rethrow

theorem applyServingSnapshot_keeping (advance : Bool) :
    Keeping S (applyServingSnapshot E cfg snapshot advance) :=
  (acceptSnapshot_keeping snapshot).when.bind fun _ => Calming.keeping <| always_get_bind fun _ =>
    .when <| reconcile_calm.bind fun _ => finishEvent_calm

theorem handleServing_keeping :
    Keeping S (handleServing E cfg env snapshot) := by
  refine (always_check _).bind fun _ => (always_check _).bind fun _ =>
    (always_check _).bind fun _ => always_get_bind fun s => ?_
  exact .ite (always_pure ()) <| .ite
    (.ite (applyServingSnapshot_keeping snapshot false) (always_fail _))
    (applyServingSnapshot_keeping snapshot true)

theorem handleChunk_calm (c : PublicationChunk) :
    Calming S (handleChunk E env c) := by
  refine (always_check _).bind fun _ => (always_check _).bind fun _ => always_get_bind fun s => ?_
  refine .ite (always_pure ()) (.ite (always_fail _) ?_)
  exact bind (calm_modifyState fun c => ⟨rfl, fun _ => .inl⟩) fun _ => save_calm

end

theorem recordAck_calm (ack : MemberAck) : Calming S (recordAck E cfg ack) := by
  refine bind (calm_modifyState fun c => ⟨rfl, fun _ => .inl⟩) fun _ =>
    always_get_bind fun s => .ite (always_pure ()) ?_
  refine bind (calm_modifyState fun c => ⟨rfl, fun _ => .inl⟩) fun _ => .when ?_
  exact save_calm.bind fun _ => reconcile_calm.bind fun _ => finishEvent_calm

theorem handleAck_calm (env : Envelope) (ack : MemberAck) :
    Calming S (handleAck E cfg env ack) := by
  refine (always_check _).bind fun _ => always_get_bind fun s => ?_
  match s.agent.state.snapshot.bind fun snapshot =>
    lookupMember snapshot.members snapshot.memberPatterns ack.memberID with
  | none => exact always_pure ()
  | some member =>
    refine .when (ask_calm.bind fun a => .when ?_)
    cases ack.phase with
    | expired => exact reconcile_calm.bind fun _ => finishEvent_calm
    | accepted => exact always_fail _
    | applied | verified | rejected => exact recordAck_calm ack

/-! ## Starting -/

theorem keepActive_calm (active : ActiveConfiguration) : Calming S (keepActive E active) := by
  refine bind (calm_modifyAgent fun a => ⟨rfl, fun _ => .inl⟩) fun _ =>
    always_get_bind fun s => .when ?_
  exact bind (calm_modifyState fun c => ⟨rfl, fun _ => .inl⟩) fun _ => save_calm

theorem reinstallActive_calm {active : ActiveConfiguration} (h : active.publications ∈ S) :
    Calming S (reinstallActive E active) := by
  refine bind (calm_modifyAgent fun a => ⟨rfl, fun _ => .inl⟩) fun _ =>
    (apply_calm h active.files).bind fun _ => ?_
  refine bind (calm_modifyState fun c => ⟨rfl, fun _ => .inl⟩) fun _ =>
    save_calm.bind fun _ => (call_calm _).bind fun _ => ?_
  exact calm_modifyAgent fun a => ⟨rfl, fun _ => .inl⟩

/-- The files that are installed again were rendered from the approved publications. -/
theorem restoreActive_calm : Calming S (restoreActive E cfg) := by
  refine calm_read_bind fun s => ?_
  match h : s.agent.state.active.filter fun _ => s.canRetainActive E cfg with
  | none => exact failClosed_calm
  | some approved =>
    have hsource : approved.publications ∈ S ∪ s.sources :=
      .inr (.inr ⟨approved, (filter_eq_some_iff.mp h).1, rfl⟩)
    refine (always_check _).bind fun files => ?_
    refine bind (calm_modifyState fun c => ⟨rfl, ?_⟩) fun _ =>
      ask_calm.bind fun _ => .ite (ask_calm.bind fun _ => .ite (keepActive_calm _) ?_) ?_
    · rintro a ⟨⟩
      exact .inr hsource
    · exact (call_calm _).bind fun _ => reinstallActive_calm hsource
    · exact reinstallActive_calm hsource

theorem start_calm : Calming S (start E cfg) := by
  refine restoreActive_calm.attempt (fun _ => ?_) fun _ => ?_ <;>
    exact ask_calm.bind fun _ => calm_modifyAgent fun a => ⟨rfl, fun _ => .inl⟩

end Pieces

/-! ## Code that sets a publication

What follows holds of every invariant that code which sets no publication keeps.  Such an invariant
comes with the condition under which a publication may become the one of its zone.
-/

/-- An invariant of an agent, and a condition on new publications that no other code can undo. -/
structure Guarded (I : Sys → Prop) (A : GoString → PublicationState → Sys → Prop) : Prop where
  sound : ∀ {uid next s}, A uid next s → I s
  current : ∀ {uid p s}, I s → s.agent.state.publications.lookup uid = some p → A uid p s
  keeps : ∀ {α : Type} {p : Act α}, Calming ∅ p → Triple I p (fun _ => I) I
  calm : ∀ {α : Type} {p : Act α} {uid next}, Calming ∅ p →
    Triple (A uid next) p (fun _ => A uid next) I
  set : ∀ {uid} {next p : PublicationState}, p.fence = next.fence → p.manifest = next.manifest →
    p.plan = next.plan → Triple (A uid next)
      (modify (Sys.modifyState (Checkpoint.setPublication uid p)) : Act Unit) (fun _ => A uid next) I

namespace Guarded

variable {E : Externals} {cfg : AgentConfig} {I : Sys → Prop}
  {A : GoString → PublicationState → Sys → Prop} {uid : GoString} {next : PublicationState}

section

variable (h : Guarded I A)
include h

theorem recordResolverPublication :
    Triple (A uid next) (recordResolverPublication uid next) (fun _ => I) I := by
  refine triple_bind (h.set rfl rfl rfl) fun _ => ?_
  refine triple_bind (h.calm save_calm) fun _ => ?_
  exact triple_bind (h.set rfl rfl rfl) fun _ => (h.keeps save_calm).weaken fun _ => h.sound

theorem activatePublication :
    Triple (A uid next) (activatePublication E cfg uid next) (fun _ => I) I := by
  refine triple_bind (h.set rfl rfl rfl) fun _ => ?_
  refine triple_bind (h.calm save_calm) fun _ => triple_look fun s hs => ?_
  refine triple_when ?_ fun _ => h.sound
  refine triple_bind (h.calm retainedNodeRouting_calm) fun routing => ?_
  refine triple_bind (h.calm (reconcileWithNodeRouting_calm routing)) fun _ => ?_
  refine triple_look fun t ht => triple_when ?_ fun _ => h.sound
  refine (h.calm (verifyPublication_calm next)).attempt_bind (fun _ => ?_) fun e =>
    h.keeps (failClosed_calm.rethrow e)
  refine triple_bind (h.set rfl rfl rfl) fun _ => ?_
  exact (h.keeps (save_calm.bind fun _ => reconcile_calm.bind fun _ =>
    verifyAppliedConfiguration_calm)).weaken fun _ => h.sound

theorem applyPublication :
    Triple (A uid next) (applyPublication E cfg uid next) (fun _ => I) I := by
  unfold InternalDNS.applyPublication
  split
  · exact h.recordResolverPublication
  · exact h.activatePublication

theorem retryPendingPublications :
    Invariant I (retryPendingPublications E cfg) := by
  refine triple_look fun s hs => ?_
  refine triple_each _ fun uid _ => triple_get_bind fun t ht => ?_
  match hlookup : t.agent.state.publications.lookup uid with
  | none => exact triple_pure () fun u hu => hu ▸ ht
  | some p =>
    -- the publication that a zone has may be set again
    refine Triple.weaken (P := A uid p) ?_ (fun u (hu : u = t) => hu ▸ h.current ht hlookup)
    refine triple_look (P := A uid p) fun u hu => triple_when ?_ fun _ => h.sound
    split
    · exact h.recordResolverPublication
    · refine triple_when ?_ fun _ => h.sound
      refine triple_bind (h.calm reconcile_calm) fun _ =>
        triple_bind (h.calm (verifyPublication_calm p)) fun _ =>
        triple_bind (h.set rfl rfl rfl) fun _ => ?_
      exact (h.keeps save_calm).weaken fun _ => h.sound

theorem repeatPublication {m : PublicationManifest} :
    Triple (A m.zoneUID next) (repeatPublication E cfg m next) (fun _ => I) I := by
  refine triple_look fun s hs => triple_when ?_ fun _ => h.sound
  split
  · exact h.recordResolverPublication
  · exact (h.keeps ((verifyPublication_calm next).bind fun _ =>
      verifyAppliedConfiguration_calm)).weaken fun _ => h.sound

theorem handlePayload {env : Envelope}
    (hserving : ∀ snapshot, Invariant I (handleServing E cfg env snapshot))
    (hmanifest : ∀ m, env.payload = .manifest m →
      Invariant I (handleManifest E cfg env m)) :
    Invariant I (handlePayload E cfg env) := by
  refine triple_bind (h.keeps (call_calm _)) fun _ => ?_
  cases hpayload : env.payload with
  | serving snapshot => exact hserving snapshot
  | chunk c => exact h.keeps (handleChunk_calm env c)
  | manifest m =>
    exact (hmanifest m hpayload).attempt_bind (fun _ => h.keeps finishEvent_calm) fun e =>
      h.keeps ((gateRejectedUpdate_calm e).rethrow e)
  | ack a => exact h.keeps (handleAck_calm env a)
  | malformed => exact triple_fail _ fun _ h => h

theorem handle {env : Envelope}
    (hpayload : Invariant I (InternalDNS.handlePayload E cfg env)) :
    Invariant I (handle E cfg env) := by
  refine triple_bind (h.keeps (always_check _)) fun _ =>
    triple_bind (h.keeps (always_check _)) fun _ => ?_
  split
  · exact triple_bind (h.keeps (always_check _)) fun _ => triple_bind (h.keeps ask_calm) fun _ =>
      triple_when hpayload fun _ h => h
  · exact hpayload

theorem stepPublications (hretire : ∀ now, Invariant I (retireTombstones now)) :
    Invariant I (stepPublications E cfg) := by
  refine triple_bind (h.keeps ask_calm) fun a =>
    triple_bind (hretire a.now).attempt_ignore fun _ => ?_
  refine h.retryPendingPublications.attempt_bind (fun _ => ?_) fun e =>
    h.keeps ((gateRejectedUpdate_calm e).rethrow e)
  refine h.keeps (always_get_bind fun s => ?_)
  refine (reconcile_calm.when.bind fun _ => heartbeatPublications_calm).when.bind fun _ => ?_
  exact reconcile_calm.bind fun _ => verifyAppliedConfiguration_calm

theorem step (hretire : ∀ now, Invariant I (retireTombstones now)) :
    Invariant I (step E cfg) := by
  refine triple_look (P := I) fun s hs => ?_
  refine triple_bind (h.keeps ask_calm) fun a => triple_ite (fun _ => ?_) fun _ => ?_
  · refine h.keeps (when (bind (calm_modifyAgent fun a => ?_) fun _ =>
      failClosed_calm.rethrow _))
    exact ⟨rfl, fun _ => .inl⟩
  · exact triple_ite (fun _ => triple_fail _ fun _ h => h) fun _ =>
      triple_ite (fun _ => triple_fail _ fun _ h => h) fun _ => h.stepPublications hretire

/-- **Every input keeps the invariant**, however far its code gets, if snapshots, manifests and the
retirement of tombstones do. -/
theorem code {input : Input}
    (hserving : ∀ env snapshot, Invariant I (handleServing E cfg env snapshot))
    (hmanifest : ∀ env m, input = .handle env → env.payload = .manifest m →
      Invariant I (handleManifest E cfg env m))
    (hretire : ∀ now, Invariant I (retireTombstones now)) :
    Invariant I (input.code E cfg) := by
  cases input with
  | start => exact h.keeps start_calm
  | handle env => exact h.handle (h.handlePayload (hserving env) (hmanifest env · rfl))
  | step => exact h.step hretire
  | beginBootstrap => exact h.keeps (calm_modifyAgent fun a => ⟨rfl, fun _ => .inl⟩)
  | endBootstrap complete => exact h.keeps (calm_modifyAgent fun a => ⟨rfl, fun _ => .inl⟩)

end

end Guarded

/-! ## Safe agents

The triples serve a second purpose.  If nothing that an agent is offered takes its fences past some
limit, they never pass it.
-/

/-- Publications with the same fences. -/
def SameFences (m n : GoMap GoString PublicationState) : Prop :=
  ∀ uid, (m.lookup uid).map PublicationState.fence = (n.lookup uid).map PublicationState.fence

theorem SameFences.refl (m : GoMap GoString PublicationState) : SameFences m m := fun _ => rfl

/-- A limit on the fences of a checkpoint. -/
structure Limit where
  holds : Checkpoint → Prop
  alike : ∀ {c d : Checkpoint}, holds d → SameFences c.publications d.publications →
    c.contributionFences = d.contributionFences → holds c

/-- No limit at all. -/
def Limit.none : Limit := ⟨fun _ => True, fun _ _ _ => trivial⟩

/-- Checkpoints with the same publications and contribution fences. -/
theorem Limit.of_eq (L : Limit) {c d : Checkpoint} (hd : L.holds d)
    (hp : c.publications = d.publications) (hf : c.contributionFences = d.contributionFences) :
    L.holds c :=
  L.alike hd (hp ▸ .refl _) hf

/-- The agent is safe, and neither its memory nor its disk has passed the limit. -/
structure Sys.Within (L : Limit) (s : Sys) : Prop where
  safe : s.Safe
  limit : L.holds s.agent.state
  disk : ∀ d ∈ s.disk, L.holds d

/-- The publication may become the one of the zone. -/
structure Sys.Allowed (L : Limit) (uid : GoString) (next : PublicationState) (s : Sys) : Prop
    extends Sys.Within L s where
  fence : ∀ p, s.agent.state.publications.lookup uid = some p → p.fence.key ≤ next.fence.key
  covered : next.plan.CoveredBy (fencesOn s.disk)
  room : ∀ p, p.fence = next.fence → L.holds (s.agent.state.setPublication uid p)

section Publications

variable {E : Externals} {cfg : AgentConfig} {L : Limit} {uid : GoString} {next : PublicationState}
  {s : Sys} {p : PublicationState}

/-- Code that keeps a safe state safe, and within the limit. -/
abbrev SafeFrom (L : Limit) (P : Sys → Prop) {α : Type} (p : Act α) : Prop :=
  Triple P p (fun _ => Sys.Within L) (Sys.Within L)

theorem Kept.within {s t : Sys} (h : Kept s t) (hs : s.Within L) : t.Within L := by
  refine ⟨h.safe, L.of_eq hs.limit h.publications h.contributions, fun d hd => ?_⟩
  rcases h.disk with hsame | ⟨e, he, hp, hf⟩
  · exact hs.disk d (hsame ▸ hd)
  · obtain rfl := mem_unique he hd
    exact L.of_eq hs.limit hp hf

/-- Code that sets no publication cannot make one inadmissible. -/
theorem calm_allowed {α : Type} {p : Act α} (hp : Calming ∅ p) :
    Triple (Sys.Allowed L uid next) p (fun _ => Sys.Allowed L uid next) (Sys.Within L) := by
  refine triple_of_always hp (fun s t hst h => ?_) fun _ h => h.toWithin
  have ht := hst.keeps h.safe (fun _ hm => hm.elim)
  refine ⟨ht.within h.toWithin, fun p hlookup => h.fence p (ht.publications ▸ hlookup),
    h.covered.grow ht.fences, fun p hp => L.of_eq (h.room p hp) ?_ ht.contributions⟩
  simp [setPublication, ht.publications]

theorem keeping_safe {α : Type} {p : Act α} (hp : Keeping ∅ p) : SafeFrom L (Sys.Within L) p :=
  triple_of_always hp (fun _ _ hst h => (hst h.safe fun _ hm => hm.elim).within h) fun _ h => h

theorem calm_safe {α : Type} {p : Act α} (hp : Calming ∅ p) : SafeFrom L (Sys.Within L) p :=
  keeping_safe hp.keeping

/-- **The step that sets a publication**, with any marks that do not change fence and plan. -/
theorem setPublication_allowed (hfence : p.fence = next.fence) (hplan : p.plan = next.plan) :
    Triple (Sys.Allowed L uid next)
      (modify (Sys.modifyState (setPublication uid p)) : Act Unit)
      (fun _ => Sys.Allowed L uid next) (Sys.Within L) := by
  refine triple_modify fun s ⟨⟨hs, _, hdisk⟩, hle, hcovered, hroom⟩ => ?_
  have hgrow : PublicationsGrow s.agent.state.publications
      (s.agent.state.publications.insert uid p) :=
    GoMap.Grows.insert (fun q => le_refl q.fence.key) fun old hold => hfence ▸ hle old hold
  refine ⟨⟨{ hs with
      below := fun d hd => ?_
      published := GoMap.forall_insert hs.published (hplan ▸ hcovered) }, hroom p hfence, hdisk⟩,
    fun q hq => ?_, hcovered, fun q hq => L.of_eq (hroom q hq) (insert_insert _) rfl⟩
  · exact ⟨(hs.below d hd).publications.trans hgrow, (hs.below d hd).contributions⟩
  · change (s.agent.state.publications.insert uid p).lookup uid = some q at hq
    rw [lookup_insert] at hq
    cases hq
    exact hfence ▸ le_refl _

/-- The publication that a zone has may be set again. -/
theorem Sys.Within.allowed (hs : s.Within L) (h : s.agent.state.publications.lookup uid = some next) :
    s.Allowed L uid next := by
  refine ⟨hs, fun p hp => ?_, hs.safe.published uid next h, fun p hp => ?_⟩
  · rw [h] at hp
    cases hp
    exact le_refl _
  · refine L.alike hs.limit (fun k => ?_) rfl
    change ((s.agent.state.publications.insert uid p).lookup k).map PublicationState.fence = _
    by_cases hk : k = uid
    · rw [hk, lookup_insert, h, map_some, map_some, hp]
    · rw [lookup_insert_ne hk]

theorem guarded_within : Guarded (Sys.Within L) (Sys.Allowed L) where
  sound h := h.toWithin
  current hs h := hs.allowed h
  keeps := calm_safe
  calm := calm_allowed
  set hfence _ hplan := setPublication_allowed hfence hplan

/-! ### Retiring tombstones -/

theorem PublicationState.fence_retire (now : Time) (p : PublicationState) :
    ((p.retire now).getD p).fence = p.fence := by
  unfold retire
  split_ifs <;> rfl

theorem PublicationState.coveredBy_retire (now : Time) {fences : GoMap GoString ContributionFence}
    (h : p.plan.CoveredBy fences) :
    ((p.retire now).getD p).plan.CoveredBy fences := by
  unfold retire
  split_ifs
  · exact h
  · exact h
  · exact emptyPlan_coveredBy fences
  · exact h

theorem sameFences_retire (now : Time) (m : GoMap GoString PublicationState) :
    SameFences (m.mapValues fun p => (p.retire now).getD p) m := by
  intro uid
  rw [GoMap.lookup_mapValues, Option.map_map]
  exact congrArg (Option.map · _) (funext (PublicationState.fence_retire now))

theorem Sys.Within.setPublications (hs : s.Within L) {m : GoMap GoString PublicationState}
    (hsame : SameFences m s.agent.state.publications) (hcovered : Covered m s.disk) :
    (s.modifyState (setPublications m)).Within L := by
  have hgrow : PublicationsGrow s.agent.state.publications m :=
    GoMap.Grows.of_map_eq (fun p q (h : p.fence = q.fence) => h ▸ le_refl _) hsame
  refine ⟨⟨hs.safe.durable, fun d hd => ?_, hcovered, hs.safe.approved⟩,
    L.alike hs.limit hsame rfl, hs.disk⟩
  exact ⟨(hs.safe.below d hd).publications.trans hgrow, (hs.safe.below d hd).contributions⟩

/-- The publications may be put back. -/
structure Sys.Restorable (L : Limit) (previous : GoMap GoString PublicationState) (s : Sys) : Prop
    extends Sys.Within L s where
  same : SameFences previous s.agent.state.publications
  covered : Covered previous s.disk

theorem retireTombstones_safe (now : Time) : SafeFrom L (Sys.Within L) (retireTombstones now) := by
  refine triple_get_bind fun s hs => triple_when ?_ fun t ht => ht ▸ hs
  refine triple_bind (Q := fun _ => Sys.Restorable L s.agent.state.publications)
    (triple_modify ?_) fun _ => ?_
  · rintro t rfl
    have hsame := sameFences_retire now t.agent.state.publications
    refine ⟨hs.setPublications hsame ?_, fun uid => (hsame uid).symm, hs.safe.published⟩
    intro uid p hp
    rw [GoMap.lookup_mapValues] at hp
    obtain ⟨q, hq, rfl⟩ := map_eq_some_iff.mp hp
    exact PublicationState.coveredBy_retire now (hs.safe.published uid q hq)
  · have hkept : Triple (Sys.Restorable L s.agent.state.publications) (attempt save)
        (fun _ => Sys.Restorable L s.agent.state.publications) (Sys.Within L) := by
      refine triple_of_always (always_attempt (save_calm (S := ∅))) (fun t u htu h => ?_)
        fun _ h => h.toWithin
      have hu := htu.keeps h.safe fun _ hm => hm.elim
      exact ⟨hu.within h.toWithin, hu.publications ▸ h.same, h.covered.grow hu.fences⟩
    refine triple_bind hkept fun r => ?_
    cases r with
    | ok _ => exact triple_pure () fun _ h => h.toWithin
    | error e =>
      exact triple_bind (Q := fun _ => Sys.Within L)
        (triple_modify fun t h => h.toWithin.setPublications h.same h.covered) fun _ =>
        triple_fail e fun _ h => h

/-! ### Accepting a manifest -/

/-- The content of the manifest is this plan. -/
def DecodesTo (E : Externals) (m : PublicationManifest) (plan : PublicationPlan) : Prop :=
  ∃ chunks payload, verifyManifest E m chunks = .ok payload ∧ E.decodePlan payload = some plan

/-- Accepting the manifest takes no checkpoint past the limit. -/
structure PublicationManifest.Within (E : Externals) (L : Limit) (m : PublicationManifest) : Prop where
  fence : ∀ c p, L.holds c → p.fence = ⟨m.writerEpoch, m.revision⟩ →
    L.holds (c.setPublication m.zoneUID p)
  contributions : ¬ m.tombstone → ∀ c plan, L.holds c → DecodesTo E m plan →
    L.holds (c.commitContributionFences plan)

/-- The manifest's fence may become the one of its zone. -/
structure Sys.Ready (L : Limit) (m : PublicationManifest) (s : Sys) : Prop extends Sys.Within L s where
  fence : ∀ p, s.agent.state.publications.lookup m.zoneUID = some p →
    p.fence.key ≤ toLex (m.writerEpoch, m.revision)

theorem triple_check {α : Type} {P F : Sys → Prop} (x : Except GoString α) (hF : ∀ s, P s → F s) :
    Triple P (check x) (fun a s => x = .ok a ∧ P s) F := by
  cases x with
  | ok a => exact triple_pure a fun s hs => ⟨rfl, hs⟩
  | error e => exact triple_fail _ hF

/-- A save that succeeds has put the fences of the memory on disk. -/
theorem save_committed (hs : s.Within L) : Triple (· = s) save
      (fun _ t => Kept s t ∧ fencesOn t.disk = s.agent.state.contributionFences) (Sys.Within L) := by
  have hask : Triple (Kept s) ask (fun _ => Kept s) (Sys.Within L) :=
    triple_of_always (ask_calm (S := ∅))
      (fun t u htu ht => ht.trans (htu.keeps ht.safe fun _ hm => hm.elim)) fun _ ht => ht.within hs
  refine triple_get_bind fun t ht => triple_ite (fun _ => triple_fail _ fun u hu => ?_) fun _ => ?_
  · exact hu ▸ ht ▸ hs
  refine triple_bind (Q := fun _ => Kept s) (triple_modify fun u hu => ?_) fun _ =>
    triple_bind hask fun a => ?_
  · rw [hu, ht]
    exact (calm_modifyState (S := ∅) still_prune s).keeps hs.safe fun _ hm => hm.elim
  have hwrite : Triple (Kept s) (modify (Sys.write a.now) : Act Unit)
      (fun _ u => Kept s u ∧ fencesOn u.disk = s.agent.state.contributionFences) (Sys.Within L) :=
    triple_modify fun u hu => ⟨hu.trans (hu.safe.write a.now), hu.contributions⟩
  match a.save with
  | .saved => exact hwrite
  | .failed => exact triple_fail _ fun _ hu => hu.within hs
  | .failedAfterRename =>
    exact triple_bind hwrite fun _ => triple_fail _ fun _ hu => hu.1.within hs

/-- The fences of an accepted plan rise in memory. -/
theorem Sys.Safe.commit (hs : s.Safe) {plan : PublicationPlan}
    (hgrow : FencesGrow s.agent.state.contributionFences
      (s.agent.state.commitContributionFences plan).contributionFences) :
    (s.modifyState (commitContributionFences plan)).Safe :=
  ⟨hs.durable, fun d hd => ⟨(hs.below d hd).publications, (hs.below d hd).contributions.trans hgrow⟩,
    hs.published, hs.approved⟩

/-- **An accepted plan is covered by the disk**, before anything is done with it. -/
theorem acceptPlan_allowed {m : PublicationManifest} (hm : m.Within E L) (hlive : ¬ m.tombstone) :
    Triple (Sys.Ready L m) (acceptPlan E m) (fun next => Sys.Allowed L m.zoneUID next)
      (Sys.Within L) := by
  refine triple_get_bind fun s hs => ?_
  have hsafe : ∀ t, t = s → t.Within L := fun t ht => ht ▸ hs.toWithin
  refine triple_bind (triple_check _ hsafe) fun payload => ?_
  refine triple_bind (triple_check _ fun t ht => hsafe t ht.2) fun plan => ?_
  refine triple_bind (triple_check _ fun t ht => hsafe t ht.2.2) fun _ => ?_
  refine triple_bind (triple_check _ fun t ht => hsafe t ht.2.2.2) fun _ => ?_
  refine triple_bind (triple_check _ fun t ht => hsafe t ht.2.2.2.2) fun _ => ?_
  -- All checks have passed in the state that was read.
  rintro t ⟨haccept, _, hvalid, hdecode, hverify, rfl⟩
  obtain ⟨hgrow, hcovers⟩ :=
    commitContributionFences_spec (PublicationPlan.validate_eq_ok.mp hvalid) haccept
  have hcommit : (t.modifyState (commitContributionFences plan)).Within L :=
    ⟨hs.safe.commit hgrow,
      hm.contributions hlive _ _ hs.limit ⟨_, payload, hverify, orError_eq_ok.mp hdecode⟩, hs.disk⟩
  refine (triple_bind (triple_modify fun u hu => ?_) fun _ => triple_bind (save_committed hcommit)
    fun _ => triple_pure _ fun u hu => ?_ : Triple (· = t) _ _ _) t rfl
  · exact congrArg _ hu
  · have hu' := hu.1.within hcommit
    refine ⟨hu', fun p hp => hs.fence p ?_, ?_, fun p hp => hm.fence _ p hu'.limit hp⟩
    · exact hu.1.publications ▸ hp
    · exact hu.2 ▸ hcovers

theorem fenceOf_of_lookup {c : Checkpoint} (h : c.publications.lookup uid = some p) :
    c.fenceOf uid = p.fence := by
  rw [fenceOf, h, map_some, getD_some]

theorem handleManifest_safe (env : Envelope) {m : PublicationManifest} (hm : m.Within E L) :
    SafeFrom L (Sys.Within L) (handleManifest E cfg env m) := by
  refine triple_bind (calm_safe (always_check _)) fun _ =>
    triple_bind (calm_safe (always_check _)) fun _ => triple_get_bind fun s hs => ?_
  have hsafe : ∀ t, t = s → t.Within L := fun t ht => ht ▸ hs
  refine triple_ite (fun _ => triple_pure () hsafe) fun hold => ?_
  refine triple_ite (fun _ => triple_fail _ hsafe) fun _ => ?_
  have hready : s.Ready L m := ⟨hs, fun p hp => by
    rw [fenceOf_of_lookup hp, compare_neg_iff] at hold
    exact not_lt.mp hold⟩
  split
  case h_1 _ p hp =>
    refine guarded_within.repeatPublication.weaken fun t ht => ht ▸ hs.allowed ?_
    exact (filter_eq_some_iff.mp hp).1
  case h_2 =>
    refine triple_ite (fun _ => triple_fail _ hsafe) fun _ => triple_ite (fun _ => ?_) fun hlive => ?_
    · have hplan : (((s.agent.state.publications.lookup m.zoneUID).map
          PublicationState.plan).getD emptyPlan).CoveredBy (fencesOn s.disk) := by
        match hp : s.agent.state.publications.lookup m.zoneUID with
        | none => exact emptyPlan_coveredBy _
        | some p => exact hs.safe.published m.zoneUID p hp
      have hallowed : s.Allowed L m.zoneUID (tombstonePublication m _) :=
        ⟨hs, hready.fence, hplan, fun p hp => hm.fence _ p hs.limit hp⟩
      exact guarded_within.applyPublication.weaken fun t ht => ht ▸ hallowed
    · refine Triple.weaken ?_ (fun t (ht : t = s) => ht ▸ hready)
      exact triple_bind (acceptPlan_allowed hm hlive) fun next =>
        guarded_within.applyPublication

/-- No manifest that the event offers takes a checkpoint past the limit. -/
def Envelope.Within (E : Externals) (L : Limit) (env : Envelope) : Prop :=
  ∀ m, env.payload = .manifest m → m.Within E L

/-- No manifest that the input offers takes a checkpoint past the limit. -/
def Input.Within (E : Externals) (L : Limit) (input : Input) : Prop :=
  ∀ env, input = .handle env → env.Within E L

theorem code_safe {input : Input} (hinput : input.Within E L) :
    SafeFrom L (Sys.Within L) (input.code E cfg) :=
  guarded_within.code (fun env snapshot => keeping_safe (handleServing_keeping env snapshot))
    (fun env m henv hm => handleManifest_safe env (hinput env henv m hm)) retireTombstones_safe

end Publications

/-! ## Whole histories -/

section Histories

variable (E : Externals) (cfg : AgentConfig) {L : Limit}

/-- What holds of a machine: its disk is durable, an agent that runs is safe, and neither has passed
the limit. -/
structure Machine.Safe (L : Limit) (m : Machine) : Prop where
  durable : Durable m.disk m.log
  limit : ∀ d ∈ m.disk, L.holds d
  running : ∀ agent ∈ m.agent, ∀ answers, (⟨agent, m.disk, answers, m.log⟩ : Sys).Within L

theorem Machine.fresh_safe : Machine.fresh.Safe L := by
  refine ⟨⟨List.Pairwise.nil, rfl, ?_, ?_, ?_, ?_⟩, ?_, ?_⟩ <;> simp [fresh, writes]

/-- An agent that starts from its disk is safe. -/
theorem Durable.restart {disk : Option Checkpoint} {log : List Effect} (h : Durable disk log)
    {c : Checkpoint} (hc : c ∈ disk) (answers : List Answer) :
    (⟨newAgent c.pruneSupersededChunks, disk, answers, log⟩ : Sys).Safe := by
  refine ⟨h, fun d hd => ?_, h.published c hc, h.approved c hc⟩
  cases mem_unique hd hc
  exact .of_eq rfl rfl

theorem load_eq_ok {c d : Checkpoint} (h : c.load E = .ok d) : d = c.pruneSupersededChunks := by
  simp only [load, Except.bind_eq_ok] at h
  obtain ⟨-, -, -, -, -, -, -, -, -, -, -, -, h⟩ := h
  exact (Except.ok.inj h).symm

theorem Machine.Safe.process {m : Machine} (h : m.Safe L) (hnew : L.holds newCheckpoint)
    {input : Input} {agent : Agent} (ha : m.process E input = some agent) (answers : List Answer) :
    (⟨agent, m.disk, answers, m.log⟩ : Sys).Within L := by
  cases input with
  | start =>
    simp only [Machine.process] at ha
    match hd : m.disk with
    | none =>
      rw [hd] at ha
      cases ha
      exact ⟨⟨hd ▸ h.durable, nofun, fun uid p hp => by simp [newAgent, newCheckpoint] at hp, nofun⟩,
        hnew, nofun⟩
    | some c =>
      rw [hd] at ha
      match hload : c.load E with
      | .error e => simp [hload, Except.toOption] at ha
      | .ok d =>
        simp only [hload, Except.toOption, map_some, some.injEq] at ha
        subst ha
        rw [load_eq_ok E hload]
        exact ⟨(hd ▸ h.durable).restart rfl answers, L.of_eq (h.limit c hd) rfl rfl, hd ▸ h.limit⟩
  | handle | step | beginBootstrap | endBootstrap => exact h.running agent ha answers

theorem Machine.after_safe {r : Exit Failure Unit × Sys} (h : r.2.Within L) :
    (Machine.after r).Safe L := by
  obtain ⟨e, s⟩ := r
  have hrunning : ∀ agent ∈ some s.agent, ∀ answers,
      (⟨agent, s.disk, answers, s.log⟩ : Sys).Within L := by
    rintro agent ⟨⟩ answers
    exact ⟨⟨h.safe.durable, h.safe.below, h.safe.published, h.safe.approved⟩, h.limit, h.disk⟩
  cases e with
  | crash => exact ⟨h.safe.durable, h.disk, fun _ hnone => (not_mem_none _ hnone).elim⟩
  | ok _ => exact ⟨h.safe.durable, h.disk, hrunning⟩
  | error _ => exact ⟨h.safe.durable, h.disk, hrunning⟩

/-- **One input keeps the machine safe.** -/
theorem Machine.Safe.run {m : Machine} (h : m.Safe L) (hnew : L.holds newCheckpoint)
    {input : Input × List Answer} (hinput : input.1.Within E L) : (m.run E cfg input).Safe L := by
  unfold Machine.run
  match hagent : m.process E input.1 with
  | none => exact ⟨h.durable, h.limit, fun _ hnone => (not_mem_none _ hnone).elim⟩
  | some agent => exact after_safe ((code_safe hinput).final (h.process E hnew hagent input.2))

/-- Every history keeps the machine safe. -/
theorem Machine.runs_safe (hnew : L.holds newCheckpoint) {inputs : List (Input × List Answer)}
    (hinputs : ∀ input ∈ inputs, input.1.Within E L) : (Machine.runs E cfg inputs).Safe L := by
  unfold runs
  generalize hm : fresh = m
  have h : m.Safe L := hm ▸ fresh_safe
  clear hm
  induction inputs generalizing m with
  | nil => exact h
  | cons input inputs ih =>
    obtain ⟨hfirst, hrest⟩ := List.forall_mem_cons.mp hinputs
    exact ih hrest (m.run E cfg input) (h.run E cfg hnew hfirst)

theorem Input.within_none (input : Input) : input.Within E .none :=
  fun _ _ _ _ => ⟨fun _ _ _ _ => trivial, fun _ _ _ _ _ => trivial⟩

/-! ### The fences of retired tombstones -/

/-- The fences in memory are those of `m`; so are those on disk, once the disk has changed. -/
structure Sys.FencedBy (m : GoMap GoString PublicationState) (before : Option Checkpoint) (s : Sys) :
    Prop where
  memory : SameFences s.agent.state.publications m
  disk : s.disk = before ∨ ∃ d ∈ s.disk, SameFences d.publications m

/-- Saving changes no fence in memory, and puts the ones in memory on disk or none. -/
theorem save_fencedBy (m : GoMap GoString PublicationState) (before : Option Checkpoint) :
    Invariant (Sys.FencedBy m before) save := by
  have hask : Invariant (Sys.FencedBy m before) ask := by
    rintro ⟨agent, disk, answers, log⟩ hs
    cases answers with
    | nil => exact hs
    | cons a rest => exact ⟨hs.memory, hs.disk⟩
  have hwrite (now : Time) : Invariant (Sys.FencedBy m before) (modify (Sys.write now) : Act Unit) :=
    triple_modify fun s hs => ⟨hs.memory, .inr ⟨_, rfl, hs.memory⟩⟩
  refine triple_look fun s hs => ?_
  refine triple_ite (fun _ => triple_fail _ fun _ h => h) fun _ => ?_
  refine triple_bind (Q := fun _ => Sys.FencedBy m before)
    (triple_modify fun t ht => ⟨ht.memory, ht.disk⟩) fun _ => triple_bind hask fun a => ?_
  match a.save with
  | .saved => exact hwrite a.now
  | .failed => exact triple_fail _ fun _ h => h
  | .failedAfterRename => exact triple_bind (hwrite a.now) fun _ => triple_fail _ fun _ h => h

/-- **Retiring a tombstone keeps the zone's fence**, in memory and on disk, whether or not the save
succeeds. -/
theorem retireTombstones_fencedBy (now : Time) (s : Sys) :
    (retireTombstones now s).2.FencedBy s.agent.state.publications s.disk := by
  have hsame : SameFences s.agent.state.publications s.agent.state.publications := fun _ => rfl
  have hs : s.FencedBy s.agent.state.publications s.disk := ⟨hsame, .inl rfl⟩
  refine Triple.final (P := (· = s)) (triple_get_bind fun t ht => ?_) rfl
  subst ht
  refine triple_when ?_ fun u hu => hu ▸ hs
  refine triple_bind (Q := fun _ => Sys.FencedBy t.agent.state.publications t.disk)
    (triple_modify ?_) fun _ => ?_
  · rintro u rfl
    exact ⟨sameFences_retire now _, .inl rfl⟩
  · refine (save_fencedBy _ _).attempt_bind (fun _ => triple_pure () fun _ h => h) fun e => ?_
    exact triple_bind (Q := fun _ => Sys.FencedBy t.agent.state.publications t.disk)
      (triple_modify fun u hu => ⟨hsame, hu.disk⟩) fun _ => triple_fail e fun _ h => h

/-- **What no history of an agent can undo.**  Take any sequence of starts, events, steps and
bootstraps, each with any answers from the outside: saves that fail before or after the new
checkpoint has replaced the old one, and a process that is killed at any call.

* The disk holds the last checkpoint that was written, and every checkpoint ever written follows
  those before it: no fence of a zone and no fence of a contribution was lost or lowered, and no
  retired contribution became unretired.
* Whenever files were installed, the observations behind the publications they come from were
  already on disk.
* Retiring tombstones, in any state, keeps the fence of every zone. -/
theorem fences_never_fall (inputs : List (Input × List Answer)) : let m := Machine.runs E cfg inputs
    m.disk = (writes m.log).getLast? ∧
      (writes m.log).Pairwise Checkpoint.Below ∧
      (∀ source files disk, Effect.install source files disk ∈ m.log → Covered source disk) ∧
      ∀ now s, (retireTombstones now s).2.FencedBy s.agent.state.publications s.disk := by
  have hsafe : (runs E cfg inputs).Safe .none :=
    runs_safe E cfg trivial fun input _ => input.1.within_none E
  have h := hsafe.durable
  exact ⟨h.last, h.ordered, h.installs, retireTombstones_fencedBy⟩

end Histories

end InternalDNS
