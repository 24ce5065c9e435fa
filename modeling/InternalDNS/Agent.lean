import InternalDNS.Continuity
import InternalDNS.GoProcess
import InternalDNS.Manifest

/-! # The serving agent

One agent process: its memory, the checkpoint on its disk, and its handlers.  Every call that
leaves the process takes the next `Answer`; a process that gets no further answer was killed at
that call.  A save writes a temporary file and renames it, so it can fail with either the old or
the new checkpoint on disk.

The log records every checkpoint that reached the disk, and for every installation of files the
publications they were rendered from and the checkpoint on disk at that moment.  Metrics, readiness
probes and acknowledgements to the control plane change nothing here and are left out, as is how
the files of the DNS front end are rendered.
-/
namespace InternalDNS

open Go Go.Prog

/-- `serving.Mode`. -/
inductive Mode where
  | resolver
  | combined
  deriving DecidableEq

/-- Whether a failed transaction left the installed files as they were. -/
inductive FailureKind where
  | preserved
  | uncertain
  | other
  deriving DecidableEq

/-- An error. -/
structure Failure where
  kind : FailureKind
  text : GoString

/-- An error that is not about a transaction. -/
def Failure.of (text : GoString) : Failure := ⟨.other, text⟩

/-- How writing the checkpoint went. -/
inductive SaveResult where
  | saved
  | failed
  | failedAfterRename
  deriving DecidableEq

/-- What the outside answers to one call. -/
structure Answer where
  /-- The call succeeded, or the condition it asked about holds. -/
  ok : Bool
  now : Time
  save : SaveResult
  install : Option FailureKind
  /-- The bindings whose probe failed. -/
  probes : List GoString

/-- The files of a configuration by path. -/
abbrev Files := GoMap GoString GoString

/-- `serving.Config`, with the renderer that it sets up. -/
structure AgentConfig where
  region : GoString
  shard : GoString
  mode : Mode
  nodeAuthoritative : Bool
  maxBindings : Nat
  /-- A publication verifier is configured. -/
  verifies : Bool
  nodeDNSDistPath : GoString
  /-- `Agent.renderDesired` of the checkpoint for the active bindings. -/
  render : Checkpoint → List GoString → Except GoString Files
  /-- `Agent.refreshActiveDNSDist` of the approved files. -/
  refreshActiveDNSDist : Files → Except GoString Files

/-- `serving.installedPublication`, without the views that only the verifier reads. -/
structure InstalledPublication where
  identity : GoString
  effectiveHash : GoString
  deriving DecidableEq

/-- The memory of an agent. -/
structure Agent where
  state : Checkpoint
  needsActivation : Bool
  installedPublications : GoMap GoString InstalledPublication
  restoredAt : Option Time
  bootstrapComplete : Bool
  bootstrapInProgress : Bool
  checkpointWithdrawn : Bool

/-- What an agent did to the machine it runs on. -/
inductive Effect where
  | write (c : Checkpoint)
  | install (source : GoMap GoString PublicationState) (files : Files) (disk : Option Checkpoint)

/-- A running agent, its disk, the answers it will get, and what it has done. -/
structure Sys where
  agent : Agent
  disk : Option Checkpoint
  answers : List Answer
  log : List Effect

/-- A piece of the agent's code. -/
abbrev Act := Prog Sys Failure

variable (E : Externals) (cfg : AgentConfig)

/-! ## The disk and the outside -/

/-- The next answer; without one, the process was killed. -/
def ask : Act Answer := fun s =>
  match s.answers with
  | [] => (.crash, s)
  | a :: rest => (.ok a, { s with answers := rest })

/-- A call that can fail. -/
def call (text : GoString) : Act Unit := do
  let a ← ask
  if a.ok then pure () else fail (.of text)

def Sys.modifyAgent (f : Agent → Agent) (s : Sys) : Sys := { s with agent := f s.agent }

def Sys.modifyState (f : Checkpoint → Checkpoint) (s : Sys) : Sys :=
  { s with agent := { s.agent with state := f s.agent.state } }

/-- The new checkpoint has reached the disk. -/
def Sys.write (now : Time) (s : Sys) : Sys :=
  let c := { s.agent.state with updatedAt := now }
  { s with disk := some c, log := s.log ++ [.write c] }

/-- `stateStore.Save`.  Superseded chunks are dropped from memory as well. -/
def save : Act Unit := do
  let s ← get
  if s.agent.state.formatVersion ≠ checkpointFormatVersion then
    fail (.of (lit "cannot write unsupported checkpoint format "
      ++ itoa s.agent.state.formatVersion))
  else do
    modify (Sys.modifyState Checkpoint.pruneSupersededChunks)
    let a ← ask
    match a.save with
    | .saved => modify (Sys.write a.now)
    | .failed => fail (.of (lit "write checkpoint"))
    | .failedAfterRename => do
      modify (Sys.write a.now)
      fail (.of (lit "sync checkpoint directory"))

/-- `FileTransaction.Apply` and `ApplyForce` of files rendered from `source`. -/
def apply (source : GoMap GoString PublicationState) (files : Files) : Act Unit := do
  modify fun s => { s with log := s.log ++ [.install source files s.disk] }
  let a ← ask
  match a.install with
  | none => pure ()
  | some kind => fail ⟨kind, lit "apply serving configuration"⟩

/-! ## What the agent reads off its state -/

/-- `serving.hashFiles`. -/
def hashFiles (files : Files) : GoString :=
  E.hash ((files.entries.insertionSort (·.1 ≤ ·.1)).flatMap fun e => e.1 ++ '\x00' :: e.2)

/-- `Agent.publicationViewsAt` is not empty: a live binding attaches the zone at or below the
publication. -/
def Checkpoint.hasViews (c : Checkpoint) (p : PublicationState) : Bool :=
  (c.snapshot.elim [] ServingSnapshot.bindings).any fun b =>
    !b.tombstone && !b.configurationPending && b.zones.any fun z =>
      !z.pending && z.zoneUID = p.plan.zoneUID && compare p.fence.epoch p.fence.revision
        z.requiredPublicationEpoch z.requiredPublicationRevision ≥ 0

/-- `serving.publicationIdentity`. -/
def publicationIdentity (p : PublicationState) : GoString :=
  itoa p.fence.epoch ++ ['/'] ++ itoa p.fence.revision ++ ['/'] ++ itoa p.localRevision ++ ['/'] ++
    E.hash (E.planJSON p.plan)

def Sys.canRetainActive (s : Sys) : Bool :=
  s.agent.state.canRetainActive E.hash cfg.nodeAuthoritative

/-- The agent serves only after its bootstrap, if it is authoritative. -/
def Agent.waitsForBootstrap (a : Agent) : Bool := cfg.nodeAuthoritative && !a.bootstrapComplete

/-- The bindings that `reconcileDesired` starts out with as active. -/
def ServingSnapshot.activeUIDs (s : ServingSnapshot) : List GoString :=
  (s.bindings.filter fun b => !b.tombstone && !b.configurationPending).map Binding.bindingUID

/-! ## Approval and gating -/

/-- `Agent.failClosed`. -/
def failClosed : Act Unit := modify fun s => { s with agent := { s.agent with
  needsActivation := true, state := { s.agent.state with withdrawing := none } } }

/-- `Agent.withdrawApproval`. -/
def withdrawApproval : Act Unit := modify (Sys.modifyState fun c =>
  { c with withdrawing := if c.active.isSome then c.active else c.withdrawing, active := none })

/-- `Agent.gateRejectedUpdate`. -/
def gateRejectedUpdate (e : Failure) : Act Unit := do
  let s ← get
  let installed := s.agent.state.active.any fun a => s.agent.state.renderedHash = hashFiles E a.files
  if e.kind ≠ .uncertain ∧ s.canRetainActive E cfg ∧
      (e.kind = .preserved ∨ (!s.agent.needsActivation ∧ installed)) then pure ()
  else failClosed

/-- The two configurations have the same JSON text. -/
def ActiveConfiguration.sameJSON (a b : ActiveConfiguration) : Bool :=
  let same {V : Type} [DecidableEq V] (m n : GoMap GoString V) : Bool :=
    m.entries.all (fun e => n.lookup e.1 = some e.2) && n.entries.all fun e => m.lookup e.1 = some e.2
  a.snapshot = b.snapshot && same a.publications b.publications && same a.files b.files &&
    a.nodeAuthoritative = b.nodeAuthoritative

/-- Set what is approved, and what is being withdrawn. -/
def Checkpoint.setApproval (active withdrawing : Option ActiveConfiguration) (c : Checkpoint) :
    Checkpoint := { c with active := active, withdrawing := withdrawing }

/-- `Agent.approveConfiguration`. -/
def approveConfiguration (snapshot : ServingSnapshot) (files : Files) : Act Unit := do
  let s ← get
  let state := s.agent.state
  let candidate : ActiveConfiguration :=
    ⟨snapshot, state.publications, files, cfg.nodeAuthoritative⟩
  if state.active.any (·.sameJSON candidate) ∧ state.withdrawing.isNone then
    call (lit "commit activation")
  else do
    modify (Sys.modifyState (Checkpoint.setApproval (some candidate) none))
    let result ← attempt save
    match result with
    | .ok _ => call (lit "commit activation")
    | .error e => do
      modify (Sys.modifyState (Checkpoint.setApproval state.active state.withdrawing))
      fail e

/-! ## Verification -/

/-- `Agent.verifyPublication`. -/
def verifyPublication (p : PublicationState) : Act Unit := do
  let s ← get
  if p.manifest.tombstone ∨ ¬ cfg.verifies ∨ ¬ s.agent.state.hasViews p then pure ()
  else if (s.agent.installedPublications.lookup p.plan.zoneUID).any fun i =>
      i.identity = publicationIdentity E p then call (lit "verify publication")
  else fail (.of (lit "publication has no matching activated file identity"))

/-- The applied publication that `Agent.appliedPublicationError` complains about. -/
def Agent.misapplied (a : Agent) (uid : GoString) (p : PublicationState) : Bool :=
  !p.manifest.tombstone &&
    match cfg.mode with
    | .combined => a.state.hasViews p && !(a.installedPublications.lookup uid).any fun i =>
        i.identity = publicationIdentity E p && i.effectiveHash = effectivePlanHash E p.plan
    | .resolver => p.effectiveHash ≠ effectivePlanHash E p.plan

/-- `Agent.verifyAppliedConfiguration`. -/
def verifyAppliedConfiguration : Act Unit := do
  call (lit "context canceled")
  let s ← get
  if s.agent.state.publications.entries.any fun e => s.agent.misapplied E cfg e.1 e.2 then do
    failClosed
    fail (.of (lit "publication configuration differs from activation; refusing activation"))
  else call (lit "context canceled")

/-- Run `f` on each publication, as it is when its turn comes. -/
def eachPublication (f : GoString → PublicationState → Act Unit) : Act Unit := do
  let s ← get
  each (fun uid => do
    let s ← get
    match s.agent.state.publications.lookup uid with
    | none => pure ()
    | some p => f uid p) s.agent.state.publications.keys

/-! ## Reconciliation -/

/-- The approval is withdrawn before files are installed that it no longer covers. -/
def withdrawUnretained : Act Unit := do
  let s ← get
  when (¬ s.canRetainActive E cfg) do
    when s.agent.state.active.isSome (call (lit "begin activation"))
    withdrawApproval
    save

/-- The installation step of `Agent.reconcileDesired`. -/
def installRendered (files : Files) : Act Unit := do
  let s ← get
  if hashFiles E files ≠ s.agent.state.renderedHash ∨ s.agent.needsActivation then do
    withdrawUnretained E cfg
    let s ← get
    let result ← attempt (apply s.agent.state.publications files)
    match result with
    | .error e => do
      gateRejectedUpdate E cfg e
      fail e
    | .ok _ => do
      modify (Sys.modifyState fun c => { c with renderedHash := hashFiles E files })
      save
      modify (Sys.modifyAgent fun a => { a with needsActivation := false })
  else when (s.agent.state.active.isSome ∧ ¬ s.canRetainActive E cfg) do
    withdrawApproval
    save

/-- What `Agent.reconcileDesired` remembers and verifies after an installation, in combined mode. -/
def verifyInstalled : Act Unit := do
  modify fun s => s.modifyAgent fun a => { a with
    installedPublications := a.state.publications.mapValues fun p =>
      ⟨publicationIdentity E p, effectivePlanHash E p.plan⟩ }
  eachPublication fun _ p => do
    let s ← get
    when (p.verified ∧ ¬ p.manifest.tombstone ∧ s.agent.state.hasViews p) do
      let result ← attempt (verifyPublication E cfg p)
      match result with
      | .ok _ => pure ()
      | .error e => do
        failClosed
        fail e

/-- The bindings whose probe failed are gated again.  The files that are installed then are
returned. -/
def regateProbed (active : List GoString) (files : Files) : Act Files := do
  let a ← ask
  if a.probes = [] then pure files
  else do
    let s ← get
    match cfg.render s.agent.state (active.filter (· ∉ a.probes)) with
    | .error e => fail (.of e)
    | .ok gated =>
      if hashFiles E gated = s.agent.state.renderedHash then pure files
      else do
        let result ← attempt (apply s.agent.state.publications gated)
        match result with
        | .error e => do
          failClosed
          fail e
        | .ok _ => do
          modify (Sys.modifyState fun c => { c with renderedHash := hashFiles E gated })
          save
          pure gated

/-- A publication still lacks its query proof. -/
def Checkpoint.unproved (c : Checkpoint) : Bool :=
  c.publications.entries.any fun e =>
    !e.2.verified && (e.2.manifest.tombstone || c.hasViews e.2)

/-- `Agent.reconcileDesired`. -/
def reconcileDesired (snapshot : ServingSnapshot) (retained : Option GoString) : Act Unit := do
  let s ← get
  let active := snapshot.activeUIDs
  match cfg.render s.agent.state active with
  | .error e => fail (.of e)
  | .ok rendered => do
    let files := retained.elim rendered fun routing => rendered.insert cfg.nodeDNSDistPath routing
    installRendered E cfg files
    when (cfg.mode = .combined) (verifyInstalled E cfg)
    let files ← regateProbed E cfg active files
    let s ← get
    when (¬ (cfg.mode = .combined ∧ s.agent.state.unproved)) do
      approveConfiguration cfg snapshot files
      when (cfg.mode = .resolver) (verifyAppliedConfiguration E cfg)

/-- `Agent.reconcileWithNodeRouting`. -/
def reconcileWithNodeRouting (retained : Option GoString) : Act Unit := do
  let s ← get
  match s.agent.state.snapshot with
  | none => pure ()
  | some snapshot => do
    let result ← attempt (reconcileDesired E cfg snapshot retained)
    match result with
    | .ok _ => pure ()
    | .error e => do
      let a ← ask
      when (¬ s.canRetainActive E cfg ∧ a.ok) failClosed
      fail e

/-- `Agent.reconcile`. -/
def reconcile : Act Unit := reconcileWithNodeRouting E cfg none

/-- `Agent.retainedNodeRouting`; whether the installed routing is the approved one is asked of the
outside. -/
def retainedNodeRouting : Act (Option GoString) := do
  let s ← get
  if ¬ cfg.nodeAuthoritative ∨ s.agent.needsActivation ∨ ¬ s.canRetainActive E cfg then pure none
  else do
    let a ← ask
    if a.ok then pure (s.agent.state.active.bind fun active => active.files.lookup cfg.nodeDNSDistPath)
    else pure none

/-- `Agent.heartbeatPublications`; whether an acknowledgement is due is asked of the outside. -/
def heartbeatPublications : Act Unit := do
  when (¬ cfg.nodeAuthoritative) <| eachPublication fun _ p => do
    let s ← get
    when (p.verified ∧ ¬ p.retired ∧ (p.manifest.tombstone ∨ s.agent.state.hasViews p)) do
      let a ← ask
      when a.ok (verifyPublication E cfg p)

/-- `Agent.finishEvent`. -/
def finishEvent : Act Unit := do
  let s ← get
  when (¬ (s.agent.bootstrapInProgress ∨ s.agent.waitsForBootstrap cfg)) do
    when (cfg.mode = .combined) (heartbeatPublications E cfg)
    verifyAppliedConfiguration E cfg

/-! ## Publications -/

section

variable (uid : GoString) (next : PublicationState)

/-- `serving.tombstoneAckRetention`, in nanoseconds. -/
def tombstoneAckRetention : Time := 24 * 60 * 60 * 1000000000

/-- The plan of a retired tombstone. -/
def emptyPlan : PublicationPlan := ⟨[], [], [], [], [], []⟩

/-- What `Agent.retireTombstones` makes of a publication, if it changes it: the retention clock of
a verified withdrawal is started, and when it has run out only fence and manifest are kept. -/
def PublicationState.retire (now : Time) (p : PublicationState) : Option PublicationState :=
  if ¬ p.manifest.tombstone ∨ ¬ p.verified ∨ p.retired then none
  else if p.withdrawnAt = 0 then some { p with withdrawnAt := now }
  else if now - p.withdrawnAt ≥ tombstoneAckRetention then
    some { p with plan := emptyPlan, effectiveHash := [], retired := true }
  else none

def Checkpoint.setPublications (publications : GoMap GoString PublicationState) (c : Checkpoint) :
    Checkpoint := { c with publications := publications }

def Checkpoint.setPublication (p : PublicationState) (c : Checkpoint) :
    Checkpoint := { c with publications := c.publications.insert uid p }

/-- `Agent.retireTombstones`. -/
def retireTombstones (now : Time) : Act Unit := do
  let s ← get
  let previous := s.agent.state.publications
  when (previous.entries.any fun e => (e.2.retire now).isSome) do
    modify (Sys.modifyState (Checkpoint.setPublications
      (previous.mapValues fun p => (p.retire now).getD p)))
    let result ← attempt save
    match result with
    | .ok _ => pure ()
    | .error e => do
      modify (Sys.modifyState (Checkpoint.setPublications previous))
      fail e

/-- `Agent.recordResolverPublication`. -/
def recordResolverPublication : Act Unit := do
  modify (Sys.modifyState (Checkpoint.setPublication uid { next with verified := false }))
  save
  modify (Sys.modifyState (Checkpoint.setPublication uid { next with verified := true }))
  save

/-- `Agent.activatePublication`. -/
def activatePublication : Act Unit := do
  modify (Sys.modifyState (Checkpoint.setPublication uid next))
  save
  let s ← get
  when (¬ (s.agent.bootstrapInProgress ∨ s.agent.waitsForBootstrap cfg)) do
    let routing ← retainedNodeRouting E cfg
    reconcileWithNodeRouting E cfg routing
    let s ← get
    when (next.manifest.tombstone ∨ s.agent.state.hasViews next) do
      let result ← attempt (verifyPublication E cfg next)
      match result with
      | .error e => do
        failClosed
        fail e
      | .ok _ => do
        modify (Sys.modifyState (Checkpoint.setPublication uid { next with verified := true }))
        save
        reconcile E cfg
        verifyAppliedConfiguration E cfg

/-- Where an accepted publication goes. -/
def applyPublication : Act Unit :=
  match cfg.mode with
  | .resolver => recordResolverPublication uid next
  | .combined => activatePublication E cfg uid next

end

/-- `Agent.retryPendingPublications`. -/
def retryPendingPublications : Act Unit := eachPublication fun uid p => do
  let s ← get
  when (¬ p.verified) do
    match cfg.mode with
    | .resolver => recordResolverPublication uid p
    | .combined =>
      when (p.manifest.tombstone ∨ s.agent.state.hasViews p) do
        reconcile E cfg
        verifyPublication E cfg p
        modify (Sys.modifyState (Checkpoint.setPublication uid
          { p with verified := true, effectiveHash := effectivePlanHash E p.plan }))
        save

/-! ## Contribution fences -/

/-- `Agent.validateContributionFences`. -/
def Checkpoint.validateContributionFences (c : Checkpoint) (plan : PublicationPlan) :
    Except GoString Unit :=
  forEach (fun o => do
    failIf ((c.contributionFences.lookup o.contributionUID).any fun f => f.retired && !o.retired)
      (lit "contribution " ++ quoted o.contributionUID ++ lit " lifetime is retired")
    failIf ((c.contributionFences.lookup o.contributionUID).any fun f =>
        compare o.generation o.sequence f.generation f.sequence < 0)
      (lit "contribution " ++ quoted o.contributionUID ++ lit " regressed")) plan.observationFences

/-- One observation of `Agent.commitContributionFences`. -/
def commitContributionFence (fences : GoMap GoString ContributionFence) (o : ObservationFence) :
    GoMap GoString ContributionFence :=
  let current := (fences.lookup o.contributionUID).getD ⟨0, 0, false⟩
  let comparison := compare o.generation o.sequence current.generation current.sequence
  if comparison > 0 ∨ (comparison = 0 ∧ o.retired ∧ ¬ current.retired) then
    fences.insert o.contributionUID ⟨o.generation, o.sequence, o.retired⟩
  else fences

/-- `Agent.commitContributionFences`. -/
def Checkpoint.commitContributionFences (plan : PublicationPlan) (c : Checkpoint) : Checkpoint :=
  { c with contributionFences :=
      plan.observationFences.foldl commitContributionFence c.contributionFences }

/-! ## Events -/

/-- `model.AckPhase`. -/
inductive AckPhase where
  | accepted
  | applied
  | verified
  | expired
  | rejected
  deriving DecidableEq

/-- `model.MemberAck`. -/
structure MemberAck where
  memberID : GoString
  replicaID : GoString
  resourceUID : GoString
  ofPublication : Bool
  epoch : Nat
  revision : Nat
  phase : AckPhase
  observedAt : Time
  validUntil : Time

/-- The decoded payload of an event. -/
inductive Payload where
  | serving (snapshot : ServingSnapshot)
  | chunk (c : PublicationChunk)
  | manifest (m : PublicationManifest)
  | ack (a : MemberAck)
  | malformed

section

variable (snapshot : ServingSnapshot) (m : PublicationManifest)

/-- `model.Envelope`.  `valid` is the verdict of `Envelope.Validate` on the header. -/
structure Envelope where
  valid : Bool
  region : GoString
  shard : GoString
  resourceUID : GoString
  epoch : Nat
  revision : Nat
  payload : Payload

/-- A check without effects. -/
def check {α : Type} (x : Except GoString α) : Act α :=
  match x with
  | .ok a => pure a
  | .error e => fail (.of e)

/-- The snapshot becomes the desired one, if no binding fence forbids it. -/
def acceptSnapshot : Act Unit := do
  let s ← get
  let fences ← check (advanceBindingFences E.hash s.agent.state.bindingFences snapshot)
  modify (Sys.modifyState fun c => { c with
    bindingFences := fences
    servingFence := ⟨snapshot.configurationEpoch, snapshot.configurationRevision⟩
    snapshot := some snapshot })
  let s ← get
  when (¬ s.canRetainActive E cfg ∧
    (s.agent.bootstrapInProgress ∨ s.agent.waitsForBootstrap cfg)) withdrawApproval
  let result ← attempt save
  match result with
  | .ok _ => pure ()
  | .error e => do
    failClosed
    fail e

/-- `Agent.applyServingSnapshot`. -/
def applyServingSnapshot (advance : Bool) : Act Unit := do
  when advance (acceptSnapshot E cfg snapshot)
  let s ← get
  when (¬ (s.agent.bootstrapInProgress ∨ s.agent.waitsForBootstrap cfg)) do
    reconcile E cfg
    finishEvent E cfg

/-- `Agent.handleServing`. -/
def handleServing (env : Envelope) (snapshot : ServingSnapshot) : Act Unit := do
  check (snapshot.validate E)
  let maximum := if cfg.maxBindings = 0 then 4096 else cfg.maxBindings
  check (failIf (snapshot.bindings.length > maximum)
    (lit "serving snapshot has " ++ itoa snapshot.bindings.length ++
      lit " bindings, exceeding member limit " ++ itoa maximum))
  check (failIf (snapshot.region ≠ env.region ∨ snapshot.shard ≠ env.shard ∨
      snapshot.configurationEpoch ≠ env.epoch ∨ snapshot.configurationRevision ≠ env.revision)
    (lit "serving envelope identity does not match payload"))
  let s ← get
  let fence := s.agent.state.servingFence
  let cmp := compare env.epoch env.revision fence.epoch fence.revision
  if cmp < 0 then pure ()
  else if cmp = 0 ∧ s.agent.state.snapshot.isSome then
    if s.agent.state.snapshot = some snapshot then applyServingSnapshot E cfg snapshot false
    else fail (.of (lit "conflicting serving snapshot at the same epoch and revision"))
  else applyServingSnapshot E cfg snapshot true

/-- `Agent.handleChunk`. -/
def handleChunk (env : Envelope) (c : PublicationChunk) : Act Unit := do
  check (c.validate E)
  check (failIf (c.zoneUID ≠ env.resourceUID ∨ c.writerEpoch ≠ env.epoch ∨ c.revision ≠ env.revision)
    (lit "chunk envelope identity does not match payload"))
  let s ← get
  let current := s.agent.state.fenceOf c.zoneUID
  if compare c.writerEpoch c.revision current.epoch current.revision < 0 then pure ()
  else
    let staged := (s.agent.state.chunks.lookup c.manifestUID).getD ∅
    let key := itoa c.index.toNat
    if (staged.lookup key).any fun old => old.sha256 ≠ c.sha256 then
      fail (.of (lit "conflicting chunk at the same manifest index"))
    else do
      modify (Sys.modifyState fun state =>
        { state with chunks := state.chunks.insert c.manifestUID (staged.insert key c) })
      save

/-- The new publication of a manifest, after its chunks and its contribution fences have been
accepted; the fences are on disk when it returns. -/
def acceptPlan : Act PublicationState := do
  let s ← get
  let staged := (s.agent.state.chunks.lookup m.manifestUID).getD ∅
  let payload ← check (verifyManifest E m (staged.entries.map fun e => e.2))
  let plan ← check (orError (E.decodePlan payload) (lit "invalid publication payload"))
  check (plan.validate E)
  check (failIf (plan.zoneUID ≠ m.zoneUID ∨
      absoluteName E.cases plan.apex ≠ absoluteName E.cases m.apex)
    (lit "publication plan identity does not match manifest"))
  check (s.agent.state.validateContributionFences plan)
  modify (Sys.modifyState (Checkpoint.commitContributionFences plan))
  save
  pure { fence := ⟨m.writerEpoch, m.revision⟩, manifest := m, plan := plan, localRevision := 0,
         effectiveHash := effectivePlanHash E plan, verified := false, withdrawnAt := 0,
         retired := false }

/-- The withdrawal of a zone: `Agent.applyTombstone` keeps the plan that was published. -/
def tombstonePublication (plan : PublicationPlan) : PublicationState where
  fence := ⟨m.writerEpoch, m.revision⟩
  manifest := m
  plan := plan
  localRevision := 0
  effectiveHash := []
  verified := false
  withdrawnAt := 0
  retired := false

/-- A manifest that repeats the applied one. -/
def repeatPublication (old : PublicationState) : Act Unit := do
  let s ← get
  when (¬ s.agent.bootstrapInProgress) do
    match cfg.mode with
    | .resolver => recordResolverPublication m.zoneUID old
    | .combined => do
      verifyPublication E cfg old
      verifyAppliedConfiguration E cfg

end

section

variable (env : Envelope) (ack : MemberAck)

/-- `Agent.handleManifest`. -/
def handleManifest (m : PublicationManifest) : Act Unit := do
  check (m.validate E)
  check (failIf (m.zoneUID ≠ env.resourceUID ∨ m.writerEpoch ≠ env.epoch ∨ m.revision ≠ env.revision)
    (lit "manifest envelope identity does not match payload"))
  let s ← get
  let old := s.agent.state.publications.lookup m.zoneUID
  let fence := s.agent.state.fenceOf m.zoneUID
  let cmp := compare m.writerEpoch m.revision fence.epoch fence.revision
  if cmp < 0 then pure ()
  else if cmp = 0 ∧ fence.revision > 0 ∧ ¬ old.any (·.manifest = m) then
    fail (.of (lit "conflicting publication manifest at the same epoch and revision"))
  else match old.filter fun p => cmp = 0 && p.verified with
    | some p => repeatPublication E cfg m p
    | none =>
      if cmp > 0 ∧ fence.epoch = m.writerEpoch ∧ fence.revision > 0 ∧
          m.previousRevision < fence.revision then
        fail (.of (lit "publication revision " ++ itoa m.revision ++ lit " is based on revision " ++
          itoa m.previousRevision ++ lit " older than applied revision " ++ itoa fence.revision))
      else if m.tombstone then
        applyPublication E cfg m.zoneUID
          (tombstonePublication m ((old.map PublicationState.plan).getD emptyPlan))
      else do
        let next ← acceptPlan E m
        applyPublication E cfg m.zoneUID next

/-- `model.IsOrdinal`. -/
def isOrdinal (s : GoString) : Bool :=
  s ≠ [] && !(s.length > 1 && s.head? = some '0') && s.all Char.isDigit

/-- `MemberPattern.Matches`. -/
def MemberPattern.matches (p : MemberPattern) (memberID : GoString) : Bool :=
  p.idPrefix ≠ [] && hasPrefix memberID p.idPrefix && isOrdinal (memberID.drop p.idPrefix.length)

/-- `model.LookupMember`. -/
def lookupMember (members : List Member) (patterns : List MemberPattern) (memberID : GoString) :
    Option Member :=
  (members.find? fun m => m.memberID = memberID).or
    ((patterns.find? fun p => p.matches memberID).map fun p => ⟨memberID, memberID, p.role⟩)

/-- The longest lease of an acknowledgement, in nanoseconds. -/
def ackLeaseLimit : Time := 2 * 60 * 1000000000

/-- `serving.decodeAck`. -/
def decodeAck : Except GoString Unit := do
  failIf (ack.resourceUID ≠ env.resourceUID ∨ ack.epoch ≠ env.epoch ∨ ack.revision ≠ env.revision)
    (lit "ack envelope identity does not match payload")
  failIf (ack.validUntil = 0 ∨ ack.observedAt = 0 ∨ ack.validUntil > ack.observedAt + ackLeaseLimit)
    (lit "ack has an invalid serving lease")

/-- The acknowledgements that are kept for a resource. -/
def Checkpoint.acksOf (c : Checkpoint) (uid : GoString) : GoMap GoString ReplicaAck :=
  (c.acks.lookup uid).getD ∅

def Checkpoint.setAcks (uid : GoString) (acks : GoMap GoString ReplicaAck) (c : Checkpoint) :
    Checkpoint := { c with acks := c.acks.insert uid acks }

/-- What `Agent.handleAck` does with an acknowledgement of a known member that is neither too old
nor an expiry.  A verified one that only renews its lease is kept in memory. -/
def recordAck : Act Unit := do
  modify (Sys.modifyState fun c => c.setAcks ack.resourceUID (c.acksOf ack.resourceUID))
  let s ← get
  let key := ack.memberID ++ ['/'] ++ ack.replicaID
  let acks := s.agent.state.acksOf ack.resourceUID
  let old := (acks.lookup key).getD ⟨false, 0, ⟨0, 0⟩, 0⟩
  let cmp := compare ack.epoch ack.revision old.fence.epoch old.fence.revision
  let rejected : Bool := ack.phase ≠ .verified
  let kept : ReplicaAck := ⟨rejected, ack.observedAt, ⟨ack.epoch, ack.revision⟩,
    if rejected then 0 else ack.validUntil⟩
  if cmp < 0 ∨ (cmp = 0 ∧ ack.observedAt ≤ old.observedAt) ∨
      (¬ rejected ∧ cmp = 0 ∧ ack.validUntil ≤ old.validUntil) then pure ()
  else do
    modify (Sys.modifyState (Checkpoint.setAcks ack.resourceUID (acks.insert key kept)))
    when (rejected ∨ ¬ (cmp = 0 ∧ ¬ old.rejected ∧ old.observedAt ≠ 0)) do
      save
      reconcile E cfg
      finishEvent E cfg

/-- `Agent.handleAck`. -/
def handleAck : Act Unit := do
  check (decodeAck env ack)
  let s ← get
  match s.agent.state.snapshot.bind fun snapshot =>
    lookupMember snapshot.members snapshot.memberPatterns ack.memberID with
  | none => pure ()
  | some member =>
    when (member.replicaID = ack.replicaID) do
      let a ← ask
      when (a.now < ack.validUntil ∧ ack.ofPublication) do
        match ack.phase with
        | .expired => do
          reconcile E cfg
          finishEvent E cfg
        | .accepted => fail (.of (lit "unsupported publication ACK phase"))
        | _ => recordAck E cfg ack

end

/-- `Agent.Handle`, from the moment it holds the lock. -/
def handlePayload (env : Envelope) : Act Unit := do
  call (lit "context canceled")
  match env.payload with
  | .serving snapshot => handleServing E cfg env snapshot
  | .chunk c => handleChunk E env c
  | .manifest m => do
    let result ← attempt (handleManifest E cfg env m)
    match result with
    | .ok _ => finishEvent E cfg
    | .error e => do
      gateRejectedUpdate E cfg e
      fail e
  | .ack ack => handleAck E cfg env ack
  | .malformed => fail (.of (lit "unsupported event kind"))

/-- `Agent.Handle`. -/
def handle (env : Envelope) : Act Unit := do
  check (failIf (¬ env.valid) (lit "invalid envelope"))
  check (failIf (env.region ≠ cfg.region ∨ env.shard ≠ cfg.shard)
    (lit "event targets " ++ env.region ++ ['/'] ++ env.shard ++ lit ", agent serves " ++
      cfg.region ++ ['/'] ++ cfg.shard))
  match env.payload with
  | .ack ack => do
    check (decodeAck env ack)
    let a ← ask
    when (a.now < ack.validUntil) (handlePayload E cfg env)
  | _ => handlePayload E cfg env

/-- `serving.restoredCheckpointLimit`, in nanoseconds. -/
def restoredCheckpointLimit : Time := 15 * 60 * 1000000000

/-- The part of `Agent.Step` after its gates. -/
def stepPublications : Act Unit := do
  let a ← ask
  let _ ← attempt (retireTombstones a.now)
  let result ← attempt (retryPendingPublications E cfg)
  match result with
  | .error e => do
    gateRejectedUpdate E cfg e
    fail e
  | .ok _ => do
    let s ← get
    when (cfg.mode = .combined) do
      when (s.agent.needsActivation ∨ s.agent.installedPublications.entries = []) (reconcile E cfg)
      heartbeatPublications E cfg
    reconcile E cfg
    verifyAppliedConfiguration E cfg

/-- `Agent.Step`. -/
def step : Act Unit := do
  let s ← get
  let a ← ask
  if s.agent.restoredAt.any (fun t => a.now ≥ t + restoredCheckpointLimit) ∧
      ¬ s.agent.bootstrapComplete then
    when (¬ s.agent.checkpointWithdrawn) do
      modify (Sys.modifyAgent fun a => { a with checkpointWithdrawn := true })
      failClosed
      fail (.of (lit "no DNS state received within 15m0s of restart, withdrawing the restored " ++
        lit "configuration"))
  else if s.agent.waitsForBootstrap cfg then
    fail (.of (lit "node-authoritative serving is waiting for a current bootstrap snapshot"))
  else if s.agent.state.snapshot = none then
    fail (.of (lit "no verified serving configuration is available"))
  else stepPublications E cfg

/-! ## Start and restart -/

/-- The files of the approved configuration are installed again. -/
def reinstallActive (active : ActiveConfiguration) : Act Unit := do
  modify (Sys.modifyAgent fun a => { a with needsActivation := true })
  apply active.publications active.files
  modify (Sys.modifyState fun c => { c with renderedHash := hashFiles E active.files })
  save
  call (lit "commit activation")
  modify (Sys.modifyAgent fun a => { a with needsActivation := false })

/-- The installed files are the approved ones and the daemons answer. -/
def keepActive (active : ActiveConfiguration) : Act Unit := do
  modify (Sys.modifyAgent fun a => { a with needsActivation := false })
  let s ← get
  when (s.agent.state.renderedHash ≠ hashFiles E active.files) do
    modify (Sys.modifyState fun c => { c with renderedHash := hashFiles E active.files })
    save

/-- `Agent.restoreActive`. -/
def restoreActive : Act Unit := do
  let s ← get
  match s.agent.state.active.filter fun _ => s.canRetainActive E cfg with
  | none => failClosed
  | some approved => do
    let files ← check (cfg.refreshActiveDNSDist approved.files)
    let active := { approved with files := files }
    modify (Sys.modifyState fun c => { c with active := some active })
    let matching ← ask
    if matching.ok then do
      let daemons ← ask
      if daemons.ok then keepActive E active
      else do
        call (lit "context canceled")
        reinstallActive E active
    else reinstallActive E active

/-- What `Agent.Start` does before it handles events. -/
def start : Act Unit := do
  let _ ← attempt (restoreActive E cfg)
  let a ← ask
  modify (Sys.modifyAgent fun agent => { agent with
    restoredAt := if agent.state.active.isSome ∧ ¬ agent.needsActivation then some a.now
      else agent.restoredAt })

/-- The agent that `serving.NewAgent` makes of a loaded checkpoint. -/
def newAgent (state : Checkpoint) : Agent where
  state := state
  needsActivation := false
  installedPublications := ∅
  restoredAt := none
  bootstrapComplete := false
  bootstrapInProgress := false
  checkpointWithdrawn := false

/-- What can happen to an agent.  A start also ends the process that was running before. -/
inductive Input where
  | start
  | handle (env : Envelope)
  | step
  | beginBootstrap
  | endBootstrap (complete : Bool)

/-- A machine with an agent that is running or not. -/
structure Machine where
  agent : Option Agent
  disk : Option Checkpoint
  log : List Effect

/-- The code that an input runs. -/
def Input.code : Input → Act Unit
  | .start => InternalDNS.start E cfg
  | .handle env => InternalDNS.handle E cfg env
  | .step => InternalDNS.step E cfg
  | .beginBootstrap => modify (Sys.modifyAgent fun a => { a with bootstrapInProgress := true })
  | .endBootstrap complete => modify (Sys.modifyAgent fun a => { a with
      bootstrapInProgress := false, bootstrapComplete := a.bootstrapComplete || complete })

/-- The process that an input reaches: a new one for a start, if the checkpoint on disk loads. -/
def Machine.process (m : Machine) : Input → Option Agent
  | .start => match m.disk with
    | none => some (newAgent newCheckpoint)
    | some c => (c.load E).toOption.map newAgent
  | _ => m.agent

/-- The machine after the code of an input: a process that ran out of answers is gone. -/
def Machine.after : Exit Failure Unit × Sys → Machine
  | (.crash, s) => ⟨none, s.disk, s.log⟩
  | (_, s) => ⟨some s.agent, s.disk, s.log⟩

/-- One input with the answers that the process gets. -/
def Machine.run (m : Machine) (input : Input × List Answer) : Machine :=
  match m.process E input.1 with
  | none => { m with agent := none }
  | some agent => .after (input.1.code E cfg ⟨agent, m.disk, input.2, m.log⟩)

/-- The machine before its agent was ever started. -/
def Machine.fresh : Machine := ⟨none, none, []⟩

/-- A whole history. -/
def Machine.runs (inputs : List (Input × List Answer)) : Machine :=
  inputs.foldl (Machine.run E cfg) .fresh

end InternalDNS
