import InternalDNS.GoProcess
import InternalDNS.RegionLease
import InternalDNS.ShardSafety

/-! # One planner, call by call

`Planner.Step` as a whole, for a planner that nobody interferes with: it finds or takes the owner
record, plans, and either renews its lease, or reserves a revision, stores the outbox and commits it.
What was written before an error stays written.

A planner whose own lease has run out does not take the record over, since it is the holder already,
and it does not publish, since the lease is over; the lease is renewed only if there is nothing new
to publish.  `two_steps_publish_iff` says that this is the only way in which the active outbox fails
to hold the snapshot of the current bindings.
-/
namespace InternalDNS.Platform

open Go Controlplane AList Except Option Nat ServingSnapshot

/-- `platform.Planner` with its `PlannerConfig`. -/
structure Planner where
  config : PlannerConfig
  ns : GoString
  identity : GoString
  leaseDuration : Int
  stopping : Bool

/-- What the planner reads and writes: the owner record of the shard, and the stored outboxes. -/
structure Registry where
  owner : Option ShardState
  ownerUID : GoString
  outboxes : GoMap GoString Outbox

deriving instance DecidableEq for Outbox

namespace Planner

variable (E : Externals) (p : Planner)

/-- The duration of a lease. -/
def lease : Int := leaseTerm p.leaseDuration

/-- Write the owner record. -/
def write (st : ShardState) : Prog Registry GoString Unit :=
  Prog.modify fun w => { w with owner := some st }

/-- The prior snapshot, from the active outbox. -/
def loadPrior (name : GoString) (w : Registry) : Except GoString ServingSnapshot :=
  if name = [] then .ok emptySnapshot
  else (orError (w.outboxes.lookup name) (lit "outbox not found")).map Outbox.snapshot

variable (now : Time)

section

variable (listed : List ResolverBinding) (publications : Publications)

/-- The record that the call works with: its own, or one it takes over; none if there is nothing
more to do. -/
def acquire : Prog Registry GoString (Option ShardState) := do
  let w ← Prog.get
  match w.owner with
  | none =>
    write (newShardState p.identity now (now + p.lease))
    return none
  | some st =>
    if st.holder = p.identity then return some st
    else if now < st.leaseUntil then return none
    else
      write (st.takeOver p.identity now (now + p.lease))
      return some (st.takeOver p.identity now (now + p.lease))

/-- The plan from what is stored, for the record. -/
def plan (st : ShardState) (w : Registry) : Except GoString (ServingSnapshot × List GoString) := do
  let prior ← loadPrior st.activeOutbox w
  planSnapshot E p.config st now listed publications prior

/-- Store an immutable outbox.  One of the same name must be the same. -/
def createOutbox (name : GoString) (outbox : Outbox) : Prog Registry GoString Unit := do
  let w ← Prog.get
  match w.outboxes.lookup name with
  | none => Prog.modify fun w => { w with outboxes := w.outboxes.insert name outbox }
  | some existing =>
    Prog.lift (failIf (existing ≠ outbox) (lit "immutable serving revision collision"))

/-- Reserve the revision, store the outbox, commit it. -/
def stage (st : ShardState) (outbox : Outbox) : Prog Registry GoString Unit := do
  let name := snapshotName E outbox.snapshot
  write (st.reserve (now + p.lease))
  createOutbox name outbox
  write ((st.reserve (now + p.lease)).commit name (contentHash E outbox.snapshot) (now + p.lease))

/-- What the call does with the record. -/
def publish (st : ShardState) :
    Prog Registry GoString Unit := do
  let w ← Prog.get
  let (snapshot, dependsOn) ← Prog.lift (p.plan E now listed publications st w)
  if st.contentHash = contentHash E snapshot then
    Prog.when (¬ p.lease / 2 < st.leaseUntil - now)
      (write { st with leaseUntil := now + p.lease })
  else
    Prog.lift (failIf (¬ now < st.leaseUntil)
      (lit "shared planner lost its lease while staging snapshot"))
    Prog.lift (failIf (envelopeSize E w.ownerUID snapshot > p.config.budgets.maxBytes)
      (lit "shard serving envelope exceeds configured transport budget: " ++
        itoa (envelopeSize E w.ownerUID snapshot) ++ lit " > " ++ itoa p.config.budgets.maxBytes))
    p.stage E now st ⟨snapshot, dependsOn⟩

/-- `Planner.Step`. -/
def step :
    Prog Registry GoString Unit := do
  Prog.lift (failIf (p.ns = [] ∨ p.config.region = [] ∨ p.config.shard = [] ∨ p.identity = [])
    (lit ("shared planner requires client, allocator, namespace, region, shard and " ++
      "holder identity")))
  if p.stopping then return ()
  match ← p.acquire now with
  | none => return ()
  | some st => p.publish E now listed publications st

end

end Planner

/-! ## What the registry says -/

/-- The registry as planners of the shard leave it. -/
structure Registry.Sound (E : Externals) (region shard : GoString) (w : Registry) : Prop where
  /-- The active outbox is stored. -/
  active : ∀ st, w.owner = some st → st.activeOutbox ≠ [] →
    ∃ o, w.outboxes.lookup st.activeOutbox = some o
  /-- A content hash in the record is that of the active outbox. -/
  hashed : ∀ st, w.owner = some st → st.contentHash ≠ [] →
    ∃ o, w.outboxes.lookup st.activeOutbox = some o ∧ contentHash E o.snapshot = st.contentHash
  /-- Nothing is stored under a number that the record has not reached. -/
  unused : ∀ st, w.owner = some st → ∀ epoch revision,
    st.epoch < epoch ∨ (epoch = st.epoch ∧ st.nextRevision ≤ revision) →
      w.outboxes.lookup (outboxName E region shard epoch revision) = none
  /-- Without a record nothing is stored. -/
  fresh : w.owner = none → ∀ epoch revision,
    w.outboxes.lookup (outboxName E region shard epoch revision) = none

/-- The active outbox holds the snapshot, up to its time and its number. -/
def Registry.Serves (E : Externals) (w : Registry) (s : ServingSnapshot) : Prop :=
  ∃ st o, w.owner = some st ∧ w.outboxes.lookup st.activeOutbox = some o ∧
    contentHash E o.snapshot = contentHash E s

open Planner

section Sound

variable {E : Externals} {p : Planner} {w : Registry} {st : ShardState} {now : Time}
  {region shard : GoString} {dependsOn : List GoString} {s s' : ServingSnapshot}
  {listed : List ResolverBinding} {publications : Publications}

theorem outboxName_inj {e r e' r' : Nat}
    (h : outboxName E region shard e r = outboxName E region shard e' r') : e = e' ∧ r = r' := by
  rw [outboxName_eq, outboxName_eq] at h
  exact append_numbers_inj h

/-- A record that only moves its lease forward, or its number, keeps the registry sound. -/
theorem Registry.Sound.write (h : w.Sound E region shard) (howner : w.owner = some st)
    (st' : ShardState) (hactive : st'.activeOutbox = st.activeOutbox)
    (hhash : st'.contentHash = st.contentHash ∨ st'.contentHash = [])
    (hnumber : st.epoch < st'.epoch ∨
      (st'.epoch = st.epoch ∧ st.nextRevision ≤ st'.nextRevision)) :
    ({ w with owner := some st' } : Registry).Sound E region shard where
  active := by
    rintro _ ⟨⟩ hne
    rw [hactive] at hne ⊢
    exact h.active st howner hne
  hashed := by
    rintro _ ⟨⟩ hne
    rcases hhash with hhash | hhash
    · rw [hhash] at hne ⊢
      rw [hactive]
      exact h.hashed st howner hne
    · exact absurd hhash hne
  unused := by
    rintro _ ⟨⟩ epoch revision hlater
    exact h.unused st howner epoch revision (by omega)
  fresh := nofun

/-- The outbox of the number just reserved is stored, and the record goes on to it. -/
theorem Registry.Sound.commit (h : w.Sound E region shard) {reserved : ShardState}
    (howner : w.owner = some reserved) (revision : Nat) (outbox : Outbox)
    (hrevision : revision + 1 = reserved.nextRevision) (leaseUntil : Time) {w' : Registry}
    (howner' : w'.owner = some (reserved.commit
      (outboxName E region shard reserved.epoch revision) (contentHash E outbox.snapshot) leaseUntil))
    (hstored : w'.outboxes.lookup (outboxName E region shard reserved.epoch revision) = some outbox)
    (hothers : ∀ name, name ≠ outboxName E region shard reserved.epoch revision →
      w'.outboxes.lookup name = w.outboxes.lookup name) : w'.Sound E region shard where
  active := by
    intro st hst _
    obtain rfl := mem_unique hst howner'
    exact ⟨outbox, hstored⟩
  hashed := by
    intro st hst _
    obtain rfl := mem_unique hst howner'
    exact ⟨outbox, hstored, rfl⟩
  unused := by
    intro st hst epoch revision' hlater
    obtain rfl := mem_unique hst howner'
    simp only [ShardState.commit] at hlater
    rw [hothers, h.unused reserved howner epoch revision' (by omega)]
    intro hname
    obtain ⟨rfl, rfl⟩ := outboxName_inj hname
    omega
  fresh := by
    rw [howner']
    nofun

theorem snapshotName_plan (h : p.plan E now listed publications st w = .ok (s, dependsOn)) :
    snapshotName E s = outboxName E p.config.region p.config.shard st.epoch st.nextRevision := by
  obtain ⟨prior, -, hplan⟩ := bind_eq_ok.mp h
  obtain ⟨hregion, hshard, hepoch, hrevision, -⟩ := planSnapshot_eq_ok hplan
  rw [snapshotName, hregion, hshard, hepoch, hrevision]

/-- The registry with the outbox of the record's number stored and active. -/
def Registry.committed (E : Externals) (w : Registry) (st : ShardState) (outbox : Outbox)
    (leaseUntil : Time) : Registry :=
  { w with
    owner := some ((st.reserve leaseUntil).commit (snapshotName E outbox.snapshot)
      (contentHash E outbox.snapshot) leaseUntil)
    outboxes := w.outboxes.insert (snapshotName E outbox.snapshot) outbox }

section

variable (h : w.Sound E p.config.region p.config.shard) (howner : w.owner = some st)
include h howner

theorem stage_eq (now : Time) {outbox : Outbox}
    (hname : snapshotName E outbox.snapshot =
      outboxName E p.config.region p.config.shard st.epoch st.nextRevision) :
    p.stage E now st outbox w = (.ok (), w.committed E st outbox (now + p.lease)) := by
  have hunused : w.outboxes.lookup (snapshotName E outbox.snapshot) = none := by
    rw [hname]
    exact h.unused st howner _ _ (.inr ⟨rfl, le_rfl⟩)
  simp only [stage, write, createOutbox, bind, Prog.modify, Prog.get,
    hunused]
  rfl

theorem Registry.Sound.committed {outbox : Outbox}
    (hname : snapshotName E outbox.snapshot = outboxName E p.config.region p.config.shard st.epoch st.nextRevision)
    (leaseUntil : Time) :
    (w.committed E st outbox leaseUntil).Sound E p.config.region p.config.shard := by
  have hreserved := h.write howner (st.reserve leaseUntil) rfl (.inl rfl)
    (.inr ⟨rfl, le_succ _⟩)
  refine hreserved.commit rfl st.nextRevision outbox rfl leaseUntil ?_ ?_ ?_
  · exact congrArg (fun name => some ((st.reserve leaseUntil).commit name _ leaseUntil)) hname
  · rw [Registry.committed, hname]
    exact lookup_insert _
  · intro name hne
    rw [Registry.committed, hname]
    exact lookup_insert_ne hne

/-- What a call does with the record it holds, once there is a plan. -/
theorem publish_eq (hplan : p.plan E now listed publications st w = .ok (s, dependsOn)) :
    (p.publish E now listed publications st w).2 =
      if st.contentHash = contentHash E s then
        if p.lease / 2 < st.leaseUntil - now then w
        else { w with owner := some { st with leaseUntil := now + p.lease } }
      else if now < st.leaseUntil ∧ envelopeSize E w.ownerUID s ≤ p.config.budgets.maxBytes then
        w.committed E st ⟨s, dependsOn⟩ (now + p.lease)
      else w := by
  have hstage : p.stage E now st ⟨s, dependsOn⟩ w = _ :=
    stage_eq h howner now (snapshotName_plan hplan)
  simp only [publish, bind, Prog.get, hplan, Prog.lift]
  by_cases hsame : st.contentHash = contentHash E s
  · by_cases hrenew : p.lease / 2 < st.leaseUntil - now
    · simp [hsame, Prog.when, pure, hrenew]
    · simp [hsame, Prog.when, pure, hrenew, write, Prog.modify]
  · by_cases hlease : now < st.leaseUntil
    · by_cases hsize : envelopeSize E w.ownerUID s ≤ p.config.budgets.maxBytes
      · simp [hsame, failIf, pure, hlease, hsize, Nat.not_lt.mpr hsize, hstage]
      · simp [hsame, failIf, pure, hlease, hsize, Nat.lt_of_not_le hsize, Prog.fail]
    · simp [hsame, failIf, pure, hlease, Prog.fail]

/-- However the call ends, the registry is sound and the record has kept its holder. -/
theorem publish_keeps :
    (p.publish E now listed publications st w).2.Sound E p.config.region p.config.shard ∧
      ∃ st', (p.publish E now listed publications st w).2.owner = some st' ∧
        st'.holder = st.holder := by
  cases hplan : p.plan E now listed publications st w with
  | error e =>
    have hsame : (p.publish E now listed publications st w).2 = w := by
      simp [publish, bind, Prog.get, hplan, Prog.lift, Prog.fail]
    rw [hsame]
    exact ⟨h, st, howner, rfl⟩
  | ok out =>
    obtain ⟨s, dependsOn⟩ := out
    rw [publish_eq h howner hplan]
    split_ifs
    · exact ⟨h, st, howner, rfl⟩
    · exact ⟨h.write howner _ rfl (.inl rfl) (.inr ⟨rfl, le_rfl⟩), _, rfl, rfl⟩
    · exact ⟨h.committed howner (snapshotName_plan hplan) _, _, rfl, rfl⟩
    · exact ⟨h, st, howner, rfl⟩

end

/-- The planner is configured, and is not stopping. -/
structure Planner.Runs (p : Planner) : Prop where
  ns : p.ns ≠ []
  region : p.config.region ≠ []
  shard : p.config.shard ≠ []
  identity : p.identity ≠ []
  running : p.stopping = false

section

variable (hp : p.Runs)
include hp

theorem step_eq :
    p.step E now listed publications w =
      (p.acquire now >>= fun
        | none => pure ()
        | some st => p.publish E now listed publications st) w := by
  simp [step, bind, Prog.lift, failIf, hp.ns, hp.region, hp.shard, hp.identity,
    hp.running, pure]

variable (howner : w.owner = some st)
include howner

/-- With its own record a planner goes straight to publishing. -/
theorem step_own (hholder : st.holder = p.identity) :
    p.step E now listed publications w = p.publish E now listed publications st w := by
  rw [step_eq hp]
  simp [acquire, bind, Prog.get, howner, hholder, pure]

/-- The record of another whose lease is over is taken over first. -/
theorem step_takeOver (hholder : st.holder ≠ p.identity) (hover : st.leaseUntil ≤ now) :
    p.step E now listed publications w =
      p.publish E now listed publications (st.takeOver p.identity now (now + p.lease))
        { w with owner := some (st.takeOver p.identity now (now + p.lease)) } := by
  rw [step_eq hp]
  simp [acquire, bind, Prog.get, howner, hholder, Int.not_lt.mpr hover, write,
    Prog.modify, pure]

/-- However a call ends that finds its own record, or one whose lease is over, the registry is sound
afterwards and the record is the planner's. -/
theorem step_keeps (h : w.Sound E p.config.region p.config.shard)
    (hours : st.holder = p.identity ∨ st.leaseUntil ≤ now) :
    (p.step E now listed publications w).2.Sound E p.config.region p.config.shard ∧
      ∃ st', (p.step E now listed publications w).2.owner = some st' ∧
        st'.holder = p.identity := by
  by_cases hholder : st.holder = p.identity
  · rw [step_own hp howner hholder, ← hholder]
    exact publish_keeps h howner
  · have hover := hours.resolve_left hholder
    rw [step_takeOver hp howner hholder hover]
    have htaken := h.write howner (st.takeOver p.identity now (now + p.lease)) rfl (.inr rfl)
      (.inl (lt_of_lt_of_le (lt_succ_self _) (le_max_left ..)))
    exact publish_keeps htaken rfl

end

/-! ## Publishing -/

/-- The planner can plan from the stored state, the plan has every binding of the shard, and its
envelope is within the budget. -/
structure Planner.Fits (E : Externals) (p : Planner) (now : Time) (listed : List ResolverBinding)
    (publications : Publications) (st : ShardState) (w : Registry) (s : ServingSnapshot) :
    Prop where
  plan : ∃ dependsOn, p.plan E now listed publications st w = .ok (s, dependsOn)
  whole : ∀ prior, Planner.loadPrior st.activeOutbox w = .ok prior →
    s.bindings = (candidate E p.config st now listed publications prior).bindings
  size : envelopeSize E w.ownerUID s ≤ p.config.budgets.maxBytes

/-- The planner is the holder, and its lease is over. -/
def Planner.OwnLeaseOver (p : Planner) (w : Registry) (now : Time) : Prop :=
  ∃ st, w.owner = some st ∧ st.holder = p.identity ∧ st.leaseUntil ≤ now

/-- A committed outbox is served. -/
theorem serves_committed {leaseUntil : Time} :
    (w.committed E st ⟨s, dependsOn⟩ leaseUntil).Serves E s :=
  ⟨_, ⟨s, dependsOn⟩, rfl, lookup_insert _, rfl⟩

theorem serves_of_owner (howner : w.owner = some st) (st' : ShardState)
    (hactive : st'.activeOutbox = st.activeOutbox) :
    ({ w with owner := some st' } : Registry).Serves E s ↔ w.Serves E s := by
  simp only [Registry.Serves, howner, some.injEq]
  constructor
  · rintro ⟨_, o, rfl, hlookup, hcontent⟩
    exact ⟨st, o, rfl, hactive ▸ hlookup, hcontent⟩
  · rintro ⟨_, o, rfl, hlookup, hcontent⟩
    exact ⟨st', o, rfl, hactive.symm ▸ hlookup, hcontent⟩

section

variable (hhash : ∀ t, E.hash t ≠ []) (h : w.Sound E p.config.region p.config.shard)
  (howner : w.owner = some st)
include hhash h howner

/-- If the record has the hash of the plan, the plan is served. -/
theorem serves_of_hash (hsame : st.contentHash = contentHash E s) : w.Serves E s := by
  obtain ⟨o, hlookup, hcontent⟩ := h.hashed st howner (hsame ▸ hhash _)
  exact ⟨st, o, howner, hlookup, hcontent.trans hsame⟩

/-- **One call of the holder** leaves the plan served, unless its own lease is over and the plan was
not served before. -/
theorem publish_serves_iff (hfits : p.Fits E now listed publications st w s) :
    (p.publish E now listed publications st w).2.Serves E s ↔
      w.Serves E s ∨ now < st.leaseUntil := by
  obtain ⟨dependsOn, hplan⟩ := hfits.plan
  rw [publish_eq h howner hplan]
  split_ifs with hsame hrenew hlease
  · exact iff_of_true (serves_of_hash hhash h howner hsame)
      (.inl (serves_of_hash hhash h howner hsame))
  · rw [serves_of_owner howner { st with leaseUntil := now + p.lease } rfl]
    exact iff_of_true (serves_of_hash hhash h howner hsame)
      (.inl (serves_of_hash hhash h howner hsame))
  · exact iff_of_true serves_committed (.inr hlease.1)
  · have hover : ¬ now < st.leaseUntil := fun hlt => hlease ⟨hlt, hfits.size⟩
    rw [or_iff_left hover]

end

/-- Plans for the same bindings that leave none out have the same content, whatever the time and the
numbers of their records. -/
theorem content_of_whole {c : PlannerConfig} {st' : ShardState} {now' : Time}
    {prior : ServingSnapshot} {dependsOn dependsOn' : List GoString}
    (hplan : planSnapshot E c st now listed publications prior = .ok (s, dependsOn))
    (hplan' : planSnapshot E c st' now' listed publications prior = .ok (s', dependsOn'))
    (hwhole : s.bindings = (candidate E c st now listed publications prior).bindings)
    (hwhole' : s'.bindings = (candidate E c st' now' listed publications prior).bindings) :
    contentHash E s = contentHash E s' := by
  have hsame : s'.bindings = s.bindings := hwhole'.trans hwhole.symm
  unfold planSnapshot at hplan hplan'
  split at hplan
  · cases hplan
  rename_i fitted rejected hfit
  split at hplan'
  · cases hplan'
  rename_i fitted' rejected' hfit'
  simp only [bind_eq_ok, Prod.exists] at hplan hplan'
  obtain ⟨_, _, hdeps, _, -, hout⟩ := hplan
  obtain ⟨_, _, hdeps', _, -, hout'⟩ := hplan'
  cases hout
  cases hout'
  obtain ⟨-, -, -, -, -, -, hfitted⟩ := fitSnapshot_eq_ok hfit
  obtain ⟨-, -, -, -, -, -, hfitted'⟩ := fitSnapshot_eq_ok hfit'
  have hbindings : fitted'.bindings = fitted.bindings := by
    have hs := congrArg bindings (publicationDependencies_eq_ok hdeps)
    have hs' := congrArg bindings (publicationDependencies_eq_ok hdeps')
    exact hs'.symm.trans (hsame.trans hs)
  -- what is required depends on the bindings alone
  simp only [publicationDependencies, bind_eq_ok] at hdeps hdeps'
  obtain ⟨acc, hacc, hout⟩ := hdeps
  obtain ⟨acc', hacc', hout'⟩ := hdeps'
  rw [hbindings, hacc] at hacc'
  cases hacc'
  cases hout
  cases hout'
  rw [hfitted, hfitted', hbindings]
  rfl

/-- Two plans from the same bindings and the same active outbox have the same content. -/
theorem Planner.Fits.content {st' : ShardState} {now' : Time} {w' : Registry}
    (h : p.Fits E now listed publications st w s) (h' : p.Fits E now' listed publications st' w' s')
    (houtboxes : w'.outboxes = w.outboxes) (hactive : st'.activeOutbox = st.activeOutbox) :
    contentHash E s = contentHash E s' := by
  obtain ⟨dependsOn, hplan⟩ := h.plan
  obtain ⟨dependsOn', hplan'⟩ := h'.plan
  obtain ⟨prior, hprior, hplan⟩ := bind_eq_ok.mp hplan
  obtain ⟨prior', hprior', hplan'⟩ := bind_eq_ok.mp hplan'
  have hload : loadPrior st'.activeOutbox w' = loadPrior st.activeOutbox w := by
    rw [loadPrior, loadPrior, houtboxes, hactive]
  obtain rfl : prior = prior' := ok.inj (hprior.symm.trans (hload.symm.trans hprior'))
  exact content_of_whole hplan hplan' (h.whole prior hprior) (h'.whole prior hprior')

theorem serves_congr (h : contentHash E s = contentHash E s') : w.Serves E s ↔ w.Serves E s' := by
  simp [Registry.Serves, h]

/-- The record a call works with: its own, or the one it takes over. -/
def Planner.record (p : Planner) (now : Time) (st : ShardState) : ShardState :=
  if st.holder = p.identity then st else st.takeOver p.identity now (now + p.lease)

/-- After a first call the plan of the next is served, or the lease is good until then, unless the
lease was the planner's own and over. -/
theorem first_step (hp : p.Runs) (hhash : ∀ t, E.hash t ≠ [])
    (h : w.Sound E p.config.region p.config.shard) (howner : w.owner = some st)
    (hours : st.holder = p.identity ∨ st.leaseUntil ≤ now) {later : Time}
    (horder : now ≤ later) (hclose : later < now + p.lease) {w₁ : Registry}
    (hfirst : (p.step E now listed publications w).2 = w₁)
    (hfits : p.Fits E now listed publications (p.record now st)
      { w with owner := some (p.record now st) } s)
    {st₁ : ShardState} {s₁ : ServingSnapshot} (howner₁ : w₁.owner = some st₁)
    (hfits₁ : p.Fits E later listed publications st₁ w₁ s₁) :
    (w₁.Serves E s₁ ∨ later < st₁.leaseUntil) ↔
      w.Serves E s₁ ∨ ¬ p.OwnLeaseOver w now := by
  by_cases hholder : st.holder = p.identity
  · have hrecord : p.record now st = st := if_pos hholder
    have hself : ({ w with owner := some st } : Registry) = w := by rw [← howner]
    rw [hrecord, hself] at hfits
    obtain ⟨dependsOn, hplan⟩ := hfits.plan
    have hover : p.OwnLeaseOver w now ↔ ¬ now < st.leaseUntil := by
      simp [Planner.OwnLeaseOver, howner, hholder]
    rw [step_own hp howner hholder, publish_eq h howner hplan] at hfirst
    have hserved : st.contentHash = contentHash E s → w₁.outboxes = w.outboxes →
        st₁.activeOutbox = st.activeOutbox → w.Serves E s₁ := fun hsame houtboxes hactive =>
      (serves_congr (hfits.content hfits₁ houtboxes hactive)).mp (serves_of_hash hhash h howner hsame)
    split_ifs at hfirst with hsame hrenew hlease
    · subst hfirst
      obtain rfl : st = st₁ := mem_unique howner howner₁
      exact iff_of_true (.inl (hserved hsame rfl rfl)) (.inl (hserved hsame rfl rfl))
    · subst hfirst
      cases howner₁
      have hserves := hserved hsame rfl rfl
      exact iff_of_true
        (.inl ((serves_of_owner howner { st with leaseUntil := now + p.lease } rfl).mpr hserves))
        (.inl hserves)
    · subst hfirst
      cases howner₁
      exact iff_of_true (.inr hclose) (.inr fun ho => hover.mp ho hlease.1)
    · subst hfirst
      obtain rfl : st = st₁ := mem_unique howner howner₁
      have hpast : ¬ now < st.leaseUntil := fun hlt => hlease ⟨hlt, hfits.size⟩
      have hlater : ¬ later < st.leaseUntil := fun hlt => hpast (lt_of_le_of_lt horder hlt)
      rw [or_iff_left hlater, or_iff_left (not_not.mpr (hover.mpr hpast))]
  · have hrecord : p.record now st = st.takeOver p.identity now (now + p.lease) := if_neg hholder
    rw [hrecord] at hfits
    obtain ⟨dependsOn, hplan⟩ := hfits.plan
    have htaken := h.write howner (st.takeOver p.identity now (now + p.lease)) rfl (.inr rfl)
      (.inl (lt_of_lt_of_le (lt_succ_self _) (le_max_left ..)))
    have hnew : (st.takeOver p.identity now (now + p.lease)).contentHash ≠ contentHash E s :=
      fun hc => hhash _ hc.symm
    have hlease : now < (st.takeOver p.identity now (now + p.lease)).leaseUntil :=
      lt_of_le_of_lt horder hclose
    rw [step_takeOver hp howner hholder (hours.resolve_left hholder), publish_eq htaken rfl hplan,
      if_neg hnew, if_pos ⟨hlease, hfits.size⟩] at hfirst
    subst hfirst
    cases howner₁
    refine iff_of_true (.inr hclose) (.inr ?_)
    rintro ⟨st', hst', hours', -⟩
    rw [howner] at hst'
    cases hst'
    exact hholder hours'

/-- **Two calls publish the current bindings, unless the planner's own lease was over.**  The planner
finds its own record, or one whose lease is over; nobody else writes, and what it plans fits.  After
two calls the active outbox holds the plan of the second just when it did so before that call, or the
planner's own lease was not over when that call began.  If the bindings are the same in both calls,
that is so just when it was so before the first call. -/
theorem two_steps_publish_iff (hp : p.Runs) (hhash : ∀ t, E.hash t ≠ [])
    (h : w.Sound E p.config.region p.config.shard) (howner : w.owner = some st) {now₁ now₂ : Time}
    (hours : st.holder = p.identity ∨ st.leaseUntil ≤ now₁) (horder : now₁ ≤ now₂)
    (hclose : now₂ < now₁ + p.lease) {listed₁ listed₂ : List ResolverBinding}
    {publications₁ publications₂ : Publications} {w₁ w₂ : Registry} {s₁ s₂ : ServingSnapshot}
    (hfirst : (p.step E now₁ listed₁ publications₁ w).2 = w₁)
    (hsecond : (p.step E now₂ listed₂ publications₂ w₁).2 = w₂)
    (hfits₁ : p.Fits E now₁ listed₁ publications₁ (p.record now₁ st)
      { w with owner := some (p.record now₁ st) } s₁)
    (hfits₂ : ∀ st₁, w₁.owner = some st₁ → p.Fits E now₂ listed₂ publications₂ st₁ w₁ s₂) :
    (w₂.Serves E s₂ ↔ w₁.Serves E s₂ ∨ ¬ p.OwnLeaseOver w₁ now₂) ∧
      (listed₁ = listed₂ → publications₁ = publications₂ →
        (w₂.Serves E s₂ ↔ w.Serves E s₂ ∨ ¬ p.OwnLeaseOver w now₁)) := by
  obtain ⟨hsound, st₁, howner₁, hholder₁⟩ :=
    step_keeps hp howner h hours
  rw [hfirst] at hsound howner₁
  have hover : ¬ p.OwnLeaseOver w₁ now₂ ↔ now₂ < st₁.leaseUntil := by
    simp [Planner.OwnLeaseOver, howner₁, hholder₁]
  have hserves := publish_serves_iff hhash hsound howner₁ (hfits₂ st₁ howner₁)
  rw [← step_own hp howner₁ hholder₁, hsecond] at hserves
  refine ⟨by rw [hserves, hover], ?_⟩
  rintro rfl rfl
  rw [hserves]
  exact first_step hp hhash h howner hours horder hclose hfirst hfits₁ howner₁ (hfits₂ st₁ howner₁)

/-- With its own lease over and something to publish, a call changes nothing. -/
theorem step_blocked (hp : p.Runs) (h : w.Sound E p.config.region p.config.shard)
    (howner : w.owner = some st) (hholder : st.holder = p.identity) (hover : st.leaseUntil ≤ now)
    (hfits : p.Fits E now listed publications st w s) (hnew : st.contentHash ≠ contentHash E s) :
    (p.step E now listed publications w).2 = w := by
  obtain ⟨dependsOn, hplan⟩ := hfits.plan
  rw [step_own hp howner hholder, publish_eq h howner hplan, if_neg hnew,
    if_neg fun hlease => Int.not_lt.mpr hover hlease.1]

/-- A test that the plan fits. -/
def Planner.fits (E : Externals) (p : Planner) (now : Time) (listed : List ResolverBinding)
    (publications : Publications) (st : ShardState) (w : Registry) : Bool :=
  (Planner.loadPrior st.activeOutbox w).toOption.any fun prior =>
    (planSnapshot E p.config st now listed publications prior).toOption.any fun r =>
      r.1.bindings = (candidate E p.config st now listed publications prior).bindings &&
        envelopeSize E w.ownerUID r.1 ≤ p.config.budgets.maxBytes

theorem fits_spec (h : p.fits E now listed publications st w = true) :
    ∃ s, p.Fits E now listed publications st w s := by
  obtain ⟨prior, hprior, h⟩ := (any_eq_true ..).mp h
  obtain ⟨⟨s, dependsOn⟩, hplan, hfacts⟩ := (any_eq_true ..).mp h
  rw [toOption_eq_some] at hprior hplan
  simp only [Bool.and_eq_true, decide_eq_true_eq] at hfacts
  refine ⟨s, ⟨dependsOn, bind_eq_ok.mpr ⟨prior, hprior, hplan⟩⟩, fun prior' hprior' => ?_,
    hfacts.2⟩
  cases hprior.symm.trans hprior'
  exact hfacts.1

end Sound

section Results

/-- Libraries whose hash is never empty. -/
def hashing : Externals := { Externals.reference with hash := fun s => 'h' :: s }

/-- A planner of `east/a` with the default lease of 30 seconds. -/
def eastPlanner : Planner := ⟨eastConfig, lit "dns", lit "planner", 0, false⟩

/-- An owner record that nothing was published under, with a lease until one second. -/
def unpublished (holder : GoString) : Registry :=
  ⟨some ⟨holder, 1, 1, 1000000000, [], []⟩, lit "owner", ∅⟩

theorem eastPlanner_runs : eastPlanner.Runs := ⟨by decide, by decide, by decide, by decide, rfl⟩

theorem unpublished_sound (holder : GoString) :
    (unpublished holder).Sound hashing eastPlanner.config.region eastPlanner.config.shard where
  active := by
    rintro _ ⟨⟩ hne
    exact absurd rfl hne
  hashed := by
    rintro _ ⟨⟩ hne
    exact absurd rfl hne
  unused _ _ _ _ _ := lookup_empty _
  fresh _ _ _ := lookup_empty _

/-- A planner that takes over a record whose lease is over publishes the binding. -/
theorem taken_over_shard_served :
    ∃ s, ((eastPlanner.step hashing 3000000000 [storedBinding 1] (fun _ => none)
      (eastPlanner.step hashing 2000000000 [storedBinding 1] (fun _ => none)
        (unpublished (lit "gone"))).2).2).Serves hashing s := by
  have hfits₂ : (eastPlanner.step hashing 2000000000 [storedBinding 1] (fun _ => none)
      (unpublished (lit "gone"))).2.owner.any (fun st₁ =>
        eastPlanner.fits hashing 3000000000 [storedBinding 1] (fun _ => none) st₁
          (eastPlanner.step hashing 2000000000 [storedBinding 1] (fun _ => none)
            (unpublished (lit "gone"))).2) = true := by decide +kernel
  obtain ⟨st₁, howner₁, hfits₂⟩ := (any_eq_true ..).mp hfits₂
  obtain ⟨s₂, hfits₂⟩ := fits_spec hfits₂
  obtain ⟨s₁, hfits₁⟩ := fits_spec
    (show eastPlanner.fits hashing 2000000000 [storedBinding 1] (fun _ => none)
      (eastPlanner.record 2000000000 ⟨lit "gone", 1, 1, 1000000000, [], []⟩)
      { unpublished (lit "gone") with
        owner := some (eastPlanner.record 2000000000 ⟨lit "gone", 1, 1, 1000000000, [], []⟩) } =
        true by decide +kernel)
  refine ⟨s₂, ((two_steps_publish_iff eastPlanner_runs (fun _ => List.cons_ne_nil _ _)
    (unpublished_sound (lit "gone")) rfl (.inr (by decide)) (by decide) (by decide) rfl rfl hfits₁
    ?_).2 rfl rfl).mpr (.inr ?_)⟩
  · intro st hst
    rw [howner₁] at hst
    cases hst
    exact hfits₂
  · rintro ⟨_, ⟨⟩, hholder, -⟩
    exact absurd hholder (by decide)

/-- A planner whose own lease has run out before it published anything never publishes the binding:
both calls end without a write. -/
theorem own_lapsed_lease_blocks :
    (unpublished (lit "planner")).Sound hashing eastPlanner.config.region eastPlanner.config.shard ∧
      (∀ now ∈ [(2000000000 : Time), 3000000000],
        eastPlanner.fits hashing now [storedBinding 1] (fun _ => none)
          ⟨lit "planner", 1, 1, 1000000000, [], []⟩ (unpublished (lit "planner")) = true) ∧
      ∀ s, ¬ ((eastPlanner.step hashing 3000000000 [storedBinding 1] (fun _ => none)
        (eastPlanner.step hashing 2000000000 [storedBinding 1] (fun _ => none)
          (unpublished (lit "planner"))).2).2).Serves hashing s := by
  have hfits : ∀ now ∈ [(2000000000 : Time), 3000000000],
      eastPlanner.fits hashing now [storedBinding 1] (fun _ => none)
        ⟨lit "planner", 1, 1, 1000000000, [], []⟩ (unpublished (lit "planner")) = true := by
    decide +kernel
  have hblocked : ∀ now ∈ [(2000000000 : Time), 3000000000],
      (eastPlanner.step hashing now [storedBinding 1] (fun _ => none)
        (unpublished (lit "planner"))).2 = unpublished (lit "planner") := by
    intro now hnow
    obtain ⟨s, hs⟩ := fits_spec (hfits now hnow)
    have hover : (1000000000 : Time) ≤ now := by
      simp only [List.mem_cons, List.not_mem_nil, or_false] at hnow
      rcases hnow with rfl | rfl <;> decide
    exact step_blocked eastPlanner_runs (unpublished_sound _) rfl rfl hover hs
      (List.cons_ne_nil _ _).symm
  refine ⟨unpublished_sound _, hfits, fun s hserves => ?_⟩
  rw [hblocked _ (by decide), hblocked _ (by decide)] at hserves
  obtain ⟨st, o, ⟨⟩, hlookup, -⟩ := hserves
  exact absurd hlookup (by rw [unpublished, lookup_empty]; nofun)

end Results

end InternalDNS.Platform
