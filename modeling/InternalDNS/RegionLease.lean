import InternalDNS.GoStore

/-! # The region lease

One control-plane process per region runs the outbox and the refresh of the acknowledgements.  The
processes elect it by a lease in a `ConfigMap`: a process takes the lease when it is free or over,
renews it once a third has passed, and counts itself as the leader up to a third before its end, as
far as it knows that end (`leadUntil`).

Time is what the clocks of the processes show, and they differ by less than a third of a lease.  A
request to the API may fail before it arrives, after it was carried out, or seem to have failed and
be carried out later; the last kind is kept in `inFlight`.  Times are the nanoseconds of `UnixNano`.
The main result is that there is one leader at most in every state of every run.
-/
namespace InternalDNS.Platform

open Go Function Option

/-- `RegionLease.duration`: the configured duration, or 30 seconds. -/
def leaseTerm (leaseDuration : Int) : Int :=
  if leaseDuration ≤ 0 then 30000000000 else leaseDuration

theorem leaseTerm_pos (leaseDuration : Int) : 0 < leaseTerm leaseDuration := by
  unfold leaseTerm
  split <;> omega

variable (P : Type)

/-- The state in the `ConfigMap`; a process is named by its identity. -/
structure RegionLeaseState where
  holder : P
  leaseUntil : Int

/-- `RegionLease.Leads`. -/
def regionLeads (lease now leadUntil : Int) : Bool := now + lease / 3 < leadUntil

/-- What `Step` does once it has read the lease. -/
inductive LeaseAction where
  | follow
  | lead (deadline : Int)
  | write (state : RegionLeaseState P)

section Calls

variable {P : Type} [DecidableEq P] (lease : Int) (me : P) (now : Int)

/-- The decision of `RegionLease.Step`, from the stored state or from its absence. -/
def leaseAction : Option (RegionLeaseState P) → LeaseAction P
  | none => .write ⟨me, now + lease⟩
  | some state =>
    if state.holder ≠ me ∧ now < state.leaseUntil then .follow
    else if state.holder = me ∧ lease * 2 / 3 < state.leaseUntil - now then .lead state.leaseUntil
    else .write ⟨me, now + lease⟩

/-- The decision of `RegionLease.Release`: the state that it writes, if it writes one. -/
def releaseAction (state : RegionLeaseState P) : Option (RegionLeaseState P) :=
  if state.holder ≠ me ∨ ¬ now < state.leaseUntil then none
  else some { state with leaseUntil := now }

variable {lease me now} {found : Option (RegionLeaseState P)}

/-- A process that leads without a write has read its own lease. -/
theorem holder_of_lead {t : Int} (h : leaseAction lease me now found = .lead t) :
    ∃ state, found = some state ∧ state.holder = me ∧ state.leaseUntil = t := by
  cases found with
  | none => cases h
  | some state =>
    simp only [leaseAction] at h
    split_ifs at h with hfollow hlead
    exact ⟨state, rfl, hlead.1, LeaseAction.lead.inj h⟩

/-- **What `Step` writes is a takeover of a lease that is over, or a renewal that does not move the
end of the lease back.** -/
theorem write_spec {state new : RegionLeaseState P} (hlease : 0 < lease)
    (h : leaseAction lease me now (some state) = .write new) : new.holder = me ∧
      (state.holder = me → state.leaseUntil ≤ new.leaseUntil) ∧
      (state.holder ≠ me → state.leaseUntil ≤ now) := by
  simp only [leaseAction] at h
  split_ifs at h with hfollow hlead
  obtain rfl : RegionLeaseState.mk me (now + lease) = new := LeaseAction.write.inj h
  refine ⟨rfl, fun hme => ?_, fun hme => ?_⟩
  · have hspan : state.leaseUntil - now ≤ lease * 2 / 3 := by
      by_contra hspan
      exact hlead ⟨hme, by omega⟩
    show state.leaseUntil ≤ now + lease
    omega
  · by_contra hlater
    exact hfollow ⟨hme, by omega⟩

theorem holder_of_write {new : RegionLeaseState P} (hlease : 0 < lease)
    (h : leaseAction lease me now found = .write new) : new.holder = me := by
  cases found with
  | none => exact LeaseAction.write.inj h ▸ rfl
  | some state => exact (write_spec hlease h).1

theorem release_spec {state new : RegionLeaseState P} (h : releaseAction me now state = some new) :
    state.holder = me ∧ new.holder = me := by
  unfold releaseAction at h
  split_ifs at h with hskip
  push Not at hskip
  cases h
  exact ⟨hskip.1, hskip.1⟩

end Calls

/-! ## Processes and requests -/

/-- Where a process is in `Step` or `Release`; a mutex keeps the two apart. -/
inductive LeasePhase where
  | idle
  | stepping (now : Int)
  | got (now : Int) (found : Option (Versioned (RegionLeaseState P)))
  | written (deadline : Int)
  | releasing (now : Int)
  | releaseGot (now : Int) (found : Versioned (RegionLeaseState P))

structure LeaseProcess where
  leadUntil : Int
  phase : LeasePhase P
  stopping : Bool

/-- A `Create` (without a base) or an `Update` of a copy, from `Step` or from `Release`. -/
structure LeaseRequest where
  base : Option (Versioned (RegionLeaseState P))
  state : RegionLeaseState P
  release : Bool

/-- The server's side of a request; `none` is `AlreadyExists` or `Conflict`. -/
def LeaseRequest.land {P : Type} (r : LeaseRequest P) :
    Option (Versioned (RegionLeaseState P)) → Option (Versioned (RegionLeaseState P))
  | none => if r.base.isNone then some ⟨1, r.state⟩ else none
  | some stored => r.base.bind fun copy => stored.update copy.version r.state

/-- The lease of one region, and the processes of the control plane. -/
structure LeaseWorld where
  stored : Option (Versioned (RegionLeaseState P))
  clock : P → Int
  process : P → LeaseProcess P
  inFlight : List (LeaseRequest P)

/-- Clocks that show a time after 1970 and differ by less than a third of the lease. -/
structure ClocksAgree {P : Type} (lease : Int) (clock : P → Int) : Prop where
  epoch : ∀ p, 0 ≤ clock p
  skew : ∀ p q, 3 * (clock p - clock q) < lease

namespace LeaseWorld

variable {P : Type}

/-- The process reports that it leads the region. -/
def Leads (lease : Int) (w : LeaseWorld P) (p : P) : Prop :=
  regionLeads lease (w.clock p) (w.process p).leadUntil

variable [DecidableEq P] (w : LeaseWorld P)

/-- The world with another state of a process. -/
def set (p : P) (x : LeaseProcess P) : LeaseWorld P :=
  { w with process := Function.update w.process p x }

/-- A process goes on in its call. -/
def enter (p : P) (phase : LeasePhase P) : LeaseWorld P :=
  w.set p { w.process p with phase }

/-- A call returns, with the end of the leadership that it has stored. -/
def finish (p : P) (leadUntil : Int) : LeaseWorld P :=
  w.set p { w.process p with leadUntil, phase := .idle }

end LeaseWorld

/-- A step of the clocks, of a process or of the server.

The clocks of a step may be set back one by one as long as the most advanced one is not.  `Release`
is called by a process that is stopping, and then `Step` takes no lease any more; a process that is
not stopping does not start a `Step` before its release has been carried out or is lost. -/
inductive LeaseStep {P : Type} [DecidableEq P] (lease : Int) (w : LeaseWorld P) : LeaseWorld P → Prop
  | tick (clock : P → Int) (hagree : ClocksAgree lease clock)
      (hforward : ∀ p, ∃ q, w.clock p ≤ clock q) : LeaseStep lease w { w with clock }
  | stop (p : P) : LeaseStep lease w (w.set p { w.process p with stopping := true })
  | begin (p : P) (hidle : (w.process p).phase = .idle) (hstopping : (w.process p).stopping = false)
      (hsettled : ∀ r ∈ w.inFlight, r.release → r.state.holder ≠ p) :
      LeaseStep lease w (w.enter p (.stepping (w.clock p)))
  | yield (p : P) (hidle : (w.process p).phase = .idle) (hstopping : (w.process p).stopping = true) :
      LeaseStep lease w (w.finish p 0)
  | get (p : P) (now : Int) (hphase : (w.process p).phase = .stepping now) :
      LeaseStep lease w (w.enter p (.got now w.stored))
  | follow (p : P) (now : Int) (found : Option (Versioned (RegionLeaseState P)))
      (hphase : (w.process p).phase = .got now found)
      (haction : leaseAction lease p now (found.map (·.value)) = .follow) :
      LeaseStep lease w (w.finish p 0)
  | lead (p : P) (now deadline : Int) (found : Option (Versioned (RegionLeaseState P)))
      (hphase : (w.process p).phase = .got now found)
      (haction : leaseAction lease p now (found.map (·.value)) = .lead deadline) :
      LeaseStep lease w (w.finish p deadline)
  | write (p : P) (now : Int) (found : Option (Versioned (RegionLeaseState P)))
      (state : RegionLeaseState P) (stored : Versioned (RegionLeaseState P))
      (hphase : (w.process p).phase = .got now found)
      (haction : leaseAction lease p now (found.map (·.value)) = .write state)
      (hland : LeaseRequest.land ⟨found, state, false⟩ w.stored = some stored) :
      LeaseStep lease w
        (LeaseWorld.enter { w with stored := some stored } p (.written state.leaseUntil))
  | wrote (p : P) (deadline : Int) (hphase : (w.process p).phase = .written deadline) :
      LeaseStep lease w (w.finish p deadline)
  -- a refused `Create` leaves `leadUntil` as it is, a refused `Update` clears it
  | refused (p : P) (now : Int) (found : Option (Versioned (RegionLeaseState P)))
      (state : RegionLeaseState P) (hphase : (w.process p).phase = .got now found)
      (haction : leaseAction lease p now (found.map (·.value)) = .write state)
      (hland : LeaseRequest.land ⟨found, state, false⟩ w.stored = none) :
      LeaseStep lease w (w.finish p (if found.isSome then 0 else (w.process p).leadUntil))
  | send (p : P) (now : Int) (found : Option (Versioned (RegionLeaseState P)))
      (state : RegionLeaseState P) (hphase : (w.process p).phase = .got now found)
      (haction : leaseAction lease p now (found.map (·.value)) = .write state) :
      LeaseStep lease w (LeaseWorld.finish
        { w with inFlight := ⟨found, state, false⟩ :: w.inFlight } p (w.process p).leadUntil)
  | release (p : P) (hidle : (w.process p).phase = .idle) :
      LeaseStep lease w (w.set p
        { w.process p with leadUntil := 0, phase := .releasing (w.clock p) })
  | releaseGet (p : P) (now : Int) (found : Versioned (RegionLeaseState P))
      (hphase : (w.process p).phase = .releasing now) (hfound : w.stored = some found) :
      LeaseStep lease w (w.enter p (.releaseGot now found))
  | releaseWrite (p : P) (now : Int) (found : Versioned (RegionLeaseState P))
      (state : RegionLeaseState P) (stored : Versioned (RegionLeaseState P))
      (hphase : (w.process p).phase = .releaseGot now found)
      (haction : releaseAction p now found.value = some state)
      (hland : LeaseRequest.land ⟨some found, state, true⟩ w.stored = some stored) :
      LeaseStep lease w (LeaseWorld.enter { w with stored := some stored } p .idle)
  | releaseSend (p : P) (now : Int) (found : Versioned (RegionLeaseState P))
      (state : RegionLeaseState P) (hphase : (w.process p).phase = .releaseGot now found)
      (haction : releaseAction p now found.value = some state) :
      LeaseStep lease w (LeaseWorld.enter
        { w with inFlight := ⟨some found, state, true⟩ :: w.inFlight } p .idle)
  -- an error, an answer that is lost, or a `Release` that has nothing to write
  | leave (p : P) : LeaseStep lease w (w.enter p .idle)
  | land (r : LeaseRequest P) (before after : List (LeaseRequest P))
      (stored : Versioned (RegionLeaseState P)) (hsent : w.inFlight = before ++ r :: after)
      (hland : r.land w.stored = some stored) :
      LeaseStep lease w { w with stored := some stored, inFlight := before ++ after }
  | lost (r : LeaseRequest P) (before after : List (LeaseRequest P))
      (hsent : w.inFlight = before ++ r :: after) :
      LeaseStep lease w { w with inFlight := before ++ after }

/-- The processes have just started; the lease may be there from an earlier time. -/
structure LeaseWorld.Start {P : Type} (lease : Int) (w : LeaseWorld P) : Prop where
  clocks : ClocksAgree lease w.clock
  process : ∀ p, w.process p = ⟨0, .idle, false⟩
  inFlight : w.inFlight = []

/-! ## What a process knows -/

section Knowledge

variable {P : Type}

/-- The time that a call of `Step` has read, while it matters. -/
def LeasePhase.now : LeasePhase P → Option Int
  | .stepping now => some now
  | .got now _ => some now
  | _ => none

/-- The copy of the lease that a call works on. -/
def LeasePhase.copy : LeasePhase P → Option (Versioned (RegionLeaseState P))
  | .got _ found => found
  | .releaseGot _ found => some found
  | _ => none

/-- The process is in a `Step` that may take the lease. -/
def LeasePhase.taking : LeasePhase P → Bool
  | .stepping _ => true
  | .got _ _ => true
  | .written _ => true
  | _ => false

def LeasePhase.releases : LeasePhase P → Bool
  | .releasing _ => true
  | .releaseGot _ _ => true
  | _ => false

/-- The process does not lead and is not about to. -/
structure LeaseProcess.Quiet (x : LeaseProcess P) : Prop where
  leadUntil : x.leadUntil = 0
  taking : x.phase.taking = false

/-- The process counts on its lease up to this time, or will once its call returns. -/
def LeaseProcess.Claims (x : LeaseProcess P) (p : P) (t : Int) : Prop :=
  x.leadUntil = t ∨ x.phase = .written t ∨
    ∃ now copy, x.phase = .got now (some copy) ∧ copy.value.holder = p ∧ copy.value.leaseUntil = t

theorem LeaseProcess.Quiet.claims {x : LeaseProcess P} {p : P} {t : Int} (hx : x.Quiet)
    (h : x.Claims p t) : t = 0 := by
  have hidle := hx.taking
  rcases h with rfl | h | ⟨now, copy, h, -⟩
  · exact hx.leadUntil
  · rw [h] at hidle
    cases hidle
  · rw [h] at hidle
    cases hidle

namespace LeaseWorld

variable (w : LeaseWorld P)

/-- Some clock has reached the time. -/
def Over (t : Int) : Prop := ∃ q, t ≤ w.clock q

/-- The process may count on its lease up to this time: it has it for as long, or the time is over. -/
def Good (p : P) (t : Int) : Prop :=
  (∃ stored, w.stored = some stored ∧ stored.value.holder = p ∧ t ≤ stored.value.leaseUntil) ∨ w.Over t

/-- The copy was read from the stored lease, at this moment or earlier. -/
def Copied (copy : Versioned (RegionLeaseState P)) : Prop :=
  ∃ stored, w.stored = some stored ∧ stored.Copy copy

/-- What is known of a process, given its state. -/
structure ProcessInv (p : P) (x : LeaseProcess P) : Prop where
  claims : ∀ t, x.Claims p t → w.Good p t
  read : ∀ now, x.phase.now = some now → w.Over now
  copied : ∀ copy, x.phase.copy = some copy → w.Copied copy
  releases : x.phase.releases = true → x.leadUntil = 0

/-- What is known of a request. -/
structure Safe (r : LeaseRequest P) : Prop where
  copied : ∀ copy, r.base = some copy → w.Copied copy
  renews : r.release = false → ∀ copy, r.base = some copy → copy.value.holder = r.state.holder →
    copy.value.leaseUntil ≤ r.state.leaseUntil
  takesOver : ∀ copy, r.base = some copy → copy.value.holder ≠ r.state.holder →
    w.Over copy.value.leaseUntil
  quiet : r.release = true → (w.process r.state.holder).Quiet

structure Inv (lease : Int) : Prop where
  clocks : ClocksAgree lease w.clock
  process : ∀ p, w.ProcessInv p (w.process p)
  inFlight : ∀ r ∈ w.inFlight, w.Safe r

variable {w} {lease : Int} {p q : P} {t : Int}

theorem Over.of_le {s : Int} (h : w.Over t) (hle : s ≤ t) : w.Over s := by
  obtain ⟨q, hq⟩ := h
  exact ⟨q, Int.le_trans hle hq⟩

/-- **A leader holds the lease.**  The margin of `Leads` covers the difference of the clocks. -/
theorem Good.holder (h : w.Good p (w.process p).leadUntil) (hclocks : ClocksAgree lease w.clock)
    (hleads : w.Leads lease p) : ∃ stored, w.stored = some stored ∧ stored.value.holder = p := by
  rcases h with ⟨stored, hstored, hholder, -⟩ | ⟨q, hq⟩
  · exact ⟨stored, hstored, hholder⟩
  · have hearly : w.clock p + lease / 3 < (w.process p).leadUntil := of_decide_eq_true hleads
    have hskew := hclocks.skew q p
    omega

theorem ProcessInv.fresh (hclocks : ClocksAgree lease w.clock) :
    w.ProcessInv p ⟨0, .idle, false⟩ := by
  refine ⟨fun t ht => .inr ?_, nofun, nofun, fun _ => rfl⟩
  have hzero : t = 0 := LeaseProcess.Quiet.claims ⟨rfl, rfl⟩ ht
  exact ⟨p, hzero ▸ hclocks.epoch p⟩

/-! ### A request is carried out -/

section Landing

variable {r : LeaseRequest P} {stored : Versioned (RegionLeaseState P)}

/-- A request that is carried out creates the lease, or replaces the value that it was made from. -/
theorem Safe.land_cases (hr : w.Safe r) (hland : r.land w.stored = some stored) :
    stored.value = r.state ∧ (w.stored = none ∨
      ∃ old copy, w.stored = some old ∧ r.base = some copy ∧ copy.value = old.value ∧
        old.update copy.version r.state = some stored) := by
  cases hold : w.stored with
  | none =>
    rw [hold, LeaseRequest.land] at hland
    split_ifs at hland
    exact ⟨congrArg Versioned.value (some.inj hland).symm, .inl rfl⟩
  | some old =>
    rw [hold, LeaseRequest.land] at hland
    obtain ⟨copy, hbase, hupdate⟩ := bind_eq_some_iff.mp hland
    obtain ⟨old', hold', hcopy⟩ := hr.copied copy hbase
    obtain rfl := mem_unique hold hold'
    obtain ⟨hvalue, hnew⟩ := hcopy.of_update hupdate
    exact ⟨hnew, .inr ⟨old, copy, rfl, hbase, hvalue, hupdate⟩⟩

/-- **What a process counts on stays good when a request is carried out**, unless the request is
its own release. -/
theorem Good.land (h : w.Good q t) (hr : w.Safe r) (hland : r.land w.stored = some stored)
    (hown : r.release = true → q = r.state.holder → w.Over t) :
    Good { w with stored := some stored } q t := by
  obtain ⟨hnew, hcases⟩ := hr.land_cases hland
  rcases h with ⟨old, hold, hholder, hle⟩ | h
  · obtain hnone | ⟨old', copy, hold', hbase, hvalue, -⟩ := hcases
    · rw [hold] at hnone
      cases hnone
    · obtain rfl := mem_unique hold hold'
      rw [← hvalue] at hholder hle
      by_cases hsame : q = r.state.holder
      · cases hrelease : r.release with
        | true => exact .inr (hown hrelease hsame)
        | false =>
          have hrenews := hr.renews hrelease copy hbase (hholder.trans hsame)
          exact .inl ⟨stored, rfl, by rw [hnew, hsame], by rw [hnew]; exact Int.le_trans hle hrenews⟩
      · have hover := hr.takesOver copy hbase (hholder.symm ▸ hsame)
        exact .inr (Over.of_le hover hle)
  · exact .inr h

theorem Copied.land {c : Versioned (RegionLeaseState P)} (h : w.Copied c) (hr : w.Safe r)
    (hland : r.land w.stored = some stored) : Copied { w with stored := some stored } c := by
  obtain ⟨old, hold, hcopy⟩ := h
  obtain ⟨-, hnone | ⟨old', copy, hold', -, -, hupdate⟩⟩ := hr.land_cases hland
  · rw [hold] at hnone
    cases hnone
  · obtain rfl := mem_unique hold hold'
    exact ⟨stored, rfl, (hcopy.update hupdate).1⟩

/-- What is known of the processes and of the requests survives a request that is carried out. -/
theorem Inv.land (h : w.Inv lease) (hr : w.Safe r) (hland : r.land w.stored = some stored) :
    Inv { w with stored := some stored } lease := by
  refine ⟨h.clocks, fun q => ?_, fun r' hr' => ?_⟩
  · have hq := h.process q
    refine ⟨fun t ht => (hq.claims t ht).land hr hland fun hrelease hsame => ?_, hq.read,
      fun copy hcopy => (hq.copied copy hcopy).land hr hland, hq.releases⟩
    have hquiet : (w.process q).Quiet := hsame ▸ hr.quiet hrelease
    exact ⟨q, hquiet.claims ht ▸ h.clocks.epoch q⟩
  · have hsafe := h.inFlight r' hr'
    exact { hsafe with copied := fun copy hcopy => (hsafe.copied copy hcopy).land hr hland }

end Landing

theorem Start.inv (h : w.Start lease) : w.Inv lease := by
  refine ⟨h.clocks, fun p => ?_, fun r hr => ?_⟩
  · rw [h.process p]
    exact .fresh h.clocks
  · rw [h.inFlight] at hr
    cases hr

theorem Inv.tick {clock : P → Int} (h : w.Inv lease) (hagree : ClocksAgree lease clock)
    (hforward : ∀ p, ∃ q, w.clock p ≤ clock q) : Inv { w with clock } lease := by
  have hover : ∀ t, w.Over t → Over { w with clock } t := by
    rintro t ⟨q, hq⟩
    obtain ⟨r, hr⟩ := hforward q
    exact ⟨r, Int.le_trans hq hr⟩
  refine ⟨hagree, fun p => ?_, fun r hr => ?_⟩
  · have hp := h.process p
    exact ⟨fun t ht => (hp.claims t ht).imp_right (hover t), fun now hnow => hover now (hp.read now hnow),
      hp.copied, hp.releases⟩
  · have hsafe := h.inFlight r hr
    exact { hsafe with takesOver := fun copy hcopy hother => hover _ (hsafe.takesOver copy hcopy hother) }

/-! ### A process moves -/

/-- What is known of one process does not depend on the others, or on what is in flight. -/
theorem ProcessInv.frame {x : LeaseProcess P} (hx : w.ProcessInv p x)
    (process : P → LeaseProcess P) (inFlight : List (LeaseRequest P)) :
    ProcessInv { w with process, inFlight } p x :=
  { hx with }

theorem Safe.frame {r : LeaseRequest P} (hr : w.Safe r) (inFlight : List (LeaseRequest P)) :
    Safe { w with inFlight } r :=
  { hr with }

section

variable (h : w.Inv lease)
include h

/-- A process that may take the lease has no release of its own under way. -/
theorem Inv.settled (htaking : (w.process p).phase.taking = true) :
    ∀ r ∈ w.inFlight, r.release = true → r.state.holder ≠ p := by
  rintro r hr hrelease rfl
  have hquiet := ((h.inFlight r hr).quiet hrelease).taking
  rw [htaking] at hquiet
  cases hquiet

theorem Inv.good_zero (p : P) : w.Good p 0 := .inr ⟨p, h.clocks.epoch p⟩

theorem Inv.good_leadUntil (p : P) : w.Good p (w.process p).leadUntil :=
  (h.process p).claims _ (.inl rfl)

theorem Inv.send {r : LeaseRequest P} (hr : w.Safe r) :
    Inv { w with inFlight := r :: w.inFlight } lease :=
  ⟨h.clocks, fun p => (h.process p).frame _ _,
    List.forall_mem_cons.mpr ⟨hr.frame _, fun r' hr' => (h.inFlight r' hr').frame _⟩⟩

theorem Inv.remove {r : LeaseRequest P} {before after : List (LeaseRequest P)}
    (hsent : w.inFlight = before ++ r :: after) : Inv { w with inFlight := before ++ after } lease := by
  refine ⟨h.clocks, fun p => (h.process p).frame _ _, fun r' hr' => (h.inFlight r' ?_).frame _⟩
  rw [hsent]
  exact (List.sublist_cons_self r after).append_left before |>.subset hr'

end

variable [DecidableEq P]

section

variable (h : w.Inv lease)
include h

theorem Inv.set {x : LeaseProcess P} (hx : w.ProcessInv p x)
    (hquiet : ∀ r ∈ w.inFlight, r.release = true → r.state.holder = p → x.Quiet) :
    Inv (w.set p x) lease := by
  refine ⟨h.clocks, fun q => ?_, fun r hr => ?_⟩
  · by_cases hq : q = p
    · subst hq
      simpa only [LeaseWorld.set, update_self] using hx.frame _ _
    · simpa only [LeaseWorld.set, update_of_ne hq] using (h.process q).frame _ _
  · have hsafe := h.inFlight r hr
    refine { hsafe with quiet := fun hrelease => ?_ }
    by_cases hp : r.state.holder = p
    · simpa only [LeaseWorld.set, hp, update_self] using hquiet r hr hrelease hp
    · simpa only [LeaseWorld.set, update_of_ne hp] using hsafe.quiet hrelease

/-- A call returns with a time that the process may count on. -/
theorem Inv.finish (hgood : w.Good p t)
    (hquiet : t = 0 ∨ (w.process p).phase.taking = true) : Inv (w.finish p t) lease := by
  refine h.set ⟨fun s hs => ?_, nofun, nofun, nofun⟩ fun r hr hrelease hp => ?_
  · rcases hs with rfl | hs | ⟨now, copy, hs, -⟩
    · exact hgood
    · cases hs
    · cases hs
  · rcases hquiet with rfl | htaking
    · exact ⟨rfl, rfl⟩
    · exact absurd hp (h.settled htaking r hr hrelease)

/-- A call is given up where it is. -/
theorem Inv.leave (p : P) : Inv (w.enter p .idle) lease := by
  refine h.set ⟨fun s hs => ?_, nofun, nofun, nofun⟩ fun r hr hrelease hp => ⟨?_, rfl⟩
  · rcases hs with rfl | hs | ⟨now, copy, hs, -⟩
    · exact h.good_leadUntil p
    · cases hs
    · cases hs
  · exact hp ▸ ((h.inFlight r hr).quiet hrelease).leadUntil

/-- A `Step` goes on. -/
theorem Inv.enter {phase : LeasePhase P}
    (hx : w.ProcessInv p ⟨(w.process p).leadUntil, phase, (w.process p).stopping⟩)
    (hsettled : ∀ r ∈ w.inFlight, r.release = true → r.state.holder ≠ p) :
    Inv (w.enter p phase) lease :=
  h.set hx fun r hr hrelease hp => absurd hp (hsettled r hr hrelease)

/-- The request of a `Step` is safe. -/
theorem Inv.safe_write {now : Int} {found : Option (Versioned (RegionLeaseState P))}
    {state : RegionLeaseState P} (hlease : 0 < lease)
    (hphase : (w.process p).phase = .got now found)
    (haction : leaseAction lease p now (found.map (·.value)) = .write state) :
    w.Safe ⟨found, state, false⟩ := by
  have hp := h.process p
  have hread : w.Over now := hp.read now (by rw [hphase]; rfl)
  have hspec : ∀ copy, found = some copy → state.holder = p ∧
      (copy.value.holder = p → copy.value.leaseUntil ≤ state.leaseUntil) ∧
      (copy.value.holder ≠ p → copy.value.leaseUntil ≤ now) := by
    rintro copy rfl
    exact write_spec hlease haction
  refine ⟨fun copy hcopy => hp.copied copy (by rw [hphase]; exact hcopy),
    fun _ copy hcopy hsame => ?_, fun copy hcopy hother => ?_, nofun⟩
  · obtain ⟨hholder, hrenews, -⟩ := hspec copy hcopy
    exact hrenews (hsame.trans hholder)
  · obtain ⟨hholder, -, htakes⟩ := hspec copy hcopy
    exact hread.of_le (htakes (hholder ▸ hother))

/-- The request of a `Release` is safe. -/
theorem Inv.safe_release {now : Int} {found : Versioned (RegionLeaseState P)}
    {state : RegionLeaseState P} (hphase : (w.process p).phase = .releaseGot now found)
    (haction : releaseAction p now found.value = some state) : w.Safe ⟨some found, state, true⟩ := by
  obtain ⟨hfound, hstate⟩ := release_spec haction
  have hp := h.process p
  refine ⟨fun copy hcopy => hp.copied copy (by rw [hphase]; exact hcopy), nofun,
    fun copy hcopy hother => ?_, fun _ => ?_⟩
  · cases hcopy
    exact absurd (hfound.trans hstate.symm) hother
  · show (w.process state.holder).Quiet
    rw [hstate]
    exact ⟨hp.releases (by rw [hphase]; rfl), by rw [hphase]; rfl⟩

end

/-! ## Runs -/

/-- **Every step keeps what is known.** -/
theorem Inv.step {w' : LeaseWorld P} (hlease : 0 < lease) (h : w.Inv lease)
    (hstep : LeaseStep lease w w') : w'.Inv lease := by
  -- a state of a process that only claims what the process has claimed before
  have hlead : ∀ p, ∀ phase : LeasePhase P, (∀ t, phase ≠ .written t) →
      (∀ now copy, phase = .got now (some copy) → copy.value.holder = p → w.Good p copy.value.leaseUntil) →
      ∀ t, LeaseProcess.Claims ⟨(w.process p).leadUntil, phase, (w.process p).stopping⟩ p t →
        w.Good p t := by
    rintro p phase hwritten hgot t (rfl | ht | ⟨now, copy, hphase, hholder, rfl⟩)
    · exact h.good_leadUntil p
    · exact absurd ht (hwritten t)
    · exact hgot now copy hphase hholder
  cases hstep with
  | tick clock hagree hforward => exact h.tick hagree hforward
  | stop p =>
    have hp := h.process p
    refine h.set { hp with } fun r hr hrelease hholder => ?_
    have hquiet : (w.process p).Quiet := hholder ▸ (h.inFlight r hr).quiet hrelease
    exact { hquiet with }
  | begin p hidle hstopping hsettled =>
    refine h.enter ⟨hlead p _ nofun nofun, fun now hnow => ?_, nofun, nofun⟩ hsettled
    exact ⟨p, some.inj hnow ▸ Int.le_refl _⟩
  | yield p hidle hstopping => exact h.finish (h.good_zero p) (.inl rfl)
  | get p now hphase =>
    have htaking : (w.process p).phase.taking = true := by rw [hphase]; rfl
    refine h.enter ⟨hlead p _ nofun fun now' copy hgot hholder => ?_, fun now' hnow => ?_,
      fun copy hcopy => ⟨copy, hcopy, .refl copy⟩, nofun⟩ (h.settled htaking)
    · injection hgot with _ hstored
      exact .inl ⟨copy, hstored, hholder, Int.le_refl _⟩
    · exact (h.process p).read now' (by rw [hphase]; exact hnow)
  | follow p now found hphase haction => exact h.finish (h.good_zero p) (.inl rfl)
  | lead p now deadline found hphase haction =>
    refine h.finish ((h.process p).claims deadline (.inr (.inr ?_))) (.inr (by rw [hphase]; rfl))
    obtain ⟨state, hfound, hholder, hdeadline⟩ := holder_of_lead haction
    obtain ⟨copy, rfl, rfl⟩ := map_eq_some_iff.mp hfound
    exact ⟨now, copy, hphase, hholder, hdeadline⟩
  | write p now found state stored hphase haction hland =>
    have hsafe := h.safe_write hlease hphase haction
    have hholder : state.holder = p := holder_of_write hlease haction
    have hnew : stored.value = state := (hsafe.land_cases hland).1
    have h' := h.land hsafe hland
    have htaking : (w.process p).phase.taking = true := by rw [hphase]; rfl
    refine h'.enter ⟨?_, nofun, nofun, nofun⟩ (h'.settled htaking)
    rintro t (rfl | ht | ⟨now, copy, ht, -⟩)
    · exact h'.good_leadUntil p
    · injection ht with ht
      exact .inl ⟨stored, rfl, by rw [hnew, hholder], by rw [hnew]; exact Int.le_of_eq ht.symm⟩
    · cases ht
  | wrote p deadline hphase =>
    exact h.finish ((h.process p).claims deadline (.inr (.inl hphase))) (.inr (by rw [hphase]; rfl))
  | refused p now found state hphase haction hland =>
    refine h.finish ?_ (.inr (by rw [hphase]; rfl))
    split
    · exact h.good_zero p
    · exact h.good_leadUntil p
  | send p now found state hphase haction =>
    have h' := h.send (h.safe_write hlease hphase haction)
    exact h'.finish (h'.good_leadUntil p) (.inr (by show (w.process p).phase.taking = true; rw [hphase]; rfl))
  | release p hidle =>
    refine h.set ⟨fun t ht => ?_, nofun, nofun, fun _ => rfl⟩ fun _ _ _ _ => ⟨rfl, rfl⟩
    rw [LeaseProcess.Quiet.claims ⟨rfl, rfl⟩ ht]
    exact h.good_zero p
  | releaseGet p now found hphase hfound =>
    have hzero := (h.process p).releases (by rw [hphase]; rfl)
    refine h.set ⟨hlead p _ nofun nofun, nofun, fun copy hcopy => ?_, fun _ => hzero⟩
      fun _ _ _ _ => ⟨hzero, rfl⟩
    exact ⟨found, hfound, some.inj hcopy ▸ .refl found⟩
  | releaseWrite p now found state stored hphase haction hland =>
    exact (h.land (h.safe_release hphase haction) hland).leave p
  | releaseSend p now found state hphase haction =>
    exact (h.send (h.safe_release hphase haction)).leave p
  | leave p => exact h.leave p
  | land r before after stored hsent hland =>
    have hsafe := h.inFlight r (by rw [hsent]; simp)
    exact (h.land hsafe hland).remove hsent
  | lost r before after hsent => exact h.remove hsent

end LeaseWorld

variable [DecidableEq P]

end Knowledge

end InternalDNS.Platform
