import InternalDNS.GoStore
import InternalDNS.GoStrings

/-! # Who owns a domain

Zones of several clusters may ask for one domain.  A `ConfigMap` named after the domain records the
owner that the domain was given to: the reconcile of a zone claims the domain if there is no record,
and goes on only if the record names the zone; a zone that is deleted removes its record.

The record is read through a cache, so what a reconcile acts on may be any earlier state of it
(`history`), and the writes carry no precondition.  `told` are the zones whose reconcile was answered
that they own the domain, and `lost` the claims that the cleanup of another zone deleted.
-/
namespace InternalDNS.Replicator

open Go

/-! ## Owners -/

/-- A zone of a cluster.  Cluster names no longer start with a slash, and the other names have none. -/
structure ZoneID where
  cluster : GoString
  namespaceName : GoString
  name : GoString
  cluster_ok : cluster.head? ≠ some '/'
  namespace_ok : '/' ∉ namespaceName
  name_ok : '/' ∉ name
  deriving DecidableEq

/-- The owner in the record of a zone. -/
def ZoneID.owner (z : ZoneID) : GoString :=
  z.cluster ++ ['/'] ++ z.namespaceName ++ ['/'] ++ z.name

/-- `zoneOwnerKey`, which is `strings.TrimPrefix(owner, "/")`. -/
def zoneOwnerKey : GoString → GoString
  | '/' :: rest => rest
  | owner => owner

/-- `sameZoneOwner`. -/
def sameZoneOwner (a b : GoString) : Bool := zoneOwnerKey a = zoneOwnerKey b

/-- A rest that starts with a slash has no other slash. -/
theorem eq_nil_of_slash {e x y : GoString} (hx : '/' ∉ x) (h : ['/'] ++ x = e ++ (['/'] ++ y)) :
    e = [] := by
  cases e with
  | nil => rfl
  | cons c e =>
    obtain ⟨-, rfl⟩ : '/' = c ∧ x = e ++ (['/'] ++ y) := by simpa using h
    exact absurd (by simp) hx

/-- The last segment of a path is determined. -/
theorem append_slash_inj {a b x y : GoString} (hx : '/' ∉ x) (hy : '/' ∉ y)
    (h : a ++ ['/'] ++ x = b ++ ['/'] ++ y) : a = b ∧ x = y := by
  have hab : a = b := by
    have h' := h
    rw [List.append_assoc, List.append_assoc, List.append_eq_append_iff] at h'
    rcases h' with ⟨e, rfl, he⟩ | ⟨e, rfl, he⟩
    · rw [eq_nil_of_slash hx he, List.append_nil]
    · rw [eq_nil_of_slash hy he, List.append_nil]
  subst hab
  exact ⟨rfl, List.append_cancel_left h⟩

/-- The key is the owner without the slash of an empty cluster name. -/
theorem zoneOwnerKey_owner (z : ZoneID) : zoneOwnerKey z.owner =
    if z.cluster = [] then z.namespaceName ++ ['/'] ++ z.name else z.owner := by
  cases hcluster : z.cluster with
  | nil => simp [ZoneID.owner, hcluster, zoneOwnerKey]
  | cons c rest =>
    have hne : c ≠ '/' := fun heq => z.cluster_ok (by rw [hcluster, heq]; rfl)
    simp only [ZoneID.owner, hcluster, List.cons_append, reduceCtorEq, if_false]
    unfold zoneOwnerKey
    split
    · next heq => exact absurd (List.cons.inj heq).1 hne
    · rfl

/-- **Different zones have different owners**, also in the comparison that forgives a slash. -/
theorem ZoneID.eq_of_sameZoneOwner {z₁ z₂ : ZoneID}
    (h : sameZoneOwner z₁.owner z₂.owner = true) : z₁ = z₂ := by
  have hkey : zoneOwnerKey z₁.owner = zoneOwnerKey z₂.owner := of_decide_eq_true h
  rw [zoneOwnerKey_owner, zoneOwnerKey_owner] at hkey
  have hsegments : z₁.cluster = z₂.cluster ∧ z₁.namespaceName = z₂.namespaceName ∧
      z₁.name = z₂.name := by
    split_ifs at hkey with h₁ h₂ h₂
    · obtain ⟨hns, hname⟩ := append_slash_inj z₁.name_ok z₂.name_ok hkey
      exact ⟨h₁.trans h₂.symm, hns, hname⟩
    · -- the other owner has a segment more than the key of an empty cluster name
      obtain ⟨hns, -⟩ := append_slash_inj z₁.name_ok z₂.name_ok hkey
      exact absurd (by simp [hns]) z₁.namespace_ok
    · obtain ⟨hns, -⟩ := append_slash_inj z₁.name_ok z₂.name_ok hkey
      exact absurd (by simp [← hns]) z₂.namespace_ok
    · obtain ⟨hfront, hname⟩ := append_slash_inj z₁.name_ok z₂.name_ok hkey
      obtain ⟨hcluster, hns⟩ := append_slash_inj z₁.namespace_ok z₂.namespace_ok hfront
      exact ⟨hcluster, hns, hname⟩
  obtain ⟨hcluster, hns, hname⟩ := hsegments
  cases z₁
  cases z₂
  simp only at hcluster hns hname
  subst hcluster hns hname
  rfl

theorem sameZoneOwner_trans {a b c : GoString} (hab : sameZoneOwner a b = true)
    (hac : sameZoneOwner a c = true) : sameZoneOwner b c = true :=
  decide_eq_true ((of_decide_eq_true hab).symm.trans (of_decide_eq_true hac))

theorem sameZoneOwner_refl (a : GoString) : sameZoneOwner a a = true := decide_eq_true rfl

/-! ## The record -/

/-- What a reconcile is about to do with what it has read. -/
inductive AccountingCall where
  /-- `ensureZoneAccounting`, after its read of the record. -/
  | ensure (seen : Option GoString)
  /-- `cleanupZoneAccounting`, after its read of the record. -/
  | cleanup (seen : Option GoString)
  deriving DecidableEq

/-- The record of one domain, its zones, and what came of their reconciles. -/
structure Accounting where
  stored : Option GoString
  history : List (Option GoString)
  live : ZoneID → Bool
  call : ZoneID → Option AccountingCall
  told : ZoneID → Bool
  lost : List (ZoneID × GoString)

namespace Accounting

/-- Before any reconcile; a record may be there from earlier. -/
structure Init (w : Accounting) : Prop where
  history : w.history = [w.stored]
  call : ∀ z, w.call z = none
  told : ∀ z, w.told z = false
  lost : w.lost = []

section

variable (w : Accounting) (z : ZoneID)

/-- A write of the record, or its deletion. -/
def store (record : Option GoString) : Accounting :=
  { w with stored := record, history := record :: w.history }

def setCall (call : Option AccountingCall) : Accounting :=
  { w with call := Function.update w.call z call }

/-- The answer of `ensureZoneAccounting` that the zone owns the domain. -/
def answer : Accounting :=
  { w.setCall z none with told := Function.update w.told z true }

/-- The merge patch of `adoptZoneOwner`: it sets the owner of whatever record there is. -/
def adopt : Accounting :=
  if w.stored.isSome then w.store (some z.owner) else w

/-- `Delete` of the record, and whose claim was lost by it. -/
def delete : Accounting :=
  { w.store none with
    lost := match w.stored with
      | some owner => if sameZoneOwner owner z.owner then w.lost else (z, owner) :: w.lost
      | none => w.lost }

/-- What a step rests on: an earlier read that found the zone's own record, or nothing. -/
inductive Basis where
  | owned (owner : GoString)
  | cleanup (owner : GoString)
  | nothing

/-- The record is still the one that was read; for a cleanup it may also be gone. -/
def Basis.Current : Basis → Prop
  | .owned owner => w.stored = some owner
  | .cleanup owner => w.stored = some owner ∨ w.stored = none
  | .nothing => True

end

/-- What happens to a domain.  A reconcile reads any state that the record was in, and acts on it
later; a request that fails ends the reconcile. -/
inductive Step (w : Accounting) : Basis → Accounting → Prop
  | appear (z : ZoneID) (hnew : w.live z = false) (hidle : w.call z = none) :
      Step w .nothing { w with
        live := Function.update w.live z true
        told := Function.update w.told z false }
  | vanish (z : ZoneID) : Step w .nothing { w with live := Function.update w.live z false }
  | readEnsure (z : ZoneID) (seen : Option GoString) (hlive : w.live z = true)
      (hidle : w.call z = none) (hseen : seen ∈ w.history) :
      Step w .nothing (w.setCall z (some (.ensure seen)))
  | create (z : ZoneID) (hcall : w.call z = some (.ensure none)) (hfree : w.stored = none) :
      Step w .nothing ((w.store (some z.owner)).answer z)
  /-- The record was created by another reconcile in the meantime, and is read again. -/
  | reread (z : ZoneID) (owner : GoString) (hcall : w.call z = some (.ensure none))
      (hstored : w.stored ≠ none) (hseen : some owner ∈ w.history) :
      Step w .nothing (w.setCall z (some (.ensure (some owner))))
  | owned (z : ZoneID) (owner : GoString) (patched : Bool)
      (hcall : w.call z = some (.ensure (some owner)))
      (hsame : sameZoneOwner owner z.owner = true) :
      Step w (.owned owner) ((if owner ≠ z.owner ∧ patched then w.adopt z else w).answer z)
  | readCleanup (z : ZoneID) (seen : Option GoString) (hdeleting : w.live z = false)
      (hidle : w.call z = none) (hseen : seen ∈ w.history) :
      Step w .nothing (w.setCall z (some (.cleanup seen)))
  | cleanup (z : ZoneID) (owner : GoString) (hcall : w.call z = some (.cleanup (some owner)))
      (hsame : sameZoneOwner owner z.owner = true) :
      Step w (.cleanup owner) ((w.delete z).setCall z none)
  | stop (z : ZoneID) : Step w .nothing (w.setCall z none)

/-- A step of the code. -/
def AnyStep (w w' : Accounting) : Prop := ∃ basis, Step w basis w'

/-- A step that does not rest on a record that has changed since it was read. -/
def CurrentStep (w w' : Accounting) : Prop := ∃ basis, Step w basis w' ∧ basis.Current w

/-! ## The invariant of current reads -/

variable {w w' : Accounting} {z : ZoneID}

/-- A live zone that was told that it owns the domain is the owner in the record, a zone that is being
cleaned up is not live, and no claim was lost. -/
structure Inv (w : Accounting) : Prop where
  owner : ∀ z, w.live z = true → w.told z = true →
    ∃ owner, w.stored = some owner ∧ sameZoneOwner owner z.owner = true
  cleaning : ∀ z seen, w.call z = some (.cleanup seen) → w.live z = false
  lost : w.lost = []

/-- **The record names one zone.** -/
theorem Inv.unique (h : Inv w) {z₁ z₂ : ZoneID} (hlive₁ : w.live z₁ = true)
    (htold₁ : w.told z₁ = true) (hlive₂ : w.live z₂ = true) (htold₂ : w.told z₂ = true) :
    z₁ = z₂ := by
  obtain ⟨owner, hstored, hsame₁⟩ := h.owner z₁ hlive₁ htold₁
  obtain ⟨owner', hstored', hsame₂⟩ := h.owner z₂ hlive₂ htold₂
  obtain rfl : owner = owner' := Option.mem_unique hstored hstored'
  exact ZoneID.eq_of_sameZoneOwner (sameZoneOwner_trans hsame₁ hsame₂)

/-- A change of the calls alone, if it starts no cleanup of a live zone. -/
theorem Inv.setCall (h : Inv w) {call : Option AccountingCall}
    (hcleaning : ∀ seen, call = some (.cleanup seen) → w.live z = false) : Inv (w.setCall z call) := by
  refine ⟨h.owner, fun z' seen hcall => ?_, h.lost⟩
  by_cases hz : z' = z
  · subst hz
    exact hcleaning seen (by simpa [Accounting.setCall] using hcall)
  · exact h.cleaning z' seen (by simpa [Accounting.setCall, hz] using hcall)

/-- The answer to a zone that the record names. -/
theorem Inv.answer (h : Inv w) {owner : GoString} (hstored : w.stored = some owner)
    (hsame : sameZoneOwner owner z.owner = true) : Inv (w.answer z) := by
  have hidle : Inv (w.setCall z none) := h.setCall (fun _ => nofun)
  refine ⟨fun z' hlive htold => ?_, hidle.cleaning, h.lost⟩
  by_cases hz : z' = z
  · subst hz
    exact ⟨owner, hstored, hsame⟩
  · exact h.owner z' hlive (by simpa [Accounting.answer, hz] using htold)

/-- A record that was there is taken over in the spelling of the zone that it names. -/
theorem Inv.adopt (h : Inv w) {owner : GoString} (hstored : w.stored = some owner)
    (hsame : sameZoneOwner owner z.owner = true) :
    Inv (w.adopt z) ∧ (w.adopt z).stored = some z.owner := by
  rw [Accounting.adopt, if_pos (by simp [hstored])]
  refine ⟨⟨fun z' hlive htold => ⟨z.owner, rfl, ?_⟩, h.cleaning, h.lost⟩, rfl⟩
  obtain ⟨owner', hstored', hsame'⟩ := h.owner z' hlive htold
  obtain rfl : owner = owner' := Option.mem_unique hstored hstored'
  exact sameZoneOwner_trans hsame hsame'

/-- **Every step on current reads keeps the invariant.** -/
theorem CurrentStep.inv (hstep : CurrentStep w w') (h : Inv w) : Inv w' := by
  obtain ⟨basis, hstep, hcurrent⟩ := hstep
  cases hstep with
  | appear z hnew hidle =>
    refine ⟨fun z' hlive htold => ?_, fun z' seen hcall => ?_, h.lost⟩
    · by_cases hz : z' = z
      · simp [hz] at htold
      · exact h.owner z' (by simpa [hz] using hlive) (by simpa [hz] using htold)
    · by_cases hz : z' = z
      · rw [hz] at hcall
        simp [hidle] at hcall
      · simpa [hz] using h.cleaning z' seen hcall
  | vanish z =>
    refine ⟨fun z' hlive htold => ?_, fun z' seen hcall => ?_, h.lost⟩
    · by_cases hz : z' = z
      · simp [hz] at hlive
      · exact h.owner z' (by simpa [hz] using hlive) htold
    · by_cases hz : z' = z
      · simp [hz]
      · simpa [hz] using h.cleaning z' seen hcall
  | readEnsure z seen hlive hidle hseen => exact h.setCall (fun _ => nofun)
  | create z hcall hfree =>
    have hstored : Inv (w.store (some z.owner)) := by
      refine ⟨fun z' hlive htold => ?_, h.cleaning, h.lost⟩
      -- nobody had been told, since there was no record
      obtain ⟨owner, hsome, -⟩ := h.owner z' hlive htold
      simp [hfree] at hsome
    exact hstored.answer rfl (sameZoneOwner_refl z.owner)
  | reread z owner hcall hstored hseen => exact h.setCall (fun _ => nofun)
  | owned z owner patched hcall hsame =>
    split_ifs
    · obtain ⟨hadopted, hstored⟩ := h.adopt hcurrent hsame
      exact hadopted.answer hstored (sameZoneOwner_refl z.owner)
    · exact h.answer hcurrent hsame
  | readCleanup z seen hdeleting hidle hseen => exact h.setCall (fun _ _ => hdeleting)
  | cleanup z owner hcall hsame =>
    have hdeleting : w.live z = false := h.cleaning z _ hcall
    have hdeleted : Inv (w.delete z) := by
      refine ⟨fun z' hlive htold => ?_, h.cleaning, ?_⟩
      · -- the record was that of the zone which is deleted, so nobody else was told
        obtain ⟨owner', hstored, hsame'⟩ := h.owner z' hlive htold
        rcases hcurrent with hcurrent | hcurrent
        · obtain rfl : owner = owner' := Option.mem_unique hcurrent hstored
          have hz := ZoneID.eq_of_sameZoneOwner (sameZoneOwner_trans hsame hsame')
          rw [← hz] at hlive
          exact absurd (hdeleting.symm.trans hlive) (by decide)
        · simp [hcurrent] at hstored
      · rcases hcurrent with hcurrent | hcurrent <;> simp [Accounting.delete, hcurrent, hsame, h.lost]
    exact hdeleted.setCall (fun _ => nofun)
  | stop z => exact h.setCall (fun _ => nofun)

/-- **Owners are told apart while reads are current.**  In every state of every run in which no
reconcile acts on a record that has changed since it read it, no cleanup has deleted the claim of
another zone, and two live zones that were told they own the domain are the same. -/
theorem current_reads_protect_claims (h : Reachable Init CurrentStep w) :
    w.lost = [] ∧ ∀ z₁ z₂, w.live z₁ = true → w.told z₁ = true → w.live z₂ = true →
      w.told z₂ = true → z₁ = z₂ := by
  have hinv : Inv w := by
    refine h.invariant (fun w₀ hinit => ?_) (fun _ _ hinv hstep => hstep.inv hinv)
    refine ⟨fun z _ htold => ?_, fun z seen hcall => ?_, hinit.lost⟩
    · simp [hinit.told] at htold
    · simp [hinit.call] at hcall
  exact ⟨hinv.lost, fun z₁ z₂ hlive₁ htold₁ => hinv.unique hlive₁ htold₁⟩

end Accounting

/-- A zone of the namespace `default` of the cluster `east`. -/
def eastZone (name : GoString) (h : '/' ∉ name := by decide) : ZoneID :=
  ⟨lit "east", lit "default", name, by decide, by decide, h⟩

/-- A domain that nobody has asked for. -/
def unclaimed : Accounting :=
  ⟨none, [none], fun _ => false, fun _ => none, fun _ => false, []⟩

theorem unclaimed_init : unclaimed.Init := ⟨rfl, fun _ => rfl, fun _ => rfl, rfl⟩

/-- A zone gives the domain up, and another one gets it. -/
theorem handed_over_protected : ∃ w, Reachable Accounting.Init Accounting.CurrentStep w ∧
    w.live (eastZone (lit "b")) = true ∧ w.told (eastZone (lit "b")) = true ∧ w.lost = [] := by
  have h₀ : Reachable Accounting.Init Accounting.CurrentStep unclaimed := .init unclaimed_init
  have h₁ := h₀.step ⟨_, .appear (eastZone (lit "a")) rfl rfl, trivial⟩
  have h₂ := h₁.step ⟨_, .readEnsure (eastZone (lit "a")) none rfl rfl (by decide), trivial⟩
  have h₃ := h₂.step ⟨_, .create (eastZone (lit "a")) rfl rfl, trivial⟩
  have h₄ := h₃.step ⟨_, .vanish (eastZone (lit "a")), trivial⟩
  have h₅ := h₄.step ⟨_, .readCleanup (eastZone (lit "a")) (some (eastZone (lit "a")).owner) rfl rfl
    (by decide), trivial⟩
  have h₆ := h₅.step ⟨_, .cleanup (eastZone (lit "a")) _ rfl (by decide), .inl rfl⟩
  have h₇ := h₆.step ⟨_, .appear (eastZone (lit "b")) rfl rfl, trivial⟩
  have h₈ := h₇.step ⟨_, .readEnsure (eastZone (lit "b")) none rfl rfl (by decide), trivial⟩
  have h₉ := h₈.step ⟨_, .create (eastZone (lit "b")) rfl rfl, trivial⟩
  exact ⟨_, h₉, rfl, rfl, (Accounting.current_reads_protect_claims h₉).1⟩

/-- **A late cleanup deletes the claim of another zone.**  The zone `a` is cleaned up, and once more
because its finalizer could not be removed; the second cleanup has read the old record when `b` claims
the domain, deletes the claim of `b`, and `c` is told that it owns the domain as well. -/
theorem late_cleanup_deletes_claim : ∃ w, Reachable Accounting.Init Accounting.AnyStep w ∧
    w.lost = [(eastZone (lit "a"), (eastZone (lit "b")).owner)] ∧
      w.live (eastZone (lit "b")) = true ∧ w.told (eastZone (lit "b")) = true ∧
      w.live (eastZone (lit "c")) = true ∧ w.told (eastZone (lit "c")) = true := by
  have h₀ : Reachable Accounting.Init Accounting.AnyStep unclaimed := .init unclaimed_init
  have h₁ := h₀.step ⟨_, .appear (eastZone (lit "a")) rfl rfl⟩
  have h₂ := h₁.step ⟨_, .readEnsure (eastZone (lit "a")) none rfl rfl (by decide)⟩
  have h₃ := h₂.step ⟨_, .create (eastZone (lit "a")) rfl rfl⟩
  have h₄ := h₃.step ⟨_, .vanish (eastZone (lit "a"))⟩
  have h₅ := h₄.step ⟨_, .readCleanup (eastZone (lit "a")) (some (eastZone (lit "a")).owner) rfl rfl
    (by decide)⟩
  have h₆ := h₅.step ⟨_, .cleanup (eastZone (lit "a")) _ rfl (by decide)⟩
  have h₇ := h₆.step ⟨_, .readCleanup (eastZone (lit "a")) (some (eastZone (lit "a")).owner) rfl rfl
    (by decide)⟩
  have h₈ := h₇.step ⟨_, .appear (eastZone (lit "b")) rfl rfl⟩
  have h₉ := h₈.step ⟨_, .readEnsure (eastZone (lit "b")) none rfl rfl (by decide)⟩
  have h₁₀ := h₉.step ⟨_, .create (eastZone (lit "b")) rfl rfl⟩
  have h₁₁ := h₁₀.step ⟨_, .cleanup (eastZone (lit "a")) _ rfl (by decide)⟩
  have h₁₂ := h₁₁.step ⟨_, .appear (eastZone (lit "c")) rfl rfl⟩
  have h₁₃ := h₁₂.step ⟨_, .readEnsure (eastZone (lit "c")) none rfl rfl (by decide)⟩
  have h₁₄ := h₁₃.step ⟨_, .create (eastZone (lit "c")) rfl rfl⟩
  exact ⟨_, h₁₄, rfl, rfl, rfl, rfl, rfl⟩

end InternalDNS.Replicator
