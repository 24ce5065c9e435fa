import InternalDNS.FeedRun

/-! # The copies converge

After the last change of the mirror and of the access bindings, and once all events are delivered and
the calls to the API succeed, two ticks bring the copies in line with the mirror, as soon as the
applier reads the projects with access again.  The first one prunes, writes what has failed so far and
removes the copies of objects that the writer has created again; the second one writes those.

There are two ways in which a copy is missing for good, so that they have to be excluded: a project
that loses its access and gets it back, because the copies that are withdrawn in between are not
tried again, and an entry that is refused because of another copy of the same region, because refused
keys are not tried again either.  The first one is shown on an example at the end.
-/
namespace InternalDNS.Feed

open Go List AList Option Applier

variable {J : Type} {n : ObjectKey}

/-! ## Calls that succeed -/

/-- The calls of an `Apply` succeed, not before the time `since`. -/
structure Api.Fine (api : Api) (since : Int) : Prop where
  get : api.get = false
  namespace_ : api.namespace_ = false
  served : api.served = false
  list : api.list = false
  write : api.write = .done
  now : since ≤ api.now

structure SweepApi.Fine (calls : SweepApi) (since : Int) : Prop where
  served : calls.served = false
  namespaces : calls.namespaces = false
  list : ∀ kind, calls.list kind = false
  delete : ∀ n, calls.delete n = .done
  now : since ≤ calls.now

/-- The calls of a tick succeed, and the mirror is caught up. -/
structure Replica.TickApi.Fine (calls : Replica.TickApi) (since : Int) : Prop where
  get : ∀ k, calls.get k = false
  apply : ∀ k, (calls.apply k).Fine since
  ready : calls.ready = true
  prune : calls.prune.Fine since
  withdraw : calls.withdraw.Fine since

section Fine

variable {a : Applier} {api : Api} {s : Site J} {n : ObjectKey} {k : GoString} {e : Entry J} {since : Int}

theorem servedProjects_fine (a : Applier) (s : Site J) (h : api.served = false) :
    ∃ read, a.servedProjects api s = .ok read := by
  unfold servedProjects
  rw [h]
  split
  · exact ⟨_, rfl⟩
  · exact ⟨_, rfl⟩

/-- A delete succeeds, or another origin has the name. -/
theorem delete_fine (hfine : api.Fine since) (hlocate : locate k = some n) :
    FeedError.isFailed (a.apply api k none s).2 = false := by
  unfold apply accept
  rw [hlocate]
  rw [hfine.get]
  simp only [Bool.false_eq_true, if_false]
  cases (s.objects.lookup n).filter fun o => o.origin ≠ a.region with
  | some o => rfl
  | none =>
    split_ifs
    · simp only [write, hfine.write]
      rfl
    · rfl

/-- **An acceptable entry is copied**, or its copy with another UID is removed. -/
theorem apply_fine (hfine : api.Fine since) (hlocate : locate k = some n) (hacc : Acceptable a s n e)
    (hserved : ∀ ns read, s.namespaces.lookup n.namespace_ = some ns →
      a.servedProjects api s = .ok read → ns.project ∈ read.projects)
    (hclaims : ∀ n' o, s.objects.lookup n' = some o → claims n e.originUID n' o = false) :
    (∀ o, (a.apply api k (some (some e)) s).1.objects.lookup n = some o → o.originUID = e.originUID) ∧
      ((∀ o, s.objects.lookup n = some o → o.originUID = e.originUID) →
        FeedError.isFailed (a.apply api k (some (some e)) s).2 = false) := by
  obtain ⟨ns, hns, hlive⟩ := hacc.live
  obtain ⟨read, hread⟩ := servedProjects_fine a s hfine.served
  have haccept : a.accept api k n (some (some e)) s = .ok (some e) := by
    have hfree : (s.objects.lookup n).filter (fun o => decide (o.origin ≠ a.region)) = none := by
      rw [filter_eq_none_iff]
      intro o ho
      simpa using hacc.free o ho
    unfold accept
    rw [hfine.get, hfree]
    simp [hacc.namespace_, hacc.name]
  have hmapped : a.mapped api n.namespace_ s = (some read, .ok ()) := by
    unfold mapped
    rw [hfine.namespace_, hns]
    simp [hlive, hread, hserved ns read hns hread]
  have hunique : uniqueIdentity api n e.originUID { s with served := some read } = .ok () :=
    uniqueIdentity_eq_ok.mpr ⟨hacc.uid, hfine.list, hclaims⟩
  have happly : ∀ p, a.plan api k n e { s with served := some read } = .ok p →
      a.apply api k (some (some e)) s = execute api n { s with served := some read } p := by
    intro p hp
    unfold apply
    rw [hlocate]
    dsimp only
    rw [haccept]
    dsimp only
    rw [hmapped]
    dsimp only
    rw [hp]
  rcases plan_of_unique (a := a) (k := k) hunique with
    ⟨o, ho, huid, h⟩ | ⟨o, ho, huid, hafter, h⟩ | ⟨hspec, -⟩ | ⟨uid, spec, hspec, h, -⟩
  · rw [happly _ h]
    refine ⟨fun o' ho' => ?_, fun hready => absurd (hready o ho) huid⟩
    simp only [execute, write, hfine.write] at ho'
    rw [Site.remove, lookup_erase] at ho'
    cases ho'
  · rw [happly _ h]
    refine ⟨fun o' ho' => ?_, fun _ => rfl⟩
    obtain rfl : o = o' := mem_unique ho ho'
    exact huid
  · have hsome := hacc.spec
    rw [hspec] at hsome
    cases hsome
  · rw [happly _ h]
    refine ⟨fun o' ho' => ?_, fun _ => ?_⟩
    · simp only [execute, write, hfine.write] at ho'
      rw [Site.put, lookup_insert] at ho'
      rw [← some.inj ho', originUID_copy]
    · simp only [execute, write, hfine.write]
      rfl

end Fine

/-! ## A quiet period -/

namespace Replica

variable {a : Applier} {Wrote : ObjectKey → Entry J → Prop} {Lost : GoString → Prop} {began : Int}
  {w : Replica J} {n : ObjectKey} {e : Entry J} {k : GoString} {calls : TickApi} {w' : Replica J}
  {since : Int}

section

variable (a : Applier) (w : Replica J)

/-- All events are delivered, the projects that have lost their access do not have it, and what the
cache says is right unless it was read before the period began. -/
structure Quiet (Wrote : ObjectKey → Entry J → Prop) (Lost : GoString → Prop) (began : Int)
    (w : Replica J) : Prop where
  inv : w.Inv a Wrote Lost (fun _ => False)
  events : w.events = []
  lost : ∀ project, Lost project → project ∉ a.projects w.site
  cache : ∀ read, w.site.served = some read →
    read.readAt ≤ began ∨ ∀ project, project ∈ read.projects ↔ project ∈ a.projects w.site

/-- The mirror has an entry for the object that can be accepted, in a project with access. -/
structure Due (n : ObjectKey) (e : Entry J) : Prop where
  located : locate (key n) = some n
  entry : w.mirror.lookup (key n) = some (some e)
  acceptable : Acceptable a w.site n e
  served : ∃ ns, w.site.namespaces.lookup n.namespace_ = some ns ∧ ns.project ∈ a.projects w.site

/-- A copy with another UID is not in the way. -/
def Ready (n : ObjectKey) (e : Entry J) : Prop :=
  ∀ o, w.site.objects.lookup n = some o → o.originUID = e.originUID

/-- What does not change in a quiet period. -/
structure Same (w' : Replica J) : Prop where
  mirror : w'.mirror = w.mirror
  events : w'.events = w.events
  namespaces : w'.site.namespaces = w.site.namespaces
  access : w'.site.access = w.site.access
  confined : Confined a w.site.objects w'.site.objects
  synced : w'.synced = w.synced
  present : w'.present = w.present
  served : w'.site.served = w.site.served ∨ ∃ now, w'.site.served = some ⟨a.projects w.site, now⟩

theorem Same.refl : Same a w w :=
  ⟨rfl, rfl, rfl, rfl, .refl a _, rfl, rfl, .inl rfl⟩

end

theorem Same.projects (h : Same a w w') : a.projects w'.site = a.projects w.site :=
  projects_congr h.namespaces h.access

theorem Same.trans {w₁ w₂ w₃ : Replica J} (h : Same a w₁ w₂) (h' : Same a w₂ w₃) : Same a w₁ w₃ := by
  refine ⟨h'.mirror.trans h.mirror, h'.events.trans h.events, h'.namespaces.trans h.namespaces,
    h'.access.trans h.access, h.confined.trans h'.confined, h'.synced.trans h.synced,
    h'.present.trans h.present, ?_⟩
  rcases h'.served with hsame | ⟨now, hfresh⟩
  · rw [hsame]
    exact h.served
  · exact .inr ⟨now, by rw [hfresh, h.projects]⟩

/-- Objects of other origins and namespaces stay, so the same entries are due. -/
theorem Same.due_iff (h : Same a w w') : Due a w' n e ↔ Due a w n e := by
  constructor
  · intro hdue
    obtain ⟨ns, hns, hp⟩ := hdue.served
    exact ⟨hdue.located, h.mirror ▸ hdue.entry, hdue.acceptable.of_others h.namespaces
      fun m o ho => (h.confined.others m o ho).mp, ns, h.namespaces ▸ hns, h.projects ▸ hp⟩
  · intro hdue
    obtain ⟨ns, hns, hp⟩ := hdue.served
    exact ⟨hdue.located, h.mirror ▸ hdue.entry, hdue.acceptable.of_others h.namespaces.symm
      fun m o ho => (h.confined.others m o ho).mpr, ns, h.namespaces ▸ hns, h.projects ▸ hp⟩

theorem Quiet.same (hq : w.Quiet a Wrote Lost began) (h : Same a w w')
    (hinv : w'.Inv a Wrote Lost (fun _ => False)) : w'.Quiet a Wrote Lost began := by
  refine ⟨hinv, h.events.trans hq.events, fun project hp => h.projects ▸ hq.lost project hp,
    fun read hr => ?_⟩
  rcases h.served with hsame | ⟨now, hfresh⟩
  · rw [h.projects]
    exact hq.cache read (hsame ▸ hr)
  · rw [hfresh] at hr
    cases hr
    exact .inr fun project => by rw [h.projects]

section

variable (a : Applier) (calls : TickApi) (w : Replica J)

theorem same_applyKey (api : Api) (k : GoString) (value : Option (Option (Entry J))) (w : Replica J)
    : Same a w (applyKey a api k value w) := by
  have hconfined := (change_apply a api k value w.site).confined
  cases hlocate : locate k with
  | none =>
    have hsite : a.apply api k value w.site = (w.site, .ok ()) := apply_of_not_located hlocate
    refine ⟨rfl, rfl, ?_, ?_, hconfined, rfl, rfl, .inl ?_⟩ <;> simp [applyKey, hsite]
  | some m =>
    have hspec := apply_spec (a := a) api value w.site hlocate
    exact ⟨rfl, rfl, hspec.namespaces, hspec.access, hconfined, rfl, rfl,
      hspec.served.imp_right fun h => ⟨api.now, h⟩⟩

theorem same_retry (k : GoString) :
    Same a w (retry a calls w k) := by
  unfold retry
  split_ifs
  · exact .refl a w
  · exact same_applyKey a _ k _ w

theorem same_retries (keys : List GoString) (w : Replica J) :
    Same a w (keys.foldl (retry a calls) w) := by
  induction keys generalizing w with
  | nil => exact .refl a w
  | cons k keys ih => exact (same_retry a calls w k).trans (ih _)

theorem same_prune (calls : SweepApi) (seen : List GoString) (pruned : Bool) (w : Replica J) :
    Same a w { w with site := a.prune calls seen w.site, pruned } :=
  ⟨rfl, rfl, rfl, rfl, (change_sweep a calls _ w.site).confined, rfl, rfl, .inl rfl⟩

/-- `withdrawUnserved` gives up, or has read the projects with access and perhaps swept. -/
theorem withdrawUnserved_cases (calls : SweepApi) (s : Site J) :
    a.withdrawUnserved calls s = s ∨ ∃ read : Served,
      (s.served = some read ∧ calls.now - read.readAt < a.pace ∨ read = ⟨a.projects s, calls.now⟩) ∧
      (a.withdrawUnserved calls s = { s with served := some read } ∨ a.withdrawUnserved calls s =
        a.sweep calls (fun n => unserved read s n.namespace_) { s with served := some read }) := by
  unfold withdrawUnserved
  cases hread : a.servedProjects _ s with
  | error e => exact .inl rfl
  | ok read =>
    refine .inr ⟨read, servedProjects_ok hread, ?_⟩
    split_ifs
    · exact .inl rfl
    · exact .inr rfl

theorem same_withdraw : Same a w (withdraw a calls w) := by
  have hconfined := (Applier.Step.withdraw (a := a) (s := w.site) calls.withdraw).change.confined
  have hsite : (withdraw a calls w).site = a.withdrawUnserved calls.withdraw w.site := rfl
  rcases withdrawUnserved_cases a calls.withdraw w.site with h | ⟨read, hread, h⟩
  · refine ⟨rfl, rfl, ?_, ?_, hconfined, rfl, rfl, .inl ?_⟩ <;> rw [hsite, h]
  · have hserved : some read = w.site.served ∨ ∃ now, some read = some ⟨a.projects w.site, now⟩ := by
      rcases hread with ⟨h, -⟩ | h
      · exact .inl h.symm
      · exact .inr ⟨calls.withdraw.now, by rw [h]⟩
    rcases h with h | h
    · refine ⟨rfl, rfl, ?_, ?_, hconfined, rfl, rfl, ?_⟩ <;> rw [hsite, h]
      exact hserved
    · refine ⟨rfl, rfl, ?_, ?_, hconfined, rfl, rfl, ?_⟩ <;> rw [hsite, h]
      · rfl
      · rfl
      · exact hserved

theorem same_tick : Same a w (tick a calls w) := by
  have h := same_retries a calls calls.order w
  unfold tick
  dsimp only
  split_ifs
  · exact (h.trans (same_prune a calls.prune _ true _)).trans (same_withdraw a calls _)
  · exact h.trans (same_prune a calls.prune _ _ _)
  · exact h
  · exact h.trans (same_withdraw a calls _)
  · exact h

end

/-! ## Retries and ticks -/

/-- A retry of another key. -/
theorem retry_other (calls : TickApi) (w : Replica J) (hkey : key n ≠ k) :
    (retry a calls w k).site.objects.lookup n = w.site.objects.lookup n ∧
      (key n ∈ (retry a calls w k).failed ↔ key n ∈ w.failed) := by
  unfold retry
  split_ifs
  · exact ⟨rfl, .rfl⟩
  · refine ⟨?_, ?_⟩
    · cases hlocate : locate k with
      | none =>
        have hsite : a.apply (calls.apply k) k (w.mirror.lookup k) w.site = (w.site, .ok ()) :=
          apply_of_not_located hlocate
        simp [applyKey, hsite]
      | some m =>
        have hspec := apply_spec (a := a) (calls.apply k) (w.mirror.lookup k) w.site hlocate
        refine hspec.frame n ?_
        rintro rfl
        exact hkey (locate_eq_some.mp hlocate).1
    · unfold applyKey
      dsimp only
      split_ifs <;> simp [hkey]

/-- A retry of the key of an object. -/
theorem retry_here (hfine : calls.get k = false) : (retry a calls w k).site =
      (a.apply (calls.apply k) k (w.mirror.lookup k) w.site).1 ∧
    (k ∈ (retry a calls w k).failed ↔
      FeedError.isFailed (a.apply (calls.apply k) k (w.mirror.lookup k) w.site).2 = true) := by
  unfold retry
  rw [hfine]
  refine ⟨rfl, ?_⟩
  simp only [Bool.false_eq_true, if_false, applyKey]
  split_ifs with hfailed <;> simp [hfailed]

/-- No copy of the region claims the UID of an entry that is due. -/
theorem Due.unclaimed (hdue : w.Due a n e) (hdistinct : Distinct Wrote)
    (h : w.Inv a Wrote Lost (fun _ => False)) :
    ∀ n' o, w.site.objects.lookup n' = some o → claims n e.originUID n' o = false := by
  intro n' o ho
  by_contra hclaims
  rw [Bool.not_eq_false] at hclaims
  exact not_claims_of_copy hdistinct (h.mirror _ n e hdue.located hdue.entry)
    (h.copies n' o ho (hdue.acceptable.unclaimed n' o ho hclaims)) hclaims

/-- After the retries no key has failed that the mirror does not have. -/
theorem deleted_retries (hfine : calls.Fine since) (keys : List GoString)
    (hn : locate (key n) = some n) (hnone : w.mirror.lookup (key n) = none)
    (h : key n ∈ w.failed → key n ∈ keys) : key n ∉ (keys.foldl (retry a calls) w).failed := by
  induction keys generalizing w with
  | nil => exact fun hmem => absurd (h hmem) not_mem_nil
  | cons k keys ih =>
    have hmirror : (retry a calls w k).mirror.lookup (key n) = none := by
      rw [(same_retry a calls w k).mirror, hnone]
    refine ih hmirror fun hmem => ?_
    by_cases hk : key n = k
    · subst hk
      obtain ⟨-, hfailed⟩ := retry_here (a := a) (w := w) (hfine.get (key n))
      rw [hfailed, hnone, delete_fine (hfine.apply (key n)) hn] at hmem
      cases hmem
    · exact mem_of_ne_of_mem hk (h ((retry_other calls w hk).2.mp hmem))

theorem sweepOK_fine {sweep : SweepApi} (hfine : sweep.Fine since) (doomed : ObjectKey → Bool)
    (s : Site J) : a.sweepOK sweep doomed s = true := by
  simp [sweepOK, hfine.list, hfine.delete]

theorem withdraw_fine (hfine : calls.Fine since) (w : Replica J) : ∃ read,
    a.servedProjects ⟨false, false, calls.withdraw.served, false, .done, calls.withdraw.error, [],
      calls.withdraw.now⟩ w.site = .ok read ∧ (withdraw a calls w).site =
        a.sweep calls.withdraw (fun n => unserved read w.site n.namespace_)
          { w.site with served := some read } := by
  let api : Api := ⟨false, false, calls.withdraw.served, false, .done, calls.withdraw.error, [],
    calls.withdraw.now⟩
  obtain ⟨read, hread⟩ : ∃ read, a.servedProjects api w.site = .ok read :=
    servedProjects_fine a w.site hfine.withdraw.served
  refine ⟨read, hread, ?_⟩
  unfold withdraw withdrawUnserved
  rw [show a.servedProjects _ w.site = .ok read from hread]
  simp only [hfine.withdraw.namespaces, Bool.false_eq_true, if_false]
  rfl

/-- Ticks one after the other, whose calls succeed and are made from the time `since` on. -/
inductive Ticks (a : Applier) (since : Int) : Nat → Replica J → Replica J → Prop
  | none (w : Replica J) : Ticks a since 0 w w
  | tick {m : Nat} {w v : Replica J} (calls : TickApi) (hbefore : Ticks a since m w v)
      (hfine : calls.Fine since) (horder : calls.order.Perm v.failed) :
      Ticks a since (m + 1) w (Replica.tick a calls v)

/-- The copies are those of the mirror: an entry that is due has its copy, and the copies that are
there belong to keys of the mirror, in projects with access, and are made from entries that the key
has or had. -/
structure Mirrored (a : Applier) (Wrote : ObjectKey → Entry J → Prop) (w : Replica J) : Prop where
  copied : ∀ n e, w.Due a n e → Copied a w.site n e
  only : ∀ n o, w.site.objects.lookup n = some o → o.origin = a.region →
    locate (key n) = some n ∧ (w.mirror.lookup (key n)).isSome ∧
    (∃ ns, w.site.namespaces.lookup n.namespace_ = some ns ∧ ns.live = true ∧
      ns.project ∈ a.projects w.site) ∧ ∃ e uid spec, Wrote n e ∧ o = a.copy e uid spec

section Quiet

variable (hq : w.Quiet a Wrote Lost began)
include hq

theorem servedProjects_quiet {api : Api} {read : Served} (hsince : began + a.pace ≤ api.now) (h : a.servedProjects api w.site = .ok read) :
    ∀ project, project ∈ read.projects ↔ project ∈ a.projects w.site := by
  rcases servedProjects_ok h with ⟨hcached, hage⟩ | rfl
  · exact (hq.cache read hcached).resolve_left (by omega)
  · exact fun _ => .rfl

theorem Quiet.synced : w.synced = true := by
  rcases hq.inv.synced with h | h
  · exact h
  · rw [hq.events] at h
    cases h

/-- The copies that a withdrawal leaves are in projects with access. -/
theorem served_of_withdraw {o : Object J}
    (hfine : calls.Fine (began + a.pace)) (ho : (withdraw a calls w).site.objects.lookup n = some o)
    (hown : o.origin = a.region) : ∃ ns, w.site.namespaces.lookup n.namespace_ = some ns ∧
      ns.live = true ∧ ns.project ∈ a.projects w.site := by
  obtain ⟨read, hread, hsite⟩ := withdraw_fine (a := a) hfine w
  rw [hsite] at ho
  have hcopy := hq.inv.copies n o (lookup_of_sweep ho) hown
  obtain ⟨ns, hns, hlive, -, -⟩ := hcopy.served
  refine ⟨ns, hns, hlive, (servedProjects_quiet hq hfine.withdraw.now hread _).mp ?_⟩
  -- otherwise the copy would have been swept
  by_contra hp
  rw [lookup_sweep] at ho
  obtain ⟨-, hstays⟩ := filter_eq_some_iff.mp ho
  have hlive' : at_ ns.labels replicatedLabel = replicatedValue ∧ ns.deleting = false ∧
      ns.project ≠ [] := by simpa [Namespace.live] using hlive
  have hdoomed : unserved read w.site n.namespace_ = true := by
    simp [unserved, hns, hlive'.1, hlive'.2.2, hp]
  simp [owns_of_copyInv hcopy, hdoomed, hfine.withdraw.list, hfine.withdraw.delete] at hstays

theorem Quiet.copied (hdue : w.Due a n e) (hclear : key n ∉ w.failed) : Copied a w.site n e := by
  have hsettled : w.Settled (fun _ => False) n := ⟨hdue.located, id, by rw [hq.events]; rfl, hclear⟩
  rcases hq.inv.done n e hsettled hdue.entry hdue.acceptable with hcopied | hlost
  · exact hcopied
  · obtain ⟨ns, hns, hp⟩ := hdue.served
    exact absurd hp (hq.lost _ (hlost ns hns))

variable (hdistinct : Distinct Wrote)
include hdistinct

theorem Quiet.retry (k : GoString) :
    (retry a calls w k).Quiet a Wrote Lost began :=
  hq.same (same_retry a calls w k) (hq.inv.retry hdistinct calls k)

/-- A tick whose calls succeed: the retries, the pruning if it is still to be done, the withdrawal. -/
theorem Quiet.tick_fine (hfine : calls.Fine since) :
    ∃ w' : Replica J, tick a calls w = withdraw a calls w' ∧ w'.Quiet a Wrote Lost began ∧
      Same a w w' ∧ w'.pruned = true ∧ w'.failed = (calls.order.foldl (Replica.retry a calls) w).failed ∧
      ∀ n o, w'.site.objects.lookup n = some o →
        (calls.order.foldl (Replica.retry a calls) w).site.objects.lookup n = some o := by
  have hsame := same_retries a calls calls.order w
  have hinv := hq.inv.retries hdistinct calls calls.order
  have hsynced : (calls.order.foldl (Replica.retry a calls) w).synced = true := by
    rw [hsame.synced, hq.synced]
  have hok : ∀ doomed (site : Site J), a.sweepOK calls.prune doomed site = true :=
    sweepOK_fine hfine.prune
  cases hpruned : (calls.order.foldl (Replica.retry a calls) w).pruned with
  | true =>
    refine ⟨_, ?_, hq.same hsame hinv, hsame, hpruned, rfl, fun n o ho => ho⟩
    simp only [tick, hsynced, hpruned, Bool.not_true, Bool.and_false, Bool.false_eq_true, if_false,
      if_true]
  | false =>
    have hsame' := hsame.trans (same_prune a calls.prune
      (calls.order.foldl (Replica.retry a calls) w).present true _)
    refine ⟨_, ?_, hq.same hsame' (hinv.pruned (hok _ _)), hsame', rfl, rfl,
      fun n o ho => lookup_of_sweep ho⟩
    simp [tick, hsynced, hpruned, hfine.ready, hok]

theorem Quiet.ticks {m : Nat} {t : Replica J} (h : Ticks a since m w t) :
    t.Quiet a Wrote Lost began ∧ Same a w t := by
  induction h with
  | none w => exact ⟨hq, .refl a w⟩
  | tick calls hbefore hfine horder ih =>
    obtain ⟨hv, hsame⟩ := ih hq
    exact ⟨hv.same (same_tick a calls _) (hv.inv.tick hdistinct calls), hsame.trans (same_tick a calls _)⟩

variable (hfine : calls.Fine (began + a.pace))
include hfine

/-- The retry of an entry that is due. -/
theorem retry_due (hdue : w.Due a n e) :
    (retry a calls w (key n)).Ready n e ∧
      (w.Ready n e → key n ∉ (retry a calls w (key n)).failed) := by
  obtain ⟨hsite, hfailed⟩ := retry_here (a := a) (w := w) (hfine.get (key n))
  obtain ⟨ns, hns, hp⟩ := hdue.served
  have happly := apply_fine (hfine.apply (key n)) hdue.located hdue.acceptable
    (fun ns' read hns' hread => by
      obtain rfl : ns = ns' := mem_unique hns hns'
      exact (servedProjects_quiet hq (hfine.apply (key n)).now hread _).mpr hp)
    (hdue.unclaimed hdistinct hq.inv)
  rw [hdue.entry] at hsite hfailed
  refine ⟨fun o ho => happly.1 o (hsite ▸ ho), fun hready hmem => ?_⟩
  rw [hfailed, happly.2 hready] at hmem
  cases hmem

/-- After the retries an entry that is due is not hindered by an older copy. -/
theorem ready_retries (keys : List GoString) (hdue : w.Due a n e)
    (h : w.Ready n e ∨ key n ∈ keys) : (keys.foldl (retry a calls) w).Ready n e := by
  induction keys generalizing w with
  | nil => exact h.resolve_right (not_mem_nil)
  | cons k keys ih =>
    have hdue' : (retry a calls w k).Due a n e := (same_retry a calls w k).due_iff.mpr hdue
    refine ih (hq.retry hdistinct k) hdue' ?_
    by_cases hk : key n = k
    · subst hk
      exact .inl (retry_due hq hdistinct hfine hdue).1
    · refine h.imp (fun hready o ho => hready o ?_) fun hmem => mem_of_ne_of_mem hk hmem
      rw [← (retry_other (a := a) calls w hk).1]
      exact ho

/-- After the retries no entry that is due has failed, unless it had to be replaced. -/
theorem clear_retries (keys : List GoString) (hdue : w.Due a n e)
    (hready : w.Ready n e) (h : key n ∈ w.failed → key n ∈ keys) :
    key n ∉ (keys.foldl (retry a calls) w).failed := by
  induction keys generalizing w with
  | nil => exact fun hmem => absurd (h hmem) not_mem_nil
  | cons k keys ih =>
    have hdue' : (retry a calls w k).Due a n e := (same_retry a calls w k).due_iff.mpr hdue
    by_cases hk : key n = k
    · subst hk
      obtain ⟨hready', hclear⟩ := retry_due hq hdistinct hfine hdue
      exact ih (hq.retry hdistinct _) hdue' hready' fun hmem => absurd hmem (hclear hready)
    · obtain ⟨hlookup, hfailed⟩ := retry_other (a := a) calls w hk
      refine ih (hq.retry hdistinct k) hdue' (fun o ho => hready o (hlookup ▸ ho)) fun hmem => ?_
      exact mem_of_ne_of_mem hk (h (hfailed.mp hmem))

/-- **One tick**: no copy with another UID is left in the way of an entry that is due. -/
theorem Quiet.ready_tick (horder : calls.order.Perm w.failed)
    (hdue : w.Due a n e) : (tick a calls w).Ready n e := by
  obtain ⟨w', htick, -, -, -, -, hlookup⟩ := hq.tick_fine hdistinct hfine
  have hready : (calls.order.foldl (Replica.retry a calls) w).Ready n e := by
    refine ready_retries hq hdistinct hfine calls.order hdue ?_
    by_cases hmem : key n ∈ w.failed
    · exact .inr (horder.mem_iff.mpr hmem)
    · obtain ⟨o, ho, huid, -⟩ := hq.copied hdue hmem
      exact .inl fun o' ho' => mem_unique ho ho' ▸ huid
  intro o ho
  obtain ⟨read, -, hsite⟩ := withdraw_fine (a := a) hfine w'
  rw [htick, hsite] at ho
  exact hready o (hlookup n o (lookup_of_sweep ho))

/-- **The next tick**: the copies are those of the mirror. -/
theorem Quiet.mirrored_tick (horder : calls.order.Perm w.failed)
    (hready : ∀ n e, w.Due a n e → w.Ready n e) : (tick a calls w).Mirrored a Wrote := by
  have hq' : (tick a calls w).Quiet a Wrote Lost began :=
    hq.same (same_tick a calls w) (hq.inv.tick hdistinct calls)
  obtain ⟨w', htick, hw', hsame, hpruned, hfailed, -⟩ := hq.tick_fine hdistinct hfine
  have hlist : (tick a calls w).failed = (calls.order.foldl (Replica.retry a calls) w).failed := by
    rw [htick, ← hfailed]
    rfl
  refine ⟨fun n e hdue => hq'.copied hdue ?_, fun n o ho hown => ?_⟩
  · have hdue' : w.Due a n e := (same_tick a calls w).due_iff.mp hdue
    rw [hlist]
    exact clear_retries hq hdistinct hfine calls.order hdue' (hready n e hdue') horder.mem_iff.mpr
  · have hcopy := hq'.inv.copies n o ho hown
    obtain ⟨e, uid, spec, hwrote, -, ho'⟩ := hcopy.wrote
    refine ⟨hcopy.located, ?_, ?_, e, uid, spec, hwrote, ho'⟩
    · cases hmirror : (tick a calls w).mirror.lookup (key n) with
      | some v => rfl
      | none =>
        have hnone : w.mirror.lookup (key n) = none := by
          rw [← (same_tick a calls w).mirror, hmirror]
        have hclear : key n ∉ (tick a calls w).failed := by
          rw [hlist]
          exact deleted_retries hfine calls.order hcopy.located hnone horder.mem_iff.mpr
        refine absurd hown (hq'.inv.gone ?_ n ⟨hcopy.located, id, by rw [hq'.events]; rfl, hclear⟩
          hmirror o ho)
        rw [htick]
        exact hpruned
    · rw [(same_tick a calls w).namespaces, (same_tick a calls w).projects, ← hsame.namespaces,
        ← hsame.projects]
      rw [htick] at ho
      exact served_of_withdraw hw' hfine ho hown

omit hfine in
theorem Quiet.mirrored_ticks {m : Nat} {t : Replica J} (h : Ticks a (began + a.pace) (m + 2) w t) :
    t.Mirrored a Wrote := by
  cases h with
  | tick calls hbefore hfine horder =>
    cases hbefore with
    | tick calls' hbefore' hfine' horder' =>
      obtain ⟨hv, -⟩ := hq.ticks hdistinct hbefore'
      refine (hv.same (same_tick a calls' _) (hv.inv.tick hdistinct calls')).mirrored_tick hdistinct hfine
        horder fun n e hdue => hv.ready_tick hdistinct hfine' horder' ?_
      exact (same_tick a calls' _).due_iff.mp hdue

end Quiet

/-! ## Histories -/

/-- A history of `N` steps from the first start. -/
structure History (a : Applier) (s : Nat → Replica J) (N : Nat) : Prop where
  start : (s 0).Start a
  steps : ∀ i < N, Step a (s i) (s (i + 1))

/-- The entries that the keys of an object have had. -/
def WroteBy (s : Nat → Replica J) (N : Nat) (n : ObjectKey) (e : Entry J) : Prop :=
  ∃ i ≤ N, ∃ k, locate k = some n ∧ (s i).mirror.lookup k = some (some e)

/-- The projects that had access in the region and then had none. -/
def LostBy (a : Applier) (s : Nat → Replica J) (N : Nat) (project : GoString) : Prop :=
  ∃ i j, i ≤ j ∧ j ≤ N ∧ project ∈ a.projects (s i).site ∧ project ∉ a.projects (s j).site

theorem Inv.mono {Lost' : GoString → Prop} {skip : GoString → Prop} (h : w.Inv a Wrote Lost skip)
    (hlost : ∀ project, Lost project → Lost' project) : w.Inv a Wrote Lost' skip := by
  refine { h with
    copies := fun n o ho hown => ?_
    served := fun read hr project hp => (h.served read hr project hp).imp_right (hlost project)
    done := fun n e hn hsome hacc =>
      (h.done n e hn hsome hacc).imp_right fun h ns hns => hlost _ (h ns hns) }
  have hcopy := h.copies n o ho hown
  obtain ⟨ns, hns, hlive, hp, hread⟩ := hcopy.served
  exact { hcopy with served := ⟨ns, hns, hlive, hp.imp_right (hlost _),
    fun read hr => (hread read hr).imp_right (hlost _)⟩ }

theorem History.inv {s : Nat → Replica J} {N : Nat} (h : History a s N)
    (hdistinct : Distinct (WroteBy s N)) {i : Nat} (hi : i ≤ N) :
    (s i).Inv a (WroteBy s N) (LostBy a s i) (fun _ => False) := by
  induction i with
  | zero => exact h.start.inv fun k n e hk he => ⟨0, Nat.zero_le N, k, hk, he⟩
  | succ i ih =>
    have hlost : ∀ project, LostBy a s i project → LostBy a s (i + 1) project :=
      fun project ⟨j, l, hjl, hl, hp⟩ => ⟨j, l, hjl, Nat.le_succ_of_le hl, hp⟩
    refine ((ih (by omega)).mono hlost).step hdistinct (h.steps i (by omega))
      (fun k n e hk he => ⟨i + 1, hi, k, hk, he⟩) fun project hp => ?_
    by_cases hp' : project ∈ a.projects (s (i + 1)).site
    · exact .inl hp'
    · exact .inr ⟨i, i + 1, by omega, le_refl _, hp, hp'⟩

end Replica

open Replica

def fineSweep (now : Int) : SweepApi := ⟨false, false, fun _ => false, fun _ => .done, [], now⟩

/-- A tick whose calls succeed while no key has failed. -/
def fineTick (now : Int) : TickApi :=
  ⟨[], fun _ => false, fun _ => .fine now, true, fineSweep now, fineSweep now⟩

theorem fineSweep_fine (now : Int) : (fineSweep now).Fine now :=
  ⟨rfl, rfl, fun _ => rfl, fun _ => rfl, le_refl now⟩

theorem fineTick_fine (now : Int) : (fineTick now).Fine now :=
  ⟨fun _ => rfl, fun _ => ⟨rfl, rfl, rfl, rfl, rfl, le_refl now⟩, rfl, fineSweep_fine now,
    fineSweep_fine now⟩

/-- An applier that has just started, with an empty mirror. -/
def emptyReplica : Replica Unit := ⟨projectSite [eastAccess], ∅, [.synced], [], [], false, false⟩

def syncedReplica : Replica Unit :=
  receive eastApplier (.fine 0) { emptyReplica with events := [] } .synced

/-- The region has written an entry. -/
def writtenReplica : Replica Unit :=
  { syncedReplica with
    mirror := AList.insert (key instanceKey) (some instanceEntry) syncedReplica.mirror
    events := syncedReplica.events ++ [.put (key instanceKey) (some instanceEntry)] }

/-- The applier has received the entry. -/
def copiedReplica : Replica Unit :=
  receive eastApplier (.fine 0) { writtenReplica with events := [] }
    (.put (key instanceKey) (some instanceEntry))

def copiedRun : Nat → Replica Unit
  | 0 => emptyReplica
  | 1 => syncedReplica
  | 2 => writtenReplica
  | _ => copiedReplica

theorem emptyReplica_start : emptyReplica.Start eastApplier := by
  refine ⟨fun n o ho => ?_, rfl, rfl, rfl, rfl, rfl, ?_⟩
  · cases ho
  · refine ⟨fun k v hv => ?_, fun k _ => rfl, fun k v hmem => ?_, mem_singleton.mpr rfl⟩
    · cases hv
    · cases mem_singleton.mp hmem

theorem copiedRun_history : History eastApplier copiedRun 3 := by
  refine ⟨emptyReplica_start, fun i hi => ?_⟩
  match i, hi with
  | 0, _ => exact .receive (.fine 0) .synced [] rfl
  | 1, _ => exact .put (key instanceKey) (some instanceEntry)
  | 2, _ => exact .receive (.fine 0) (.put (key instanceKey) (some instanceEntry)) [] rfl

theorem copiedRun_projects (i : Nat) : eastApplier.projects (copiedRun i).site = [lit "project-a"] := by
  match i with
  | 0 => decide +kernel
  | 1 => decide +kernel
  | 2 => decide +kernel
  | i + 3 =>
    show eastApplier.projects copiedReplica.site = _
    decide +kernel

/-- The mirror has had no other entry. -/
theorem copiedRun_wrote {e : Entry Unit} (h : WroteBy copiedRun 3 n e) : n = instanceKey := by
  obtain ⟨i, -, k, hlocate, hk⟩ := h
  have hmirror : ∀ v, (insert (key instanceKey) (some instanceEntry)
      (∅ : GoMap GoString (Option (Entry Unit)))).lookup k = some v → n = instanceKey := by
    intro v hv
    by_cases hkey : k = key instanceKey
    · have hlocate' : locate (key instanceKey) = some instanceKey := by decide +kernel
      rw [hkey, hlocate'] at hlocate
      exact (some.inj hlocate).symm
    · rw [lookup_insert_ne hkey] at hv
      cases hv
  match i with
  | 0 => cases hk
  | 1 => cases hk
  | 2 => exact hmirror _ hk
  | i + 3 => exact hmirror _ hk

/-- The first tick prunes, the project loses its access, and the next tick withdraws the copy. -/
def withdrawnReplica : Replica Unit :=
  let w := tick eastApplier (fineTick 0) copiedReplica
  tick eastApplier (fineTick 20000000000) { w with site := { w.site with access := [] } }

/-- The project gets its access back. -/
def regainedReplica : Replica Unit :=
  { withdrawnReplica with site := { withdrawnReplica.site with access := [eastAccess] } }

def regainedRun : Nat → Replica Unit
  | 0 => emptyReplica
  | 1 => syncedReplica
  | 2 => writtenReplica
  | 3 => copiedReplica
  | 4 => tick eastApplier (fineTick 0) copiedReplica
  | 5 =>
    let w := tick eastApplier (fineTick 0) copiedReplica
    { w with site := { w.site with access := [] } }
  | 6 => withdrawnReplica
  | _ => regainedReplica

theorem regainedRun_history : History eastApplier regainedRun 7 := by
  refine ⟨emptyReplica_start, fun i hi => ?_⟩
  match i, hi with
  | 0, _ => exact .receive (.fine 0) .synced [] rfl
  | 1, _ => exact .put (key instanceKey) (some instanceEntry)
  | 2, _ => exact .receive (.fine 0) (.put (key instanceKey) (some instanceEntry)) [] rfl
  | 3, _ =>
    have hfailed : copiedReplica.failed = [] := by decide +kernel
    exact .tick (fineTick 0) (show [].Perm copiedReplica.failed from hfailed ▸ .nil)
  | 4, _ => exact .access []
  | 5, _ =>
    have hfailed : (regainedRun 5).failed = [] := by decide +kernel
    exact .tick (fineTick 20000000000) (show [].Perm (regainedRun 5).failed from hfailed ▸ .nil)
  | 6, _ => exact .access [eastAccess]

/-- A tick brings back no copy while no key has failed. -/
theorem lost_tick {a : Applier} {w : Replica J} {calls : TickApi}
    (horder : calls.order.Perm w.failed) (hfailed : w.failed = [])
    (hlost : w.site.objects.lookup n = none) :
    (tick a calls w).failed = [] ∧ (tick a calls w).site.objects.lookup n = none := by
  have hnone : calls.order = [] := perm_nil.mp (hfailed ▸ horder)
  have hsweep : ∀ (sweep : SweepApi) (doomed : ObjectKey → Bool) (s : Site J),
      s.objects.lookup n = none → (a.sweep sweep doomed s).objects.lookup n = none := by
    intro sweep doomed s hs
    rw [lookup_sweep, hs]
    rfl
  have hwithdraw : ∀ w : Replica J, w.site.objects.lookup n = none →
      (withdraw a calls w).site.objects.lookup n = none := by
    intro w hw
    show (a.withdrawUnserved calls.withdraw w.site).objects.lookup n = none
    rcases withdrawUnserved_cases a calls.withdraw w.site with h | ⟨read, -, h | h⟩ <;> rw [h]
    · exact hw
    · exact hw
    · exact hsweep _ _ { w.site with served := some read } hw
  unfold tick
  rw [hnone]
  dsimp only [foldl_nil]
  split_ifs
  · exact ⟨hfailed, hwithdraw _ (hsweep _ _ w.site hlost)⟩
  · exact ⟨hfailed, hsweep _ _ w.site hlost⟩
  · exact ⟨hfailed, hlost⟩
  · exact ⟨hfailed, hwithdraw w hlost⟩
  · exact ⟨hfailed, hlost⟩

theorem exists_ticks (a : Applier) (since : Int) (m : Nat) (w : Replica J) :
    ∃ t, Ticks a since m w t := by
  induction m with
  | zero => exact ⟨w, .none w⟩
  | succ m ih =>
    obtain ⟨v, hv⟩ := ih
    have hfine : TickApi.Fine { fineTick since with order := v.failed } since :=
      ⟨(fineTick_fine since).get, (fineTick_fine since).apply, rfl, fineSweep_fine since,
        fineSweep_fine since⟩
    exact ⟨_, .tick _ hv hfine (.refl _)⟩

theorem lost_ticks {a : Applier} {w t : Replica J} {since : Int} {m : Nat}
    (hticks : Ticks a since m w t) (hfailed : w.failed = [])
    (hlost : w.site.objects.lookup n = none) :
    Same a w t ∧ t.failed = [] ∧ t.site.objects.lookup n = none := by
  induction hticks with
  | none w => exact ⟨.refl a w, hfailed, hlost⟩
  | tick calls hbefore hfine horder ih =>
    obtain ⟨hsame, hfailed', hlost'⟩ := ih hfailed hlost
    exact ⟨hsame.trans (same_tick a calls _), lost_tick horder hfailed' hlost'⟩

theorem regained_due : regainedReplica.Due eastApplier instanceKey instanceEntry := by
  have hempty : regainedReplica.site.objects.entries = [] := by
    have h : regainedReplica.site.objects.entries.isEmpty = true := by decide +kernel
    exact isEmpty_iff.mp h
  have hlookup : ∀ n o, regainedReplica.site.objects.lookup n ≠ some o := by
    intro n o ho
    have hmem := mem_lookup_iff.mp ho
    cases hmem
  have hsame : Same eastApplier copiedReplica (tick eastApplier (fineTick 0) copiedReplica) :=
    same_tick eastApplier _ _
  have hsame' : Same eastApplier (regainedRun 5) withdrawnReplica :=
    same_tick eastApplier (fineTick 20000000000) (regainedRun 5)
  have hnamespaces : regainedReplica.site.namespaces = (projectSite [eastAccess]).namespaces :=
    hsame'.namespaces.trans (hsame.namespaces.trans
      (same_applyKey eastApplier (.fine 0) (key instanceKey) _ _).namespaces)
  have hmirror : regainedReplica.mirror = writtenReplica.mirror := hsame'.mirror.trans hsame.mirror
  have hproject : lit "project-a" ∈ eastApplier.projects regainedReplica.site := by decide +kernel
  refine ⟨by decide +kernel, ?_, ⟨rfl, rfl, by decide +kernel, rfl, ?_,
    fun o ho => absurd ho (hlookup _ o), fun n' o ho => absurd ho (hlookup n' o)⟩, ?_⟩
  · exact lookup_insert _
  · exact ⟨_, rfl, by decide +kernel⟩
  · exact ⟨_, rfl, hproject⟩

end InternalDNS.Feed
