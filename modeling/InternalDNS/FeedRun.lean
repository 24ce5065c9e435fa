import InternalDNS.Feed
import InternalDNS.GoWatch

/-! # The loop of the applier

`Applier.Run` watches the mirror and applies every key as it changes.  Keys that fail are tried again
at each tick with the value that the mirror has then; keys that are refused are not.  Once the mirror
has been replayed and is caught up, the copies of keys that were never seen are pruned, once, and from
then on the copies of projects that have lost their access are withdrawn at each tick.

The invariant of a run says what is known of each key that has no event under way and has not failed:
its copy is that of the entry in the mirror, or there is none.  It holds under two conditions on the
history, which `Wrote` and `Lost` stand for: no two keys are ever given entries of one origin UID, and
no project that has lost its access in the region gets it back.
-/
namespace InternalDNS.Feed

open Go List AList Except Applier

variable {J : Type}

/-- An event of the watch. -/
inductive FeedEvent (J : Type) where
  | synced
  | put (key : GoString) (value : Option (Entry J))
  | delete (key : GoString)

variable (k : GoString)

def FeedEvent.about : FeedEvent J → Option (Option (Option (Entry J)))
  | .synced => none
  | .put key value => if key = k then some (some value) else none
  | .delete key => if key = k then some none else none

/-- The value that the last event under way gives a key. -/
def lastEvent : List (FeedEvent J) → Option (Option (Option (Entry J))) :=
  lastSome (·.about k)

/-- The applier with the mirror and the local variables of `Run`. -/
structure Replica (J : Type) where
  site : Site J
  mirror : GoMap GoString (Option (Entry J))
  events : List (FeedEvent J)
  present : List GoString
  failed : List GoString
  synced : Bool
  pruned : Bool

/-- Go's `set[k] = true`. -/
def addKey (set : List GoString) : List GoString := if k ∈ set then set else k :: set

/-- Go's `delete(set, k)`. -/
def dropKey (set : List GoString) : List GoString := set.filter (· ≠ k)

@[simp] theorem mem_addKey {k j : GoString} {set : List GoString} :
    j ∈ addKey k set ↔ j = k ∨ j ∈ set := by
  unfold addKey
  split_ifs with h
  · exact ⟨.inr, fun hj => hj.elim (fun hj => hj ▸ h) id⟩
  · exact List.mem_cons

@[simp] theorem mem_dropKey {k j : GoString} {set : List GoString} :
    j ∈ dropKey k set ↔ j ∈ set ∧ j ≠ k := by
  simp [dropKey]

def FeedError.isFailed : Except FeedError Unit → Bool
  | .error (.failed _) => true
  | _ => false

namespace Replica

variable (a : Applier)

section

variable (calls : TickApi) (w : Replica J)

/-- The closure `apply` of `Run`. -/
def applyKey (api : Api) (k : GoString) (value : Option (Option (Entry J))) (w : Replica J) :
    Replica J :=
  let (site, result) := a.apply api k value w.site
  { w with
    site
    failed := if FeedError.isFailed result then addKey k w.failed else dropKey k w.failed }

/-- `Run` receives an event. -/
def receive (api : Api) (w : Replica J) : FeedEvent J → Replica J
  | .synced => { w with synced := true }
  | .put k value => applyKey a api k (some value) { w with present := addKey k w.present }
  | .delete k => applyKey a api k none { w with present := dropKey k w.present }

/-- How the calls of a tick turn out, and in which order the failed keys are tried. -/
structure TickApi where
  order : List GoString
  get : GoString → Bool
  apply : GoString → Api
  ready : Bool
  prune : SweepApi
  withdraw : SweepApi

/-- One failed key is tried again. -/
def retry (k : GoString) : Replica J :=
  if calls.get k then w else applyKey a (calls.apply k) k (w.mirror.lookup k) w

def withdraw : Replica J :=
  { w with site := a.withdrawUnserved calls.withdraw w.site }

/-- `Run` at a tick. -/
def tick : Replica J :=
  let w := calls.order.foldl (retry a calls) w
  if w.synced && !w.pruned then
    if calls.ready then
      let site := a.prune calls.prune w.present w.site
      if a.sweepOK calls.prune (fun n => key n ∉ w.present) w.site then
        withdraw a calls { w with site, pruned := true }
      else { w with site }
    else w
  else if w.pruned then withdraw a calls w else w

end

/-- The events with which a watch starts: every entry of the mirror, and perhaps marks of keys that
were deleted, up to the event that says so. -/
structure Replay (mirror : GoMap GoString (Option (Entry J))) (events : List (FeedEvent J)) : Prop where
  latest : ∀ k v, lastEvent k events = some v → v = mirror.lookup k
  all : ∀ k, lastEvent k events = none → mirror.lookup k = none
  entries : ∀ k v, .put k v ∈ events → mirror.lookup k = some v
  synced : .synced ∈ events

/-- A step of the mirror, of the access bindings or of `Run`; `Run` starts again when its watch ends. -/
inductive Step (w : Replica J) : Replica J → Prop
  | put (k : GoString) (value : Option (Entry J)) :
      Step w { w with mirror := w.mirror.insert k value, events := w.events ++ [.put k value] }
  | delete (k : GoString) :
      Step w { w with mirror := w.mirror.erase k, events := w.events ++ [.delete k] }
  | access (access : List AccessBinding) : Step w { w with site := { w.site with access } }
  | receive (api : Api) (ev : FeedEvent J) (rest : List (FeedEvent J)) (hevents : w.events = ev :: rest) :
      Step w (receive a api { w with events := rest } ev)
  | tick (calls : TickApi) (horder : calls.order.Perm w.failed) : Step w (tick a calls w)
  | restart (events : List (FeedEvent J)) (hreplay : Replay w.mirror events) :
      Step w ⟨{ w.site with served := none }, w.mirror, events, [], [], false, false⟩

/-- The first start of the applier, in a cluster without copies of the region. -/
structure Start (w : Replica J) : Prop where
  empty : ∀ n o, w.site.objects.lookup n = some o → o.origin ≠ a.region
  served : w.site.served = none
  present : w.present = []
  failed : w.failed = []
  synced : w.synced = false
  pruned : w.pruned = false
  replay : Replay w.mirror w.events

end Replica

/-! ## One call of `Apply` -/

section Apply

variable (a : Applier)

/-- The entry can be accepted, in a cluster with these namespaces and objects of other origins. -/
structure Acceptable (s : Site J) (n : ObjectKey) (e : Entry J) : Prop where
  namespace_ : e.namespace_ = n.namespace_
  name : e.name = n.name
  uid : wellFormedUID e.originUID = true
  spec : e.spec.isSome
  live : ∃ ns, s.namespaces.lookup n.namespace_ = some ns ∧ ns.live = true
  free : ∀ o, s.objects.lookup n = some o → o.origin = a.region
  unclaimed : ∀ n' o, s.objects.lookup n' = some o → claims n e.originUID n' o = true →
    o.origin = a.region

/-- The copy of the entry is there, or one of a later generation with the same UID. -/
def Copied (s : Site J) (n : ObjectKey) (e : Entry J) : Prop :=
  ∃ o, s.objects.lookup n = some o ∧ o.originUID = e.originUID ∧
    (o.after e = true ∨ ∃ uid spec, e.spec = some spec ∧ o = a.copy e uid spec)

/-- What one call of `Apply` for the object does, and what its result says. -/
structure ApplySpec (api : Api) (n : ObjectKey) (value : Option (Option (Entry J))) (s t : Site J)
    (result : Except FeedError Unit) : Prop where
  namespaces : t.namespaces = s.namespaces
  access : t.access = s.access
  served : t.served = s.served ∨ t.served = some ⟨a.projects s, api.now⟩
  frame : ∀ m, m ≠ n → t.objects.lookup m = s.objects.lookup m
  here : t.objects.lookup n = s.objects.lookup n ∨ t.objects.lookup n = none ∨
    ∃ e uid spec, value = some (some e) ∧ t.objects.lookup n = some (a.copy e uid spec) ∧
      e.originUID ≠ [] ∧ ∃ ns served, s.namespaces.lookup n.namespace_ = some ns ∧ ns.live = true ∧
        t.served = some served ∧ ns.project ∈ served.projects
  deleted : value = none → FeedError.isFailed result = false →
    ∀ o, t.objects.lookup n = some o → o.origin ≠ a.region
  copied : ∀ e, value = some (some e) → result = .ok () → Copied a t n e
  refused : ∀ e msg, value = some (some e) → result = .error (.refused msg) →
    (∃ o, s.objects.lookup n = some o ∧ o.origin ≠ a.region) ∨ wellFormedUID e.originUID = false ∨
      ∃ n' o, s.objects.lookup n' = some o ∧ claims n e.originUID n' o = true

variable {a} {api : Api} {k : GoString} {n : ObjectKey} {value : Option (Option (Entry J))}
  {s t : Site J} {e : FeedError} {entry : Entry J}

theorem accept_error (h : a.accept api k n value s = .error e) : FeedError.isFailed (.error e) = true ∨
    ∃ o, s.objects.lookup n = some o ∧ o.origin ≠ a.region := by
  unfold accept at h
  split_ifs at h
  · exact .inl (by rw [← error.inj h]; rfl)
  · cases hother : (s.objects.lookup n).filter fun o => o.origin ≠ a.region with
    | some o =>
      obtain ⟨ho, horigin⟩ := Option.filter_eq_some_iff.mp hother
      exact .inr ⟨o, ho, by simpa using horigin⟩
    | none =>
      rw [hother] at h
      rcases value with _ | _ | entry
      · cases h
      · exact .inl (by rw [← error.inj h]; rfl)
      · dsimp only at h
        split_ifs at h
        exact .inl (by rw [← error.inj h]; rfl)

theorem accept_ok {v : Option (Entry J)} (h : a.accept api k n value s = .ok v) :
    value = v.map some ∧ ∀ entry, v = some entry → entry.namespace_ = n.namespace_ ∧ entry.name = n.name := by
  unfold accept at h
  split_ifs at h
  cases hother : (s.objects.lookup n).filter fun o => o.origin ≠ a.region with
  | some o =>
    simp only [hother, reduceCtorEq] at h
  | none =>
    rw [hother] at h
    rcases value with _ | _ | entry
    · cases h
      exact ⟨rfl, fun _ h => nomatch h⟩
    · cases h
    · dsimp only at h
      split_ifs at h with hnames
      cases h
      exact ⟨rfl, fun entry' hentry => Option.some.inj hentry ▸ hnames⟩

/-- A call that reads the projects leaves the cache or reads them now. -/
theorem servedProjects_ok {served : Served} (h : a.servedProjects api s = .ok served) :
    s.served = some served ∧ api.now - served.readAt < a.pace ∨ served = ⟨a.projects s, api.now⟩ := by
  unfold servedProjects at h
  cases hcache : s.served.filter fun served => decide (api.now - served.readAt < a.pace) with
  | some cached =>
    rw [hcache] at h
    cases h
    obtain ⟨hs, hage⟩ := Option.filter_eq_some_iff.mp hcache
    exact .inl ⟨hs, by simpa using hage⟩
  | none =>
    rw [hcache] at h
    split_ifs at h
    exact .inr (ok.inj h).symm

theorem servedProjects_error (h : a.servedProjects api s = .error e) :
    FeedError.isFailed (.error e) = true := by
  unfold servedProjects at h
  cases hcache : s.served.filter fun served => decide (api.now - served.readAt < a.pace) with
  | some cached => rw [hcache] at h; cases h
  | none =>
    rw [hcache] at h
    split_ifs at h
    rw [← error.inj h]
    rfl

/-- What `mapped` leaves in the cache, and what its result says. -/
structure MappedSpec (a : Applier) (api : Api) (s : Site J) (namespace_ : GoString)
    (served : Option Served) (result : Except FeedError Unit) : Prop where
  cache : served = s.served ∨ served = some ⟨a.projects s, api.now⟩
  ok : result = .ok () → ∃ ns read, s.namespaces.lookup namespace_ = some ns ∧ ns.live = true ∧
    served = some read ∧ ns.project ∈ read.projects
  error : ∀ e, result = .error e → FeedError.isFailed (.error e) = true

theorem mapped_spec (a : Applier) (api : Api) (s : Site J) (namespace_ : GoString) :
    MappedSpec a api s namespace_ (a.mapped api namespace_ s).1 (a.mapped api namespace_ s).2 := by
  unfold mapped
  cases hns : if api.namespace_ then none else s.namespaces.lookup namespace_ with
  | none =>
    refine ⟨.inl rfl, nofun, ?_⟩
    rintro _ ⟨⟩
    rfl
  | some ns =>
    have hlookup : s.namespaces.lookup namespace_ = some ns := by
      split_ifs at hns
      exact hns
    dsimp only
    split_ifs with hlive
    · cases hread : a.servedProjects api s with
      | error e =>
        refine ⟨.inl rfl, nofun, ?_⟩
        rintro _ ⟨⟩
        exact servedProjects_error hread
      | ok read =>
        have hcache : some read = s.served ∨ some read = some ⟨a.projects s, api.now⟩ := by
          rcases servedProjects_ok hread with ⟨h, -⟩ | h
          · exact .inl h.symm
          · exact .inr (by rw [h])
        dsimp only
        split_ifs with hproject
        · exact ⟨hcache, fun _ => ⟨ns, read, hlookup, hlive, rfl, hproject⟩, nofun⟩
        · refine ⟨hcache, nofun, ?_⟩
          rintro _ ⟨⟩
          rfl
    · refine ⟨.inl rfl, nofun, ?_⟩
      rintro _ ⟨⟩
      rfl

theorem write_cases (api : Api) (s t : Site J) :
    (write api s t = (s, .error (.failed api.error))) ∨ (write api s t = (t, .error (.failed api.error))) ∨
      (write api s t = (t, .ok ()) ∧ api.write = .done) := by
  unfold write
  cases api.write with
  | done => exact .inr (.inr ⟨rfl, rfl⟩)
  | failed => exact .inl rfl
  | lost => exact .inr (.inl rfl)

theorem ApplySpec.nothing (msg : GoString) : ApplySpec a api n value s s (.error (.failed msg)) :=
  ⟨rfl, rfl, .inl rfl, fun _ _ => rfl, .inl rfl, fun _ h => (nomatch h),
    fun _ _ h => (nomatch h), fun _ _ _ h => (nomatch h)⟩

/-- A write that fails changes nothing, or what it would change if it did not. -/
theorem spec_write (h : ApplySpec a api n value s t (.ok ())) :
    ApplySpec a api n value s (write api s t).1 (write api s t).2 := by
  rcases write_cases api s t with hwrite | hwrite | ⟨hwrite, -⟩ <;> rw [hwrite]
  · exact .nothing _
  · exact { h with
      deleted := fun _ h => (nomatch h)
      copied := fun _ _ h => (nomatch h)
      refused := fun _ _ _ h => (nomatch h) }
  · exact h

/-- A copy of the region that is taken away. -/
theorem spec_erase :
    ApplySpec a api n none s (write api s (s.remove n)).1 (write api s (s.remove n)).2 := by
  have hgone : (s.remove n).objects.lookup n = none := lookup_erase n s.objects
  refine spec_write ⟨rfl, rfl, .inl rfl, fun m hm => lookup_erase_ne hm, .inr (.inl hgone),
    fun _ _ o ho => ?_, fun _ h => (nomatch h), fun _ _ h => (nomatch h)⟩
  rw [hgone] at ho
  cases ho

theorem uniqueIdentity_error {uid : GoString} (h : uniqueIdentity api n uid s = .error e) :
    FeedError.isFailed (.error e) = true ∨ wellFormedUID uid = false ∨
      ∃ n' o, s.objects.lookup n' = some o ∧ claims n uid n' o = true := by
  unfold uniqueIdentity at h
  split_ifs at h with hwell
  · exact .inl (by rw [← error.inj h]; rfl)
  · cases hfound : s.objects.entries.find? fun e => claims n uid e.1 e.2 with
    | none => rw [hfound] at h; cases h
    | some other =>
      have hclaims := List.find?_some hfound
      exact .inr (.inr ⟨other.1, other.2,
        mem_lookup_iff.mpr (mem_of_find?_eq_some hfound), hclaims⟩)
  · exact .inr (.inl (by simpa using hwell))

/-- The part of `Apply` that writes. -/
theorem spec_execute {p : Plan J} {ns : Namespace} {read : Served}
    (hns : s.namespaces.lookup n.namespace_ = some ns) (hlive : ns.live = true)
    (hread : s.served = some read) (hproject : ns.project ∈ read.projects)
    (hplan : a.plan api k n entry s = .ok p) :
    ApplySpec a api n (some (some entry)) s (execute api n s p).1 (execute api n s p).2 := by
  have hunique := unique_of_plan hplan
  rcases plan_of_unique (a := a) (k := k) hunique with
    ⟨o, ho, huid, h⟩ | ⟨o, ho, huid, hafter, h⟩ | ⟨-, h⟩ | ⟨uid, spec, hspec, h, -⟩ <;>
    rw [hplan] at h
  · cases h
    have herase : ∀ msg, ApplySpec a api n (some (some entry)) s (s.remove n) (.error (.failed msg)) :=
      fun msg => ⟨rfl, rfl, .inl rfl, fun m hm => lookup_erase_ne hm,
        .inr (.inl (lookup_erase n s.objects)), by simp, by simp, by simp⟩
    rcases write_cases api s (s.remove n) with h | h | ⟨h, -⟩ <;> simp only [execute, h]
    · exact .nothing _
    · exact herase _
    · exact herase _
  · cases h
    refine ⟨rfl, rfl, .inl rfl, fun _ _ => rfl, .inl rfl, by simp, ?_, by simp [execute]⟩
    intro e he _
    cases he
    exact ⟨o, ho, huid, .inl hafter⟩
  · cases h
  · cases h
    have hput : (s.put n (a.copy entry uid spec)).objects.lookup n = some (a.copy entry uid spec) :=
      lookup_insert s.objects
    refine spec_write ⟨rfl, rfl, .inl rfl, fun m hm => lookup_insert_ne hm, .inr (.inr ?_),
      by simp, fun e he _ => ?_, by simp⟩
    · exact ⟨entry, uid, spec, rfl, hput,
        ne_nil_of_wellFormedUID (uniqueIdentity_eq_ok.mp hunique).1, ns, read, hns, hlive, hread, hproject⟩
    · cases he
      exact ⟨a.copy entry uid spec, hput, originUID_copy entry uid spec, .inr ⟨uid, spec, hspec, rfl⟩⟩

/-- **What `Apply` does for an object.** -/
theorem apply_spec (api : Api) (value : Option (Option (Entry J))) (s : Site J)
    (hlocate : locate k = some n) :
    ApplySpec a api n value s (a.apply api k value s).1 (a.apply api k value s).2 := by
  unfold apply
  rw [hlocate]
  dsimp only
  cases haccept : a.accept api k n value s with
  | error e =>
    dsimp only
    refine ⟨rfl, rfl, .inl rfl, fun _ _ => rfl, .inl rfl, fun _ hresult o ho => ?_,
      fun _ _ h => (nomatch h), fun e' msg _ h => ?_⟩
    · rcases accept_error haccept with hfailed | ⟨o', ho', horigin⟩
      · rw [hfailed] at hresult
        cases hresult
      · rw [ho] at ho'
        exact Option.some.inj ho' ▸ horigin
    · rcases accept_error haccept with hfailed | hother
      · rw [h] at hfailed
        cases hfailed
      · exact .inl hother
  | ok v =>
    obtain ⟨rfl, -⟩ := accept_ok haccept
    cases v with
    | none =>
      split_ifs with hsome
      · exact spec_erase
      · refine ⟨rfl, rfl, .inl rfl, fun _ _ => rfl, .inl rfl, fun _ _ o ho => ?_,
          fun _ h => (nomatch h), fun _ _ h => (nomatch h)⟩
        exact absurd (by rw [ho]; rfl) hsome
    | some entry =>
      have hmapped := mapped_spec a api s n.namespace_
      generalize a.mapped api n.namespace_ s = m at hmapped
      rcases m with ⟨served, e | u⟩
      · have hfailed := hmapped.error e rfl
        dsimp only
        refine ⟨rfl, rfl, hmapped.cache, fun _ _ => rfl, .inl rfl, nofun,
          fun _ _ h => (nomatch h), fun _ msg _ h => ?_⟩
        rw [h] at hfailed
        cases hfailed
      · obtain ⟨ns, read, hns, hlive, hread, hproject⟩ := hmapped.ok rfl
        obtain rfl : served = some read := hread
        dsimp only
        cases hplan : a.plan api k n entry { s with served := some read } with
        | error e =>
          refine ⟨rfl, rfl, hmapped.cache, fun _ _ => rfl, .inl rfl, nofun,
            fun _ _ h => (nomatch h), fun e' msg hvalue h => ?_⟩
          cases hvalue
          cases h
          cases hunique : uniqueIdentity api n entry.originUID { s with served := some read } with
          | error e =>
            rw [plan, hunique] at hplan
            cases hplan
            rcases uniqueIdentity_error hunique with hfailed | hrest
            · cases hfailed
            · exact .inr hrest
          | ok u =>
            rcases plan_of_unique (a := a) (k := k) hunique with
              ⟨o, -, -, h⟩ | ⟨o, -, -, -, h⟩ | ⟨-, h⟩ | ⟨uid, spec, -, h, -⟩ <;>
              rw [hplan] at h <;> cases h
        | ok p =>
          have hspec := spec_execute (s := { s with served := some read }) hns hlive rfl hproject hplan
          refine { hspec with served := ?_ }
          rcases hspec.served with h | h
          · rw [h]
            exact hmapped.cache
          · exact .inr h

end Apply

/-! ## The invariant -/

section Invariant

/-- What is known of a copy: it is that of an entry that its key once had, in a project that has
access or has lost it. -/
structure CopyInv (a : Applier) (Wrote : ObjectKey → Entry J → Prop) (Lost : GoString → Prop)
    (s : Site J) (n : ObjectKey) (o : Object J) : Prop where
  located : locate (key n) = some n
  wrote : ∃ e uid spec, Wrote n e ∧ e.originUID ≠ [] ∧ o = a.copy e uid spec
  served : ∃ ns, s.namespaces.lookup n.namespace_ = some ns ∧ ns.live = true ∧
    (ns.project ∈ a.projects s ∨ Lost ns.project) ∧
    ∀ read, s.served = some read → ns.project ∈ read.projects ∨ Lost ns.project

/-- Nothing is under way for the object, apart from the keys in `skip`. -/
structure Replica.Settled (w : Replica J) (skip : GoString → Prop) (n : ObjectKey) : Prop where
  located : locate (key n) = some n
  kept : ¬ skip (key n)
  event : lastEvent (key n) w.events = none
  failed : key n ∉ w.failed

/-- What is known of a run: `Wrote` are the entries that the keys have had so far, and `Lost` the
projects that have lost their access. -/
structure Replica.Inv (a : Applier) (Wrote : ObjectKey → Entry J → Prop) (Lost : GoString → Prop)
    (skip : GoString → Prop) (w : Replica J) : Prop where
  mirror : ∀ k n e, locate k = some n → w.mirror.lookup k = some (some e) → Wrote n e
  pending : ∀ k n e, locate k = some n → .put k (some e) ∈ w.events → Wrote n e
  latest : ∀ k v, lastEvent k w.events = some v → v = w.mirror.lookup k
  present : ∀ k, lastEvent k w.events = none → (k ∈ w.present ↔ (w.mirror.lookup k).isSome)
  synced : w.synced = true ∨ .synced ∈ w.events
  copies : ∀ n o, w.site.objects.lookup n = some o → o.origin = a.region →
    CopyInv a Wrote Lost w.site n o
  served : ∀ read, w.site.served = some read →
    ∀ project ∈ read.projects, project ∈ a.projects w.site ∨ Lost project
  gone : w.pruned = true → ∀ n, w.Settled skip n → w.mirror.lookup (key n) = none →
    ∀ o, w.site.objects.lookup n = some o → o.origin ≠ a.region
  done : ∀ n e, w.Settled skip n → w.mirror.lookup (key n) = some (some e) →
    Acceptable a w.site n e → Copied a w.site n e ∨
      ∀ ns, w.site.namespaces.lookup n.namespace_ = some ns → Lost ns.project

variable {a : Applier} {Wrote : ObjectKey → Entry J → Prop} {Lost : GoString → Prop}
  {skip : GoString → Prop} {w : Replica J} {s t : Site J} {n : ObjectKey} {k : GoString} {api : Api}
  {value : Option (Option (Entry J))}

/-- Two objects are named by one key only if they are the same. -/
theorem eq_of_key_eq {n m : ObjectKey} (hn : locate (key n) = some n) (hm : locate (key m) = some m)
    (h : key m = key n) : m = n := by
  rw [h, hn] at hm
  exact (Option.some.inj hm).symm

theorem projects_congr (hnamespaces : t.namespaces = s.namespaces) (haccess : t.access = s.access) :
    a.projects t = a.projects s := by
  unfold projects
  rw [hnamespaces, haccess]

/-- Whether an entry is acceptable depends on the objects of other origins only. -/
theorem Acceptable.of_others {e : Entry J} (h : Acceptable a t n e)
    (hnamespaces : t.namespaces = s.namespaces) (hothers : ∀ m o, o.origin ≠ a.region →
      s.objects.lookup m = some o → t.objects.lookup m = some o) : Acceptable a s n e := by
  refine { h with
    live := hnamespaces ▸ h.live
    free := fun o ho => ?_
    unclaimed := fun n' o ho hclaims => ?_ }
  · by_contra hother
    exact hother (h.free o (hothers n o hother ho))
  · by_contra hother
    exact hother (h.unclaimed n' o (hothers n' o hother ho) hclaims)

theorem CopyInv.congr {o : Object J} (h : CopyInv a Wrote Lost s n o)
    (hnamespaces : t.namespaces = s.namespaces) (haccess : t.access = s.access)
    (hserved : t.served = s.served ∨ ∃ now, t.served = some ⟨a.projects s, now⟩) :
    CopyInv a Wrote Lost t n o := by
  obtain ⟨ns, hns, hlive, haccess', hread⟩ := h.served
  refine ⟨h.located, h.wrote, ns, hnamespaces ▸ hns, hlive,
    projects_congr hnamespaces haccess ▸ haccess', fun read hr => ?_⟩
  rcases hserved with hsame | ⟨now, hfresh⟩
  · exact hread read (hsame ▸ hr)
  · rw [hfresh] at hr
    cases hr
    exact haccess'

/-- The copies of two keys do not share a UID. -/
def Replica.Distinct (Wrote : ObjectKey → Entry J → Prop) : Prop :=
  ∀ n n' e e', Wrote n e → Wrote n' e' → n.kind = n'.kind → n.namespace_ = n'.namespace_ →
    e.originUID = e'.originUID → n = n'

/-- No copy of the region stands in the way of an entry. -/
theorem not_claims_of_copy {e : Entry J} {n' : ObjectKey} {o : Object J}
    (hdistinct : Replica.Distinct Wrote) (hwrote : Wrote n e) (ho : CopyInv a Wrote Lost s n' o)
    (hclaims : claims n e.originUID n' o = true) : False := by
  obtain ⟨e', uid, spec, hwrote', huid, rfl⟩ := ho.wrote
  simp only [claims, decide_eq_true_eq, held_copy huid] at hclaims
  obtain ⟨hkind, hns, hname, hheld⟩ := hclaims
  have heq : n' = n := hdistinct n' n e' e hwrote' hwrote hkind hns hheld
  exact hname (congrArg ObjectKey.name heq)

namespace Replica

/-- A key that stands for no object of a known kind. -/
theorem apply_of_not_located (h : locate k = none) : a.apply api k value s = (s, .ok ()) := by
  unfold apply
  rw [h]

theorem failed_of_settled (h : (applyKey a api k value w).Settled skip n) (hkey : key n ≠ k) :
    key n ∉ w.failed := by
  intro hmem
  refine h.failed ?_
  unfold applyKey
  dsimp only
  split_ifs
  · exact mem_addKey.mpr (.inr hmem)
  · exact mem_dropKey.mpr ⟨hmem, hkey⟩

theorem isFailed_of_settled (h : (applyKey a api k value w).Settled skip n) (hkey : key n = k) :
    FeedError.isFailed (a.apply api k value w.site).2 = false := by
  by_contra hfailed
  refine h.failed ?_
  unfold applyKey
  dsimp only
  rw [if_pos (by simpa using hfailed)]
  exact mem_addKey.mpr (.inl hkey)

/-- **A key is applied.**  Nothing needs to be known of the key itself before. -/
theorem Inv.applyKey (hdistinct : Distinct Wrote) (h : w.Inv a Wrote Lost (· = k))
    (hvalue : lastEvent k w.events = none → value = w.mirror.lookup k)
    (hwrote : ∀ n e, locate k = some n → value = some (some e) → Wrote n e) (api : Api) :
    (applyKey a api k value w).Inv a Wrote Lost (fun _ => False) := by
  have hsettled : ∀ n, (Replica.applyKey a api k value w).Settled (fun _ => False) n → key n ≠ k →
      w.Settled (· = k) n :=
    fun n hn hkey => ⟨hn.located, hkey, hn.event, failed_of_settled hn hkey⟩
  cases hlocate : locate k with
  | none =>
    have hother : ∀ n, locate (key n) = some n → key n ≠ k := by
      rintro n hn rfl
      rw [hn] at hlocate
      cases hlocate
    have hsite : (Replica.applyKey a api k value w).site = w.site :=
      congrArg Prod.fst (apply_of_not_located hlocate)
    refine { h with
      copies := by rw [hsite]; exact h.copies
      served := by rw [hsite]; exact h.served
      gone := fun hpruned n hn => ?_
      done := fun n e hn => ?_ }
    · rw [hsite]
      exact h.gone hpruned n (hsettled n hn (hother n hn.located))
    · rw [hsite]
      exact h.done n e (hsettled n hn (hother n hn.located))
  | some m =>
    have hspec := apply_spec (a := a) api value w.site hlocate
    have hothers := fun m o ho => ((change_apply a api k value w.site).confined.others m o ho).mp
    have hkey : key m = k := (locate_eq_some.mp hlocate).1
    have hm : locate (key m) = some m := hkey ▸ hlocate
    have hserved : (a.apply api k value w.site).1.served = w.site.served ∨
        ∃ now, (a.apply api k value w.site).1.served = some ⟨a.projects w.site, now⟩ :=
      hspec.served.imp_right fun h => ⟨api.now, h⟩
    have hread : ∀ read, (a.apply api k value w.site).1.served = some read →
        ∀ project ∈ read.projects, project ∈ a.projects w.site ∨ Lost project := by
      intro read hr project hproject
      rcases hspec.served with hsame | hfresh
      · exact h.served read (hsame ▸ hr) project hproject
      · rw [hfresh] at hr
        cases hr
        exact .inl hproject
    have hprojects := projects_congr (a := a) hspec.namespaces hspec.access
    refine { h with
      copies := fun n o ho hown => ?_
      served := fun read hr project hproject => hprojects ▸ hread read hr project hproject
      gone := fun hpruned n hn hnone o ho => ?_
      done := fun n e hn hsome hacc => ?_ }
    · by_cases hn : n = m
      · subst hn
        rcases hspec.here with hsame | hnone | ⟨e, uid, spec, hval, hput, huid, ns, read, hns, hlive, hr, hp⟩
        · exact (h.copies n o (hsame ▸ ho) hown).congr hspec.namespaces hspec.access hserved
        · rw [show (Replica.applyKey a api k value w).site.objects.lookup n = none from hnone] at ho
          cases ho
        · rw [show (Replica.applyKey a api k value w).site.objects.lookup n = some _ from hput] at ho
          refine ⟨hm, ⟨e, uid, spec, hwrote n e hlocate hval, huid, (Option.some.inj ho).symm⟩,
            ns, hspec.namespaces ▸ hns, hlive, ?_, fun read' hr' => ?_⟩
          · exact hprojects ▸ hread read hr _ hp
          · obtain rfl : read = read' := Option.mem_unique hr hr'
            exact .inl hp
      · exact (h.copies n o (hspec.frame n hn ▸ ho) hown).congr hspec.namespaces hspec.access hserved
    · by_cases hnm : n = m
      · subst hnm
        have hval : value = none := by
          rw [hvalue (hkey ▸ hn.event), ← hkey]
          exact hnone
        exact hspec.deleted hval (isFailed_of_settled hn hkey) o ho
      · have hne : key n ≠ k := fun heq => hnm (eq_of_key_eq hm hn.located (heq.trans hkey.symm))
        exact h.gone hpruned n (hsettled n hn hne) hnone o (hspec.frame n hnm ▸ ho)
    · by_cases hnm : n = m
      · subst hnm
        have hval : value = some (some e) := by
          rw [hvalue (hkey ▸ hn.event), ← hkey]
          exact hsome
        have hresult := isFailed_of_settled hn hkey
        cases hres : (a.apply api k value w.site).2 with
        | ok u => exact .inl (hspec.copied e hval hres)
        | error err =>
          cases err with
          | failed msg => rw [hres] at hresult; cases hresult
          | refused msg =>
            exfalso
            have hacc' := hacc.of_others hspec.namespaces hothers
            rcases hspec.refused e msg hval hres with ⟨o, ho, horigin⟩ | hwell | ⟨n', o, ho, hclaims⟩
            · exact horigin (hacc'.free o ho)
            · rw [hacc'.uid] at hwell
              cases hwell
            · exact not_claims_of_copy hdistinct (hwrote n e hlocate hval)
                (h.copies n' o ho (hacc'.unclaimed n' o ho hclaims)) hclaims
      · have hne : key n ≠ k := fun heq => hnm (eq_of_key_eq hm hn.located (heq.trans hkey.symm))
        rcases h.done n e (hsettled n hn hne) hsome (hacc.of_others hspec.namespaces hothers) with
          ⟨o, ho, hcopy⟩ | hlost
        · exact .inl ⟨o, by rw [← ho]; exact hspec.frame n hnm, hcopy⟩
        · exact .inr fun ns hns => hlost ns (hspec.namespaces ▸ hns)

/-! ### Sweeps and ticks -/

theorem lookup_sweep (a : Applier) (calls : SweepApi) (doomed : ObjectKey → Bool) (s : Site J)
    (n : ObjectKey) : (a.sweep calls doomed s).objects.lookup n = (s.objects.lookup n).filter
      fun o => !(a.owns o && doomed n && !calls.list n.kind && calls.delete n ≠ .failed) := by
  rw [sweep, GoMap.lookup_filter]

variable {calls : SweepApi} {doomed : ObjectKey → Bool} {o : Object J} {ev : FeedEvent J}

theorem lookup_of_sweep (h : (a.sweep calls doomed s).objects.lookup n = some o) :
    s.objects.lookup n = some o := by
  rw [lookup_sweep] at h
  exact (Option.filter_eq_some_iff.mp h).1

/-- A copy that is not to go stays. -/
theorem lookup_sweep_of_not_doomed (h : s.objects.lookup n = some o) (hdoomed : doomed n = false) :
    (a.sweep calls doomed s).objects.lookup n = some o := by
  rw [lookup_sweep, h, Option.filter_some, hdoomed]
  simp

/-- The copies whose keys were never seen are removed, if every call succeeds. -/
theorem gone_of_prune (hok : a.sweepOK calls doomed s = true) (hdoomed : doomed n = true)
    (howns : a.owns o = true) :
    (a.sweep calls doomed s).objects.lookup n ≠ some o := by
  intro ho
  obtain ⟨hlookup, hstays⟩ := Option.filter_eq_some_iff.mp (lookup_sweep a calls doomed s n ▸ ho)
  simp only [sweepOK, Bool.and_eq_true, all_eq_true] at hok
  have hlist : calls.list n.kind = false := by
    have hkind : n.kind ∈ kinds := by cases n.kind <;> decide
    simpa using hok.1 n.kind hkind
  have hdelete : calls.delete n = .done := by
    have hgone := hok.2 ⟨n, o⟩ (mem_lookup_iff.mp hlookup)
    simpa [howns, hdoomed] using hgone
  simp [howns, hdoomed, hlist, hdelete] at hstays

theorem owns_of_copyInv (h : CopyInv a Wrote Lost s n o) : a.owns o = true := by
  obtain ⟨e, uid, spec, -, -, rfl⟩ := h.wrote
  simp [owns, copy]

section

variable (h : w.Inv a Wrote Lost skip)
include h

theorem Inv.weaken (skip' : GoString → Prop) (hskip : ∀ k, skip k → skip' k) : w.Inv a Wrote Lost skip' := by
  have hsettled : ∀ n, w.Settled skip' n → w.Settled skip n :=
    fun n hn => { hn with kept := fun hk => hn.kept (hskip _ hk) }
  exact { h with
    gone := fun hpruned n hn => h.gone hpruned n (hsettled n hn)
    done := fun n e hn => h.done n e (hsettled n hn) }

/-- Copies are swept, and none that is up to date in a project with access. -/
theorem Inv.sweep (calls : SweepApi)
    (hdoomed : ∀ n e, w.Settled skip n → w.mirror.lookup (key n) = some (some e) →
      doomed n = true → Copied a w.site n e → Acceptable a w.site n e →
      ∀ ns, w.site.namespaces.lookup n.namespace_ = some ns → Lost ns.project) :
    Inv a Wrote Lost skip { w with site := a.sweep calls doomed w.site } := by
  refine { h with
    copies := fun n o ho hown => ?_
    gone := fun hpruned n hn hnone o ho => ?_
    done := fun n e hn hsome hacc => ?_ }
  · exact (h.copies n o (lookup_of_sweep ho) hown).congr rfl rfl (.inl rfl)
  · exact h.gone hpruned n { hn with } hnone o (lookup_of_sweep ho)
  · have hn' : w.Settled skip n := { hn with }
    have hacc' : Acceptable a w.site n e :=
      hacc.of_others rfl fun m o ho =>
        ((change_sweep a calls doomed w.site).confined.others m o ho).mp
    rcases h.done n e hn' hsome hacc' with hcopied | hlost
    · cases hgoes : doomed n with
      | true => exact .inr (hdoomed n e hn' hsome hgoes hcopied hacc')
      | false =>
        obtain ⟨o, ho, hcopy⟩ := hcopied
        exact .inl ⟨o, lookup_sweep_of_not_doomed ho hgoes, hcopy⟩
    · exact .inr hlost

/-- The cache is read again, or kept. -/
theorem Inv.cache {read : Served} (now : Int)
    (hread : w.site.served = some read ∨ read = ⟨a.projects w.site, now⟩) :
    Inv a Wrote Lost skip { w with site := { w.site with served := some read } } := by
  have hserved : some read = w.site.served ∨ ∃ now, some read = some ⟨a.projects w.site, now⟩ := by
    rcases hread with h | h
    · exact .inl h.symm
    · exact .inr ⟨now, by rw [h]⟩
  refine { h with
    copies := fun n o ho hown => (h.copies n o ho hown).congr rfl rfl hserved
    served := fun read' hr project hp => ?_
    gone := fun hpruned n hn => h.gone hpruned n { hn with }
    done := fun n e hn hsome hacc => h.done n e { hn with } hsome { hacc with } }
  cases hr
  rcases hread with hsame | rfl
  · exact h.served read hsame project hp
  · exact .inl hp

theorem Inv.withdraw (calls : TickApi) : (withdraw a calls w).Inv a Wrote Lost skip := by
  unfold Replica.withdraw withdrawUnserved
  cases hread : a.servedProjects _ w.site with
  | error e => exact h
  | ok read =>
    have h' := h.cache calls.withdraw.now ((servedProjects_ok hread).imp_left And.left)
    split_ifs
    · exact h'
    · refine h'.sweep calls.withdraw fun n e hn hsome hgoes hcopied hacc ns hns => ?_
      -- the copy was written in a project that had access, and the cache says that it has none
      obtain ⟨o, ho, -⟩ := hcopied
      obtain ⟨ns', hns', -, -, hcache⟩ := (h'.copies n o ho (hacc.free o ho)).served
      obtain rfl : ns = ns' := Option.mem_unique hns hns'
      rcases hcache read rfl with hp | hlost
      · simp [unserved, show w.site.namespaces.lookup n.namespace_ = some ns from hns, hp] at hgoes
      · exact hlost

theorem Inv.prune (calls : SweepApi) :
    Inv a Wrote Lost skip { w with site := a.prune calls w.present w.site } := by
  refine h.sweep calls fun n e hn hsome hgoes _ _ => ?_
  have hpresent : key n ∈ w.present := (h.present _ hn.event).mpr (by rw [hsome]; rfl)
  simp [hpresent] at hgoes

theorem Inv.pruned (hok : a.sweepOK calls (fun n => key n ∉ w.present) w.site = true) :
    Inv a Wrote Lost skip { w with site := a.prune calls w.present w.site, pruned := true } := by
  have h' := h.prune calls
  refine { h' with
    gone := fun _ n hn hnone o ho hown => ?_
    done := fun n e hn => h'.done n e { hn with } }
  have hunseen : key n ∉ w.present := by
    intro hmem
    have hsome := (h.present _ hn.event).mp hmem
    rw [show w.mirror.lookup (key n) = none from hnone] at hsome
    cases hsome
  exact gone_of_prune hok (by simpa using hunseen) (owns_of_copyInv (h'.copies n o ho hown)) ho

/-- The mirror changes, and the watch will say so. -/
theorem Inv.change {mirror : GoMap GoString (Option (Entry J))} (k : GoString) (habout : ∀ j, j ≠ k → ev.about j = none)
    (hhere : ev.about k = some (mirror.lookup k))
    (hmirror : ∀ j, j ≠ k → mirror.lookup j = w.mirror.lookup j)
    (hwrote : ∀ j n e, locate j = some n → mirror.lookup j = some (some e) → Wrote n e)
    (hput : ∀ j e, ev = .put j e → mirror.lookup j = some e) :
    Inv a Wrote Lost skip { w with mirror, events := w.events ++ [ev] } := by
  have hlast : ∀ j, lastEvent j (w.events ++ [ev]) = (ev.about j).or (lastEvent j w.events) :=
    fun j => lastSome_concat _ w.events ev
  have hne : ∀ j, lastEvent j (w.events ++ [ev]) = none → j ≠ k := by
    rintro j hj rfl
    rw [hlast, hhere] at hj
    cases hj
  have hbefore : ∀ j, lastEvent j (w.events ++ [ev]) = none → lastEvent j w.events = none := by
    intro j hj
    have hjk := hne j hj
    rwa [hlast, habout j hjk, Option.none_or] at hj
  have hsettled : ∀ n, Settled { w with mirror, events := w.events ++ [ev] } skip n → w.Settled skip n :=
    fun n hn => { hn with event := hbefore _ hn.event }
  have hkept : ∀ n, Settled { w with mirror, events := w.events ++ [ev] } skip n →
      mirror.lookup (key n) = w.mirror.lookup (key n) :=
    fun n hn => hmirror _ (hne _ hn.event)
  refine ⟨hwrote, fun j n e hj hmem => ?_, fun j v hv => ?_, fun j hj => ?_,
    h.synced.imp_right (mem_append_left _), h.copies, h.served,
    fun hpruned n hn hnone => h.gone hpruned n (hsettled n hn) ((hkept n hn).symm.trans hnone),
    fun n e hn hsome => h.done n e (hsettled n hn) ((hkept n hn).symm.trans hsome)⟩
  · rcases mem_append.mp hmem with hmem | hmem
    · exact h.pending j n e hj hmem
    · exact hwrote j n e hj (hput j (some e) (mem_singleton.mp hmem).symm)
  · rw [show lastEvent j (w.events ++ [ev]) = _ from hlast j] at hv
    by_cases hjk : j = k
    · subst hjk
      rw [hhere] at hv
      exact (Option.some.inj hv).symm
    · rw [habout j hjk, Option.none_or] at hv
      exact (h.latest j v hv).trans (hmirror j hjk).symm
  · rw [show mirror.lookup j = w.mirror.lookup j from hmirror j (hne j hj)]
    exact h.present j (hbefore j hj)

theorem Inv.access (access : List AccessBinding)
    (hlost : ∀ project ∈ a.projects w.site,
      project ∈ a.projects { w.site with access } ∨ Lost project) :
    Inv a Wrote Lost skip { w with site := { w.site with access } } := by
  have hkeep : ∀ project, project ∈ a.projects w.site ∨ Lost project →
      project ∈ a.projects { w.site with access } ∨ Lost project :=
    fun project hp => hp.elim (hlost project) .inr
  refine { h with
    copies := fun n o ho hown => ?_
    served := fun read hr project hp => hkeep project (h.served read hr project hp)
    gone := fun hpruned n hn => h.gone hpruned n { hn with }
    done := fun n e hn hsome hacc => h.done n e { hn with } hsome { hacc with } }
  have hcopy := h.copies n o ho hown
  obtain ⟨ns, hns, hlive, hp, hread⟩ := hcopy.served
  exact { hcopy with served := ⟨ns, hns, hlive, hkeep ns.project hp, hread⟩ }

end

section

variable (hdistinct : Distinct Wrote) (h : w.Inv a Wrote Lost (fun _ => False))
include hdistinct h

variable {rest : List (FeedEvent J)} (calls : TickApi)

theorem Inv.retry (k : GoString) : (retry a calls w k).Inv a Wrote Lost (fun _ => False) := by
  unfold Replica.retry
  split_ifs
  · exact h
  · exact (h.weaken (· = k) fun _ => False.elim).applyKey hdistinct (fun _ => rfl)
      (fun n e hlocate hvalue => h.mirror k n e hlocate hvalue) _

theorem Inv.retries (keys : List GoString) :
    (keys.foldl (Replica.retry a calls) w).Inv a Wrote Lost (fun _ => False) := by
  induction keys generalizing w with
  | nil => exact h
  | cons k keys ih => exact ih (h.retry hdistinct calls k)

theorem Inv.tick : (tick a calls w).Inv a Wrote Lost (fun _ => False) := by
  have h' := h.retries hdistinct calls calls.order
  unfold Replica.tick
  dsimp only
  split_ifs with hsynced hready hok hpruned
  · exact (h'.pruned hok).withdraw calls
  · exact h'.prune calls.prune
  · exact h'
  · exact h'.withdraw calls
  · exact h'

/-- The watch delivers an event about a key, and the key is applied. -/
theorem Inv.deliver {present : List GoString} (hevents : w.events = ev :: rest) (hev : ev ≠ .synced)
    (habout : ∀ j, ev.about j = if k = j then some value else none)
    (hpresent : ∀ j, j ∈ present ↔ if j = k then value.isSome = true else j ∈ w.present)
    (hput : ∀ e, value = some (some e) → ev = .put k (some e)) (api : Api) :
    (Replica.applyKey a api k value { w with events := rest, present }).Inv a Wrote Lost
      (fun _ => False) := by
  have hlast : ∀ j, lastEvent j w.events = (lastEvent j rest).or (ev.about j) :=
    fun j => by rw [hevents]; rfl
  have hother : ∀ j, j ≠ k → lastEvent j w.events = lastEvent j rest := by
    intro j hj
    rw [hlast, habout, if_neg (Ne.symm hj), Option.or_none]
  have hvalue : lastEvent k rest = none → value = w.mirror.lookup k := by
    intro hnone
    refine h.latest k value ?_
    rw [hlast, hnone, habout, if_pos rfl]
    rfl
  -- from now on nothing is known of the key until it is applied
  have hsettled : ∀ n, Settled { w with events := rest, present } (· = k) n →
      w.Settled (fun _ => False) n :=
    fun n hn => ⟨hn.located, id, (hother _ hn.kept).trans hn.event, hn.failed⟩
  have h' : Inv a Wrote Lost (· = k) { w with events := rest, present } := by
    refine ⟨h.mirror, fun j n e hj hmem => h.pending j n e hj (hevents ▸ mem_cons_of_mem _ hmem),
      fun j v hv => h.latest j v ?_, fun j hj => ?_, ?_, h.copies, h.served,
      fun hpruned n hn => h.gone hpruned n (hsettled n hn), fun n e hn => h.done n e (hsettled n hn)⟩
    · rw [hlast, show lastEvent j rest = some v from hv]
      rfl
    · rw [hpresent]
      split_ifs with hjk
      · subst hjk
        rw [hvalue hj]
      · exact h.present j ((hother j hjk).trans hj)
    · have hsynced := h.synced
      rw [hevents] at hsynced
      exact hsynced.imp_right fun hs => (mem_cons.mp hs).resolve_left (Ne.symm hev)
  refine h'.applyKey hdistinct hvalue (fun n e hlocate hval => h.pending k n e hlocate ?_) api
  rw [hevents, hput e hval]
  exact mem_cons_self

theorem Inv.receive (hevents : w.events = ev :: rest) (api : Api) :
    (receive a api { w with events := rest } ev).Inv a Wrote Lost (fun _ => False) := by
  cases ev with
  | synced =>
    have hsame : ∀ j, lastEvent j w.events = lastEvent j rest := by
      intro j
      rw [hevents]
      exact Option.or_none
    have hsettled : ∀ n, Settled { w with events := rest, synced := true } (fun _ => False) n →
        w.Settled (fun _ => False) n := fun n hn => { hn with event := (hsame _).trans hn.event }
    exact ⟨h.mirror, fun j n e hj hmem => h.pending j n e hj (hevents ▸ mem_cons_of_mem _ hmem),
      fun j v hv => h.latest j v ((hsame j).trans hv), fun j hj => h.present j ((hsame j).trans hj),
      .inl rfl, h.copies, h.served, fun hpruned n hn => h.gone hpruned n (hsettled n hn),
      fun n e hn => h.done n e (hsettled n hn)⟩
  | put k e =>
    refine h.deliver hdistinct hevents nofun (fun _ => rfl) (fun j => ?_) (fun e' he => ?_) api
    · by_cases hj : j = k <;> simp [hj]
    · rw [Option.some.inj he]
  | delete k =>
    refine h.deliver hdistinct hevents nofun (fun _ => rfl) (fun j => ?_) (fun _ h => (nomatch h)) api
    by_cases hj : j = k <;> simp [hj]

end

/-- `Run` starts: every key has an event under way, or is not in the mirror. -/
theorem Inv.start {mirror : GoMap GoString (Option (Entry J))} {events : List (FeedEvent J)}
    (hserved : s.served = none) (hreplay : Replay mirror events)
    (hwrote : ∀ k n e, locate k = some n → mirror.lookup k = some (some e) → Wrote n e)
    (hcopies : ∀ n o, s.objects.lookup n = some o → o.origin = a.region → CopyInv a Wrote Lost s n o) :
    Inv a Wrote Lost skip ⟨s, mirror, events, [], [], false, false⟩ := by
  refine ⟨hwrote, fun k n e hk hmem => hwrote k n e hk (hreplay.entries k (some e) hmem),
    hreplay.latest, fun k hk => ?_, .inr hreplay.synced, hcopies, fun read hr => ?_,
    nofun, fun n e hn hsome => ?_⟩
  · rw [show mirror.lookup k = none from hreplay.all k hk]
    simp
  · rw [show s.served = some read from hr] at hserved
    cases hserved
  · rw [show mirror.lookup (key n) = none from hreplay.all _ hn.event] at hsome
    cases hsome

/-- **Every step keeps what is known**, if it gives no entry that `Wrote` does not have and the
projects that lose their access are `Lost`. -/
theorem Inv.step {w' : Replica J} (hdistinct : Distinct Wrote) (h : w.Inv a Wrote Lost (fun _ => False))
    (hstep : Step a w w')
    (hwrote : ∀ k n e, locate k = some n → w'.mirror.lookup k = some (some e) → Wrote n e)
    (hlost : ∀ project ∈ a.projects w.site, project ∈ a.projects w'.site ∨ Lost project) :
    w'.Inv a Wrote Lost (fun _ => False) := by
  cases hstep with
  | put k value =>
    refine h.change k (fun j hj => if_neg (Ne.symm hj)) ?_ (fun j hj => lookup_insert_ne hj)
      hwrote fun j e hev => ?_
    · rw [lookup_insert]
      exact if_pos rfl
    · injection hev with hk he
      rw [← hk, ← he, lookup_insert]
  | delete k =>
    refine h.change k (fun j hj => if_neg (Ne.symm hj)) ?_ (fun j hj => lookup_erase_ne hj)
      hwrote fun j e hev => (nomatch hev)
    rw [lookup_erase]
    exact if_pos rfl
  | access access => exact h.access access hlost
  | receive api ev rest hevents => exact h.receive hdistinct hevents api
  | tick calls horder => exact h.tick hdistinct calls
  | restart events hreplay =>
    refine Inv.start rfl hreplay h.mirror fun n o ho hown => ?_
    have hcopy := h.copies n o ho hown
    obtain ⟨ns, hns, hlive, hp, -⟩ := hcopy.served
    exact ⟨hcopy.located, hcopy.wrote, ns, hns, hlive, hp, nofun⟩

theorem Start.inv (h : w.Start a)
    (hwrote : ∀ k n e, locate k = some n → w.mirror.lookup k = some (some e) → Wrote n e) :
    w.Inv a Wrote Lost skip := by
  obtain ⟨site, mirror, events, present, failed, synced, pruned⟩ := w
  obtain ⟨hempty, hserved, rfl, rfl, rfl, rfl, hreplay⟩ := h
  exact Inv.start hserved hreplay hwrote fun n o ho hown => absurd hown (hempty n o ho)

end Replica

end Invariant

end InternalDNS.Feed
