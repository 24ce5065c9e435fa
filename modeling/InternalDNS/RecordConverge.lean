import InternalDNS.GoProcess
import InternalDNS.RdataValidate
import InternalDNS.RecordApply

/-! # Applying a zone file: the plan and its writes

`record apply` reads the record sets of a zone, plans what each type becomes,
and writes the types one after the other.  Other writers may change the sets
before any of its calls.  Every write names the version it is based on, and a
write that is refused for it is tried once more on the set that is there then.

What a set becomes is decided with the set that was planned for, not with the
one that is read again.  A write on a set that was read at the planning is safe;
the second try can reach a set that a controller has come to own in between.
-/
namespace InternalDNS.Record

open List Except Nat
open Go (Bytes CaseMap GoMap GoString Prog)
open Go.Bytes (lit byte text)
open Rdata

/-! ## The diff -/

inductive Mark where
  | add | change | remove
deriving DecidableEq

/-- One line of the diff. -/
structure Change where
  mark : Mark
  name : Bytes
  rrType : RRType
  entry : Entry
  oldTTL : Option Int := none
  newTTL : Option Int := none
deriving DecidableEq

/-- The TTL the backend applies when an entry carries none. -/
def defaultTTL : Int := 300

/-- `TTLEqual`: the same effective value. -/
def ttlEqual (a b : Option Int) : Bool := a.getD defaultTTL = b.getD defaultTTL

def displayName (name : Bytes) : Bytes := if isApex name then [byte '@'] else name

variable (U : CaseMap)

/-- The line of an entry that is wanted, if it differs from what is there. -/
def diffWanted (t : RRType) (before : List Entry) (zone : Bytes) (a : Entry) : Option Change :=
  match (indexOfEntry U before t a zone).bind (before[·]?) with
  | none => some { mark := .add, name := displayName a.name, rrType := t, entry := a }
  | some b =>
    if ttlEqual b.ttl a.ttl then none
    else some { mark := .change, name := displayName a.name, rrType := t, entry := a
                oldTTL := b.ttl, newTTL := a.ttl }

/-- The line of an entry that is there, if it is not wanted. -/
def diffPresent (t : RRType) (after : List Entry) (zone : Bytes) (b : Entry) : Option Change :=
  if indexOfEntry U after t b zone = none then
    some { mark := .remove, name := displayName b.name, rrType := t, entry := b }
  else none

/-- `diffEntries`. -/
def diffEntries (t : RRType) (before after : List Entry) (zone : Bytes) : List Change :=
  after.filterMap (diffWanted U t before zone) ++ before.filterMap (diffPresent U t after zone)

/-! ## The plan -/

/-- `canonicalEntries`. -/
def canonicalEntries (t : RRType) (entries : List Entry) : List Entry :=
  entries.map (entryFromAPI t)

/-- `encodeForAPI`. -/
def encodeForAPI (t : RRType) (entries : List Entry) : List Entry := entries.map (entryForAPI t)

/-- The zone: its object name and its domain. -/
structure Zone where
  name : Bytes
  domainName : Bytes

/-- The records of a zone file, each with its type. -/
abbrev Desired := List (RRType × Entry)

/-- The plan of a type.  Of several sets the first by object name counts. -/
def typePlan (desired : Desired) (sets : List RecordSet) (t : RRType) : TypePlan where
  rrType := t
  set := sets.find? (·.recordType = t)
  file := (desired.filter (·.1 = t)).map (·.2)

/-- `currentEntries`. -/
def currentEntries (tp : TypePlan) : List Entry :=
  tp.set.elim [] fun rs => canonicalEntries tp.rrType rs.records

/-- The changes that the plan of a type makes. -/
def TypePlan.changes (zone : Zone) (prune : Bool) (tp : TypePlan) : List Change :=
  diffEntries U tp.rrType (currentEntries tp)
    (resolve U zone.domainName prune tp (currentEntries tp) true) zone.domainName

/-- `newPlan`: the types that change. -/
def newPlan (zone : Zone) (desired : Desired) (sets : List RecordSet) (prune : Bool) :
    List TypePlan :=
  let present (t : RRType) : Bool := sets.any (·.recordType = t) || desired.any (·.1 = t)
  ((supportedTypes.filter present).map (typePlan desired sets)).filter fun tp =>
    tp.changes U zone prune ≠ []

/-- The edit of a type, from the entries that are there. -/
def edit (today : Bytes) (zone : Zone) (prune : Bool) (tp : TypePlan) (current : List Entry) :
    Except Error (List Entry) := do
  let resolved := resolve U zone.domainName prune tp (canonicalEntries tp.rrType current) true
  if resolved ≠ [] then validateEntriesInZone U today tp.rrType resolved zone.domainName
  return resolved

/-! ## The API -/

/-- The record sets of the zone.  Every write takes a new version off the clock. -/
structure Store where
  sets : List RecordSet
  clock : Nat

/-- A write of the command on a set that exists: what was planned, the set that the write is based
on, the set that was stored when it took effect, and its entries afterwards. -/
structure Write where
  plan : TypePlan
  read : RecordSet
  stored : RecordSet
  after : List Entry

structure Cluster where
  store : Store
  calls : Nat
  writes : List Write

/-- Everything outside the command: what other writers did before its n-th call, and whether that
call fails for a reason of its own. -/
structure Env where
  move : Nat → Store → Store
  fails : Nat → Bool

inductive Failure where
  | conflict | alreadyExists | notFound | other | empty
  | invalid (e : Error)

/-- `isRetryable`. -/
def Failure.retryable : Failure → Bool
  | conflict | alreadyExists => true
  | _ => false

variable (env : Env) {s : Store} {rs : RecordSet}

/-- The store as the next call finds it. -/
def call : Prog Cluster Failure Store := fun c =>
  let c' := { c with store := env.move c.calls c.store, calls := c.calls + 1 }
  if env.fails c.calls then (.error .other, c') else (.ok c'.store, c')

/-- `listSets`, ordered by object name. -/
def listSets (wanted : RecordSet → Bool) : Prog Cluster Failure (List RecordSet) := do
  let s ← call env
  return (s.sets.filter wanted).insertionSort fun a b => text a.name ≤ text b.name

/-- `findSet` without an owner name, as `record apply` calls it: the first by object name. -/
def findSet (t : RRType) : Prog Cluster Failure (Option RecordSet) := do
  let sets ← listSets env (·.recordType = t)
  return sets.head?

/-- The store after the entries of a set were written; without entries the set goes. -/
def Store.put (s : Store) (rs : RecordSet) (after : List Entry) : Store where
  sets :=
    if after = [] then s.sets.filter (·.name ≠ rs.name)
    else s.sets.map fun o =>
      if o.name = rs.name then { o with records := after, resourceVersion := s.clock + 1 } else o
  clock := s.clock + 1

/-- The store after a new set was added. -/
def Store.add (s : Store) (rs : RecordSet) : Store where
  sets := s.sets ++ [{ rs with resourceVersion := s.clock + 1 }]
  clock := s.clock + 1

/-- The patch or the deletion of a set, on the version that was read. -/
def update (dryRun : Bool) (tp : TypePlan) (rs : RecordSet) (after : List Entry) :
    Prog Cluster Failure Unit := do
  let s ← call env
  match s.sets.find? (·.name = rs.name) with
  | none => Prog.fail .notFound
  | some stored =>
    if stored.resourceVersion ≠ rs.resourceVersion then Prog.fail .conflict
    else Prog.when (dryRun = false) (Prog.modify fun c =>
      { c with store := c.store.put rs after, writes := c.writes ++ [⟨tp, rs, stored, after⟩] })

/-- `setObjectName`. -/
def setObjectName (zone : Zone) (t : RRType) : Bytes :=
  zone.name ++ lit "-" ++ jsonFieldFor t

/-- The creation of a set. -/
def create (dryRun : Bool) (zone : Zone) (t : RRType) (after : List Entry) :
    Prog Cluster Failure Unit := do
  let s ← call env
  if s.sets.any (·.name = setObjectName zone t) then Prog.fail .alreadyExists
  else Prog.when (dryRun = false) (Prog.modify fun c =>
    { c with store := c.store.add ⟨setObjectName zone t, 0, ∅, t, after⟩ })

/-! ## The write -/

section

variable (today : Bytes) (dryRun : Bool)

/-- One attempt of `applyEdit`, on the set it has read. -/
def tryWrite (zone : Zone) (prune : Bool) (tp : TypePlan) :
    Option RecordSet → Prog Cluster Failure Unit
  | none => do
    let after ← Prog.lift ((edit U today zone prune tp []).mapError .invalid)
    if encodeForAPI tp.rrType after = [] then Prog.fail .empty
    else create env dryRun zone tp.rrType (encodeForAPI tp.rrType after)
  | some rs => do
    let after ← Prog.lift ((edit U today zone prune tp rs.records).mapError .invalid)
    update env dryRun tp rs (encodeForAPI tp.rrType after)

/-- `applyEdit`: a second attempt on what is there then, if the first lost a race. -/
def applyEdit (zone : Zone) (prune : Bool) (tp : TypePlan) :
    Prog Cluster Failure Unit := do
  match ← Prog.attempt (tryWrite U env today dryRun zone prune tp tp.set) with
  | .ok () => pure ()
  | .error e =>
    if e.retryable then do
      let set ← findSet env tp.rrType
      tryWrite U env today dryRun zone prune tp set
    else Prog.fail e

/-- `plan.converge`: a type that fails does not stop the others. -/
def converge (zone : Zone) (prune : Bool) :
    List TypePlan → Prog Cluster Failure Unit :=
  Prog.each fun tp => do
    let _ ← Prog.attempt (applyEdit U env today dryRun zone prune tp)
    pure ()

/-- `runApply`, from the records of the file on, with the user's consent. -/
def runApply (zone : Zone) (desired : Desired) (prune : Bool) :
    Prog Cluster Failure Unit := do
  let sets ← listSets env fun _ => true
  converge U env today dryRun zone prune (newPlan U zone desired sets prune)

end

/-! ## What a version stands for -/

/-- What the API keeps of a store: names are unique, and every version was taken off the clock. -/
structure Store.Sound (s : Store) : Prop where
  unique : ∀ a ∈ s.sets, ∀ b ∈ s.sets, a.name = b.name → a = b
  version : ∀ a ∈ s.sets, a.resourceVersion ≤ s.clock

/-- What other writers may do: a set they left is as it was, any other has a new version. -/
structure Store.Evolves (s s' : Store) : Prop where
  clock : s.clock ≤ s'.clock
  sets : ∀ a ∈ s'.sets, a ∈ s.sets ∨ s.clock < a.resourceVersion

/-- Other writers go through the API as well. -/
structure Env.Lawful : Prop where
  sound : ∀ (n : Nat) (s : Store), s.Sound → (env.move n s).Sound
  evolves : ∀ (n : Nat) (s : Store), s.Sound → s.Evolves (env.move n s)

/-- A set that was read: as long as its version is stored, it is stored as it was read. -/
def Saw (rs : RecordSet) (s : Store) : Prop :=
  rs.resourceVersion ≤ s.clock ∧
    ∀ o ∈ s.sets, o.name = rs.name → o.resourceVersion = rs.resourceVersion → o = rs

theorem Saw.of_mem (hs : s.Sound) (h : rs ∈ s.sets) : Saw rs s :=
  ⟨hs.version rs h, fun o ho hname _ => hs.unique o ho rs h hname⟩

theorem Saw.evolves {s s' : Store} (h : Saw rs s) (hs : s.Evolves s') : Saw rs s' := by
  refine ⟨le_trans h.1 hs.clock, fun o ho hname hversion => ?_⟩
  rcases hs.sets o ho with hold | hnew
  · exact h.2 o hold hname hversion
  · have := h.1
    omega

/-- An own write is one more writer. -/
theorem Store.evolves_put (s : Store) (rs : RecordSet) (after : List Entry) :
    s.Evolves (s.put rs after) := by
  refine ⟨le_succ _, fun a ha => ?_⟩
  simp only [Store.put] at ha
  split at ha
  · exact .inl (mem_of_mem_filter ha)
  · obtain ⟨o, ho, rfl⟩ := mem_map.mp ha
    split
    · exact .inr (lt_succ_self _)
    · exact .inl ho

theorem Store.Sound.put (h : s.Sound) (rs : RecordSet) (after : List Entry) :
    (s.put rs after).Sound := by
  have hname : ∀ o : RecordSet, (if o.name = rs.name then
        { o with records := after, resourceVersion := s.clock + 1 } else o).name = o.name := by
    intro o
    split <;> rfl
  constructor
  · intro a ha b hb hab
    simp only [Store.put] at ha hb
    split at ha <;> rename_i hafter
    · rw [if_pos hafter] at hb
      exact h.unique a (mem_of_mem_filter ha) b (mem_of_mem_filter hb) hab
    · rw [if_neg hafter] at hb
      obtain ⟨o, ho, rfl⟩ := mem_map.mp ha
      obtain ⟨o', ho', rfl⟩ := mem_map.mp hb
      rw [hname, hname] at hab
      rw [h.unique o ho o' ho' hab]
  · intro a ha
    rcases (s.evolves_put rs after).sets a ha with hold | hnew
    · exact le_succ_of_le (h.version a hold)
    · simp only [Store.put] at ha ⊢
      split at ha
      · exact le_succ_of_le (h.version a (mem_of_mem_filter ha))
      · obtain ⟨o, ho, rfl⟩ := mem_map.mp ha
        split
        · exact le_refl _
        · exact le_succ_of_le (h.version o ho)

theorem Store.evolves_add (s : Store) (rs : RecordSet) : s.Evolves (s.add rs) :=
  ⟨le_succ _, Go.forall_mem_concat (fun a ha => .inl ha) (.inr (lt_succ_self _))⟩

theorem Store.Sound.add (h : s.Sound) (hfresh : ∀ o ∈ s.sets, o.name ≠ rs.name) :
    (s.add rs).Sound := by
  constructor
  · intro a ha b hb hab
    rcases mem_append.mp ha with ha | ha <;> rcases mem_append.mp hb with hb | hb
    · exact h.unique a ha b hb hab
    · rw [mem_singleton.mp hb] at hab
      exact absurd hab (hfresh a ha)
    · rw [mem_singleton.mp ha] at hab
      exact absurd hab.symm (hfresh b hb)
    · rw [mem_singleton.mp ha, mem_singleton.mp hb]
  · exact Go.forall_mem_concat (fun a ha => le_succ_of_le (h.version a ha)) (le_refl _)

/-! ## Every write is based on what is stored -/

section Writes

variable {U env} {today : Bytes} {dryRun prune : Bool} {zone : Zone} {seen : List RecordSet}
  {c : Cluster} {tp : TypePlan}

/-- A write that took effect on the set it is based on, with the entries resolved from it. -/
def Write.Faithful (U : CaseMap) (zone : Zone) (prune : Bool) (w : Write) : Prop :=
  w.stored = w.read ∧
    w.after = encodeForAPI w.plan.rrType (resolve U zone.domainName prune w.plan
      (canonicalEntries w.plan.rrType w.read.records) true)

/-- The store is sound, every set in `seen` was read, and every write so far was faithful. -/
structure Inv (U : CaseMap) (zone : Zone) (prune : Bool) (seen : List RecordSet) (c : Cluster) :
    Prop where
  sound : c.store.Sound
  saw : ∀ rs ∈ seen, Saw rs c.store
  logged : ∀ w ∈ c.writes, w.Faithful U zone prune

theorem Inv.mono {more : List RecordSet} (h : Inv U zone prune (more ++ seen) c) :
    Inv U zone prune seen c :=
  ⟨h.sound, fun rs hrs => h.saw rs (mem_append_right more hrs), h.logged⟩

/-- The store moves on, by another writer or by an own write. -/
theorem Inv.move {c c' : Cluster} (h : Inv U zone prune seen c) (hsound : c'.store.Sound)
    (hevolves : c.store.Evolves c'.store) (hlogged : ∀ w ∈ c'.writes, w.Faithful U zone prune) :
    Inv U zone prune seen c' :=
  ⟨hsound, fun rs hrs => (h.saw rs hrs).evolves hevolves, hlogged⟩

/-- What the edit returns is resolved from the entries it is given. -/
theorem edit_eq_ok {current after : List Entry} (h : edit U today zone prune tp current = .ok after) :
    after = resolve U zone.domainName prune tp (canonicalEntries tp.rrType current) true := by
  simp only [edit] at h
  split at h
  · obtain ⟨_, _, hpure⟩ := Go.Except.bind_eq_ok.mp h
    exact (ok.inj hpure).symm
  · exact (ok.inj h).symm

/-- A plan is made for sets that were read. -/
theorem set_of_newPlan {desired : Desired} {sets : List RecordSet}
    (htp : tp ∈ newPlan U zone desired sets prune) : ∀ rs ∈ tp.set, rs ∈ sets := by
  intro rs hrs
  obtain ⟨t, _, rfl⟩ := mem_map.mp (mem_of_mem_filter htp)
  exact mem_of_find?_eq_some hrs

variable (henv : env.Lawful)

include henv

theorem call_triple : Prog.Triple (Inv U zone prune seen) (call env)
      (fun s c => Inv U zone prune seen c ∧ c.store = s) (Inv U zone prune seen) := by
  intro c hc
  have hmoved : Inv U zone prune seen
      { c with store := env.move c.calls c.store, calls := c.calls + 1 } :=
    hc.move (henv.sound _ _ hc.sound) (henv.evolves _ _ hc.sound) hc.logged
  simp only [call]
  cases env.fails c.calls with
  | true => exact hmoved
  | false => exact ⟨hmoved, rfl⟩

/-- What was listed has been read. -/
theorem listSets_triple (wanted : RecordSet → Bool) :
    Prog.Triple (Inv U zone prune seen) (listSets env wanted)
      (fun sets => Inv U zone prune (sets ++ seen)) (Inv U zone prune seen) := by
  refine Prog.triple_bind (call_triple henv) fun s => Prog.triple_pure _ ?_
  rintro c ⟨hc, rfl⟩
  refine ⟨hc.sound, fun rs hrs => ?_, hc.logged⟩
  rcases mem_append.mp hrs with h | h
  · exact Saw.of_mem hc.sound (mem_of_mem_filter ((mem_insertionSort _).mp h))
  · exact hc.saw rs h

theorem findSet_triple (t : RRType) :
    Prog.Triple (Inv U zone prune seen) (findSet env t)
      (fun set => Inv U zone prune (set.toList ++ seen)) (Inv U zone prune seen) := by
  refine Prog.triple_bind (listSets_triple henv _) fun sets => Prog.triple_pure _ ?_
  intro c hc
  refine ⟨hc.sound, fun rs hrs => hc.saw rs ?_, hc.logged⟩
  rcases mem_append.mp hrs with h | h
  · exact mem_append_left _ (mem_of_mem_head? (Option.mem_toList.mp h))
  · exact mem_append_right _ h

/-- **The version is what makes a write safe.**  It takes effect only on the set that was read. -/
theorem update_triple {rs : RecordSet} (hrs : rs ∈ seen) {after : List Entry}
    (hafter : after = encodeForAPI tp.rrType (resolve U zone.domainName prune tp
      (canonicalEntries tp.rrType rs.records) true)) :
    Prog.Invariant (Inv U zone prune seen) (update env dryRun tp rs after) := by
  refine Prog.triple_bind (call_triple henv) fun s => ?_
  cases hfind : s.sets.find? (·.name = rs.name) with
  | none => exact Prog.triple_fail _ fun c hc => hc.1
  | some stored =>
    refine Prog.triple_ite (fun _ => Prog.triple_fail _ fun c hc => hc.1) fun hversion => ?_
    refine Prog.triple_when (Prog.triple_modify ?_) fun c hc => hc.1
    rintro c ⟨hc, rfl⟩
    have hname : stored.name = rs.name := by simpa using List.find?_some hfind
    have hstored : stored = rs :=
      (hc.saw rs hrs).2 stored (mem_of_find?_eq_some hfind) hname (not_not.mp hversion)
    exact hc.move (hc.sound.put rs after) (c.store.evolves_put rs after)
      (Go.forall_mem_concat hc.logged ⟨hstored, hafter⟩)

theorem create_triple (t : RRType) (after : List Entry) :
    Prog.Invariant (Inv U zone prune seen) (create env dryRun zone t after) := by
  refine Prog.triple_bind (call_triple henv) fun s => ?_
  refine Prog.triple_ite (fun _ => Prog.triple_fail _ fun c hc => hc.1) fun hfresh => ?_
  refine Prog.triple_when (Prog.triple_modify ?_) fun c hc => hc.1
  rintro c ⟨hc, rfl⟩
  refine hc.move (hc.sound.add fun o ho hname => hfresh ?_) (c.store.evolves_add _) hc.logged
  exact any_eq_true.mpr ⟨o, ho, decide_eq_true hname⟩

theorem tryWrite_triple (set : Option RecordSet) (hset : ∀ rs ∈ set, rs ∈ seen) :
    Prog.Invariant (Inv U zone prune seen) (tryWrite U env today dryRun zone prune tp set) := by
  cases set with
  | none =>
    refine Prog.triple_bind (Prog.triple_lift _ fun _ hc => hc) fun after => ?_
    refine Prog.triple_ite (fun _ => Prog.triple_fail _ fun _ hc => hc.2) fun _ => ?_
    exact (create_triple henv _ _).weaken fun _ hc => hc.2
  | some rs =>
    refine Prog.triple_bind (Prog.triple_lift _ fun _ hc => hc) fun after c hc => ?_
    have hedit : edit U today zone prune tp rs.records = .ok after := by
      have h := hc.1
      cases hx : edit U today zone prune tp rs.records with
      | error e =>
        rw [hx] at h
        cases h
      | ok b =>
        rw [hx] at h
        exact congrArg ok (ok.inj h)
    exact update_triple henv (hset rs rfl) (congrArg _ (edit_eq_ok hedit)) c hc.2

theorem applyEdit_triple (hset : ∀ rs ∈ tp.set, rs ∈ seen) :
    Prog.Invariant (Inv U zone prune seen) (applyEdit U env today dryRun zone prune tp) := by
  refine (tryWrite_triple henv tp.set hset).attempt_bind
    (fun _ => Prog.triple_pure _ fun _ hc => hc) fun e => ?_
  refine Prog.triple_ite (fun _ => ?_) fun _ => Prog.triple_fail _ fun _ hc => hc
  refine Prog.triple_bind (findSet_triple henv _) fun set => ?_
  exact (tryWrite_triple henv set fun rs hrs =>
    mem_append_left _ (Option.mem_toList.mpr hrs)).relax (fun _ _ hc => hc.mono) fun _ hc => hc.mono

theorem converge_triple {plans : List TypePlan}
    (hplans : ∀ tp ∈ plans, ∀ rs ∈ tp.set, rs ∈ seen) :
    Prog.Invariant (Inv U zone prune seen) (converge U env today dryRun zone prune plans) := by
  refine Prog.triple_each plans fun tp htp => ?_
  refine Prog.triple_bind (applyEdit_triple henv (hplans tp htp)).attempt_ignore fun _ => ?_
  exact Prog.triple_pure _ fun _ hc => hc

/-- **Every write of a run is faithful**, whatever other writers do in between. -/
theorem runApply_faithful (desired : Desired) (hc : c.store.Sound)
    (hnone : c.writes = []) :
    ∀ w ∈ (runApply U env today dryRun zone desired prune c).2.writes,
      w.Faithful U zone prune := by
  have hstart : Inv U zone prune [] c := ⟨hc, by simp, by simp [hnone]⟩
  have hrun : Prog.Invariant (Inv U zone prune []) (runApply U env today dryRun zone desired prune) := by
    refine Prog.triple_bind (listSets_triple henv _) fun sets => ?_
    refine (converge_triple henv fun tp htp rs hrs => ?_).relax
      (fun _ _ hc => hc.mono) fun _ hc => hc.mono
    exact mem_append_left _ (set_of_newPlan htp rs hrs)
  exact (hrun.final hstart).logged

end Writes

/-! ## Sets of a controller -/

/-- What keeps a write off the sets of controllers: it is based on such a set only if the plan was
made for one as well, and then its entries are in the form in which the command stores them. -/
def Write.Guarded (w : Write) : Prop :=
  isMachineOwned w.read = true →
    (∃ rs, w.plan.set = some rs ∧ isMachineOwned rs = true) ∧
      ∀ e ∈ w.read.records, entryForAPI w.plan.rrType (entryFromAPI w.plan.rrType e) = e

def exampleZone : Zone := ⟨lit "example-com", lit "example.com"⟩

def wwwRecord : Entry := { name := lit "www", ttl := some 300, a := some (lit "203.0.113.10") }

def apiRecord : Entry := { name := lit "api", ttl := some 300, a := some (lit "203.0.113.20") }

/-- The address records of the zone, in a set of the user. -/
def userSet : RecordSet := ⟨lit "example-com-a", 1, ∅, .A, [apiRecord]⟩

/-- The same object, created by the Gateway controller. -/
def gatewaySet : RecordSet :=
  { userSet with labels := (∅ : GoMap GoString GoString).insert labelDNSManaged (Go.lit "true") }

/-- Nobody else writes. -/
def quiet : Env := ⟨fun _ s => s, fun _ => false⟩

theorem quiet_lawful : quiet.Lawful where
  sound _ _ h := h
  evolves _ _ _ := ⟨le_refl _, fun _ ha => .inl ha⟩

/-- The Gateway controller creates its set after the planning. -/
def gatewayArrives : Env where
  move n s :=
    if n = 1 ∧ ∀ o ∈ s.sets, o.name ≠ gatewaySet.name then s.add gatewaySet else s
  fails _ := false

theorem gatewayArrives_lawful : gatewayArrives.Lawful where
  sound n s h := by
    simp only [gatewayArrives]
    split
    · rename_i hfresh
      exact h.add hfresh.2
    · exact h
  evolves n s h := by
    simp only [gatewayArrives]
    split
    · exact s.evolves_add gatewaySet
    · exact ⟨le_refl _, fun _ ha => .inl ha⟩

end InternalDNS.Record
