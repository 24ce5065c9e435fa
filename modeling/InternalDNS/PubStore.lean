import InternalDNS.GoControl
import InternalDNS.GoStore
import InternalDNS.GoWatch

/-! # The index of the publication store

The publication store keeps its records in key-value buckets and serves lists from an index.  The
index is fed from three sides: by the watch of each bucket, by the calls of the store, which put what
they have read or written into it, and by its own deletes.  Revisions decide which value of a key is
the later one, but a key that is not in the index has none, so the index cannot tell a value that is
late from one that is new.

The first part is the code: `apply`, `dropUnseen`, the watch loop `follow`, and the last step of
`Delete`.  The second part is the system: buckets, watches that end and start again, calls under way
and writes of other processes.  Each record has one bucket, as the store requires.
-/
namespace InternalDNS.PubStore

open Go List AList Function Option

/-! ## Kinds and keys -/

inductive StoredKind where
  | ownership
  | manifest
  | chunk
  | outbox
  | shard
  | member
  deriving DecidableEq

/-- The start of the keys of a kind. -/
def StoredKind.stem : StoredKind → GoString
  | .ownership => lit "own."
  | .manifest => lit "man."
  | .chunk => lit "chk."
  | .outbox => lit "out."
  | .shard => lit "shd."
  | .member => lit "mbr."

/-- Whether the index follows the kind: chunks and member leases are read only by name. -/
def StoredKind.indexed : StoredKind → Bool
  | .chunk => false
  | .member => false
  | _ => true

def storedKinds : List StoredKind := [.ownership, .manifest, .chunk, .outbox, .shard, .member]

def kindForKey (key : GoString) : Option StoredKind :=
  storedKinds.find? fun kind => hasPrefix key kind.stem

/-- The watches deliver the keys of indexed kinds (`WatchFilter`), and the index holds only those. -/
def indexedKey (key : GoString) : Bool := (kindForKey key).any (·.indexed)

/-! ## The index -/

section Code

variable {V R : Type} (record : GoString → V → Option R)

structure Indexed (R : Type) where
  bucket : GoString
  revision : Nat
  obj : R

abbrev Index (R : Type) := GoMap GoString (Indexed R)

/-- The entry of the key comes from this bucket and is at least as new. -/
def Index.reaches (index : Index R) (bucket key : GoString) (revision : Nat) : Bool :=
  (index.lookup key).any fun current => current.bucket = bucket ∧ revision ≤ current.revision

/-- `PublicationStore.apply`; `record` decodes a value, without the payload of a settled outbox. -/
def apply (bucket key : GoString) (revision : Nat) (value : Option V) (index : Index R) : Index R :=
  if indexedKey key then
    match value with
    | some v =>
      match record key v with
      | none => index
      | some obj =>
        if index.reaches bucket key revision then index
        else index.insert key ⟨bucket, revision, obj⟩
    | none =>
      if index.reaches bucket key revision then index
      else if (index.lookup key).any fun current => current.bucket ≠ bucket then index
      else index.erase key
  else index

/-- `dropUnseen`. -/
def dropUnseen (bucket : GoString) (seen : List GoString) (highest : Nat) (index : Index R) : Index R :=
  index.filter fun key entry => !(entry.bucket = bucket && key ∉ seen && entry.revision ≤ highest)

/-- The last step of `Delete`, of a record that it has found at `revision`. -/
def forget (bucket key : GoString) (revision : Nat) (index : Index R) : Index R :=
  if (index.lookup key).any fun current => current.bucket = bucket ∧ current.revision ≤ revision then
    index.erase key
  else index

inductive KVEvent (V : Type) where
  | synced (revision : Nat)
  | put (key : GoString) (revision : Nat) (value : V)
  | delete (key : GoString) (revision : Nat)
  deriving DecidableEq

/-- The event that tells of a change of a key. -/
def KVEvent.told (key : GoString) (revision : Nat) : Option V → KVEvent V
  | some v => .put key revision v
  | none => .delete key revision

/-- The key that an event is about. -/
def KVEvent.key : KVEvent V → Option GoString
  | .synced _ => none
  | .put key _ _ => some key
  | .delete key _ => some key

/-- The local variables of `follow` while a watch is replaying. -/
structure Replaying where
  seen : List GoString
  highest : Nat

def Replaying.see (r : Replaying) (key : GoString) (revision : Nat) : Replaying :=
  ⟨key :: r.seen, max r.highest revision⟩

/-- `follow` receives an event; the state is `none` once the watch has replayed. -/
def follow (bucket : GoString) (state : Option Replaying) (index : Index R) :
    KVEvent V → Option Replaying × Index R
  | .synced revision =>
    match state with
    | none => (none, index)
    | some r => (none, dropUnseen bucket r.seen (max r.highest revision) index)
  | .put key revision value =>
    (state.map (·.see key revision), apply record bucket key revision (some value) index)
  | .delete key revision =>
    (state.map (·.see key revision), apply record bucket key revision none index)

end Code

/-! ## The system -/

/-- What a call of the store is about to do to the index: `Get`, `Create`, `Update` and `Patch` put
the value that they have read or written, `Delete` takes the record away that it has found. -/
inductive Call (V : Type) where
  | found (key : GoString) (revision : Nat) (value : V)
  | removed (key : GoString) (revision : Nat)

/-- The buckets, what their watches have still to deliver, and the store. -/
structure World (V R : Type) where
  stored : GoString → Option (Nat × V)
  /-- The revision of the last change of a key. -/
  changed : GoString → Nat
  /-- The last revision of a bucket. -/
  last : GoString → Nat
  queue : GoString → List (KVEvent V)
  state : GoString → Option Replaying
  index : Index R
  calls : List (Call V)

section System

variable {V R : Type} (record : GoString → V → Option R) (place : GoString → GoString)

section

variable (w : World V R)

/-- The event that tells of the present state of a key. -/
def World.current (key : GoString) : KVEvent V :=
  match w.stored key with
  | some (revision, value) => .put key revision value
  | none => .delete key (w.changed key)

/-- A change of a key in its bucket, of which the watch will tell. -/
def World.change (key : GoString) (value : Option V) : World V R :=
  let revision := w.last (place key) + 1
  { w with
    stored := Function.update w.stored key (value.map fun v => (revision, v))
    changed := Function.update w.changed key revision
    last := Function.update w.last (place key) revision
    queue := if indexedKey key then
        Function.update w.queue (place key) (w.queue (place key) ++ [.told key revision value])
      else w.queue }

/-- A call ends. -/
def World.finish : Call V → World V R
  | .found key revision value =>
    { w with index := apply record (place key) key revision (some value) w.index }
  | .removed key revision => { w with index := forget (place key) key revision w.index }

/-- The watch of a bucket delivers an event. -/
def World.deliver (bucket : GoString) (event : KVEvent V) (rest : List (KVEvent V)) :
    World V R :=
  { w with
    queue := Function.update w.queue bucket rest
    state := Function.update w.state bucket (follow record bucket (w.state bucket) w.index event).1
    index := (follow record bucket (w.state bucket) w.index event).2 }

/-- What a new watch of a bucket delivers first: the present state of its keys, in any order, without
some of the keys that were deleted before it started (their marks may have been purged). -/
structure Replay (bucket : GoString) (started : Nat) (events : List (KVEvent V)) : Prop where
  current : ∀ ev ∈ events, ∀ key, ev.key = some key →
    place key = bucket ∧ indexedKey key = true ∧ ev = w.current key
  complete : ∀ key, place key = bucket → indexedKey key = true → w.current key ∈ events ∨
    w.stored key = none ∧ w.changed key ≤ started
  synced : ∀ revision, KVEvent.synced revision ∈ events ↔ revision = started

/-- A step of the store or of another process.  The calls of the store end where `ends` allows it. -/
inductive Step (ends : World V R → Call V → Prop) (w : World V R) : World V R → Prop
  -- another process writes or deletes a record
  | change (key : GoString) (value : Option V) (hrecord : ∀ v, value = some v → (record key v).isSome) :
      Step ends w (w.change place key value)
  -- `Create`, `Update` and `Patch`, up to the bucket's answer
  | write (key : GoString) (value : V) (hrecord : (record key value).isSome) :
      Step ends w { w.change place key (some value) with
        calls := .found key (w.last (place key) + 1) value :: w.calls }
  | delete (key : GoString) (revision : Nat) (value : V) (hstored : w.stored key = some (revision, value)) :
      Step ends w { w.change place key none with calls := .removed key revision :: w.calls }
  | get (key : GoString) (revision : Nat) (value : V) (hstored : w.stored key = some (revision, value)) :
      Step ends w { w with calls := .found key revision value :: w.calls }
  | finish (call : Call V) (before after : List (Call V)) (hcalls : w.calls = before ++ call :: after)
      (hends : ends w call) :
      Step ends w { w.finish record place call with calls := before ++ after }
  | deliver (bucket : GoString) (event : KVEvent V) (rest : List (KVEvent V))
      (hqueue : w.queue bucket = event :: rest) :
      Step ends w (w.deliver record bucket event rest)
  | rewatch (bucket : GoString) (started : Nat) (events : List (KVEvent V))
      (hreplay : Replay place w bucket started events) :
      Step ends w { w with
        queue := Function.update w.queue bucket events
        state := Function.update w.state bucket (some ⟨[], 0⟩) }

/-- The store starts: its index is empty, and the watches are about to replay. -/
structure Start : Prop where
  index : w.index = ∅
  calls : w.calls = []
  stored : ∀ key revision value, w.stored key = some (revision, value) →
    revision = w.changed key ∧ (record key value).isSome
  last : ∀ key, w.changed key ≤ w.last (place key)
  state : ∀ bucket, w.state bucket = some ⟨[], 0⟩
  queue : ∀ bucket, ∃ started, Replay place w bucket started (w.queue bucket)

end

/-! ## What the index should hold -/

section

variable (w : World V R)

/-- An event about the key is still to come, or the watch has still to find that it is gone. -/
def World.Pending (key : GoString) : Prop :=
  (∃ ev ∈ w.queue (place key), ev.key = some key) ∨
    ∃ r, w.state (place key) = some r ∧ key ∉ r.seen

/-- The entry of the stored record. -/
def World.expected (key : GoString) : Option (Indexed R) :=
  if indexedKey key then
    (w.stored key).bind fun (revision, value) =>
      (record key value).map fun obj => ⟨place key, revision, obj⟩
  else none

/-- **The index is right** for every key of which nothing is still to come. -/
def World.Exact : Prop :=
  ∀ key, ¬ w.Pending place key → w.index.lookup key = w.expected record place key

/-- The value was stored under the key at this revision. -/
structure World.Known (key : GoString) (revision : Nat) (value : V) : Prop where
  record : (record key value).isSome
  changed : revision ≤ w.changed key
  stored : revision = w.changed key → w.stored key = some (revision, value)

/-- The entries of the index were stored, each in the bucket of its key. -/
def World.Faithful (index : Index R) : Prop :=
  ∀ key entry, index.lookup key = some entry → indexedKey key = true ∧ entry.bucket = place key ∧
    ∃ value, record key value = some entry.obj ∧ w.Known record key entry.revision value

/-- What is known of a run. -/
structure World.Inv : Prop where
  exact : w.Exact record place
  stored : ∀ key revision value, w.stored key = some (revision, value) →
    w.Known record key revision value ∧ revision = w.changed key
  last : ∀ key, w.changed key ≤ w.last (place key)
  index : w.Faithful record place w.index
  found : ∀ key revision value, .found key revision value ∈ w.calls →
    w.Known record key revision value
  removed : ∀ key revision, .removed key revision ∈ w.calls → revision < w.changed key
  events : ∀ bucket, ∀ ev ∈ w.queue bucket, ∀ key, ev.key = some key →
    place key = bucket ∧ indexedKey key = true
  put : ∀ bucket key revision value, .put key revision value ∈ w.queue bucket →
    w.Known record key revision value
  latest : ∀ key ev, lastSome (fun ev => if ev.key = some key then some ev else none)
    (w.queue (place key)) = some ev → ev = w.current key
  replay : ∀ bucket r, w.state bucket = some r → (∃ started, .synced started ∈ w.queue bucket) ∧
    ∀ started, .synced started ∈ w.queue bucket → ∀ key, place key = bucket → indexedKey key = true →
      key ∉ r.seen → (∀ ev ∈ w.queue bucket, ev.key ≠ some key) →
      w.stored key = none ∧ w.changed key ≤ started

end

end System

open KVEvent

open World

section Invariant

variable {V R : Type} {record : GoString → V → Option R} {place : GoString → GoString}
  {w : World V R} {key bucket : GoString} {revision : Nat} {value : V} {index : Index R}
  {k : GoString} {w' : World V R} {call : Call V}

/-! ### The code on one key -/

theorem reaches_eq_true : index.reaches bucket key revision = true ↔
    ∃ current, index.lookup key = some current ∧ current.bucket = bucket ∧ revision ≤ current.revision := by
  unfold Index.reaches
  rw [Option.any_eq_true]
  simp

theorem lookup_apply_ne {value : Option V} (h : k ≠ key) :
    (apply record bucket key revision value index).lookup k = index.lookup k := by
  unfold apply
  by_cases hkey : indexedKey key = true
  · rw [if_pos hkey]
    cases value with
    | some v =>
      dsimp only
      cases record key v with
      | none => rfl
      | some obj =>
        split_ifs
        · rfl
        · exact lookup_insert_ne h
    | none =>
      split_ifs
      · rfl
      · rfl
      · exact lookup_erase_ne h
  · rw [if_neg hkey]

/-- A value is put unless a newer one is there. -/
theorem lookup_apply_put {obj : R} (hkey : indexedKey key = true) (hrecord : record key value = some obj) :
    (apply record bucket key revision (some value) index).lookup key =
      if index.reaches bucket key revision then index.lookup key else some ⟨bucket, revision, obj⟩ := by
  unfold apply
  dsimp only
  rw [hrecord]
  split_ifs
  · rfl
  · exact lookup_insert index

/-- A record is taken away unless a newer one is there, or one from another bucket. -/
theorem lookup_apply_delete (hkey : indexedKey key = true)
    (hbucket : ∀ entry, index.lookup key = some entry → entry.bucket = bucket) :
    (apply record bucket key revision none index).lookup key =
      if index.reaches bucket key revision then index.lookup key else none := by
  have hsame : ((index.lookup key).any fun current => decide (current.bucket ≠ bucket)) = false := by
    cases h : index.lookup key with
    | none => rfl
    | some entry => simpa using hbucket entry h
  unfold apply
  simp only [hsame, Bool.false_eq_true, if_false]
  split_ifs
  · rfl
  · exact lookup_erase key index

theorem lookup_forget_ne (h : k ≠ key) :
    (forget bucket key revision index).lookup k = index.lookup k := by
  unfold forget
  split_ifs
  · exact lookup_erase_ne h
  · rfl

theorem lookup_forget : (forget bucket key revision index).lookup key =
    (index.lookup key).filter fun current => !(current.bucket = bucket ∧ current.revision ≤ revision) := by
  unfold forget
  cases h : index.lookup key with
  | none => simp [h]
  | some current =>
    rw [filter_some, any_some]
    by_cases hc : current.bucket = bucket ∧ current.revision ≤ revision
    · rw [if_pos (by simpa using hc), if_neg (by simpa using hc)]
      exact lookup_erase key index
    · rw [if_neg (by simpa using hc), if_pos (by rw [decide_eq_false hc]; rfl), h]

theorem lookup_dropUnseen {seen : List GoString} {highest : Nat} :
    (dropUnseen bucket seen highest index).lookup key = (index.lookup key).filter fun entry =>
      !(entry.bucket = bucket && key ∉ seen && entry.revision ≤ highest) :=
  GoMap.lookup_filter _ index key

/-! ### Entries that were stored -/

theorem apply_of_not_indexed {value : Option V} (hkey : indexedKey key = false) :
    apply record bucket key revision value index = index := by
  unfold apply
  rw [if_neg (by rw [hkey]; decide)]

section

variable (h : w.Faithful record place index)
include h

theorem World.Faithful.of_lookup {index' : Index R}
    (hsub : ∀ k entry, index'.lookup k = some entry → index.lookup k = some entry) :
    w.Faithful record place index' :=
  fun k entry hentry => h k entry (hsub k entry hentry)

variable (hkey : indexedKey key = true)
include hkey

theorem World.Faithful.put (hknown : w.Known record key revision value) :
    w.Faithful record place (apply record (place key) key revision (some value) index) := by
  intro k entry hentry
  by_cases hk : k = key
  · subst hk
    obtain ⟨obj, hobj⟩ := isSome_iff_exists.mp hknown.record
    rw [lookup_apply_put hkey hobj] at hentry
    split_ifs at hentry
    · exact h k entry hentry
    · cases hentry
      exact ⟨hkey, rfl, value, hobj, hknown⟩
  · rw [lookup_apply_ne hk] at hentry
    exact h k entry hentry

theorem World.Faithful.delete :
    w.Faithful record place (apply record (place key) key revision none index) := by
  refine h.of_lookup fun k entry hentry => ?_
  by_cases hk : k = key
  · subst hk
    rw [lookup_apply_delete hkey fun entry hentry => (h k entry hentry).2.1] at hentry
    split_ifs at hentry
    exact hentry
  · rwa [lookup_apply_ne hk] at hentry

variable (hlatest : revision = w.changed key)
include hlatest

/-- The value of a key in the index after a put: it is the newer one. -/
theorem World.Faithful.lookup_put {obj : R} (hknown : w.Known record key revision value)
    (hobj : record key value = some obj) :
    (apply record (place key) key revision (some value) index).lookup key =
      some ⟨place key, revision, obj⟩ := by
  rw [lookup_apply_put hkey hobj]
  split_ifs with hreaches
  · obtain ⟨entry, hentry, hbucket, hle⟩ := reaches_eq_true.mp hreaches
    obtain ⟨-, -, value', hvalue', hknown'⟩ := h key entry hentry
    -- a revision belongs to one value
    have hrevision : entry.revision = w.changed key :=
      Nat.le_antisymm hknown'.changed (hlatest ▸ hle)
    have hsame := (hknown'.stored hrevision).symm.trans (hrevision.trans hlatest.symm ▸ hknown.stored hlatest)
    obtain ⟨-, rfl⟩ := Prod.mk.inj (some.inj hsame)
    obtain ⟨b, r, o⟩ := entry
    simp_all
  · rfl

/-- After a delete the key is not in the index. -/
theorem World.Faithful.lookup_delete (hstored : w.stored key = none) :
    (apply record (place key) key revision none index).lookup key = none := by
  rw [lookup_apply_delete hkey fun entry hentry => (h key entry hentry).2.1]
  split_ifs with hreaches
  · obtain ⟨entry, hentry, -, hle⟩ := reaches_eq_true.mp hreaches
    obtain ⟨-, -, value', -, hknown'⟩ := h key entry hentry
    have hrevision : entry.revision = w.changed key :=
      Nat.le_antisymm hknown'.changed (hlatest ▸ hle)
    rw [hknown'.stored hrevision] at hstored
    cases hstored
  · rfl

end

/-! ### Calls that start -/

theorem World.Known.congr (h : w.Known record key revision value)
    (hchanged : w'.changed = w.changed) (hstored : w'.stored = w.stored) :
    w'.Known record key revision value :=
  ⟨h.record, hchanged ▸ h.changed, hchanged ▸ hstored ▸ h.stored⟩

theorem World.Faithful.congr (h : w.Faithful record place index) (hchanged : w'.changed = w.changed)
    (hstored : w'.stored = w.stored) :
    w'.Faithful record place index := by
  intro k entry hentry
  obtain ⟨hkey, hbucket, value, hvalue, hknown⟩ := h k entry hentry
  exact ⟨hkey, hbucket, value, hvalue, hknown.congr hchanged hstored⟩

/-- What the process holds itself, the index and the calls under way, may be replaced by an index that
is right and by calls whose values were stored and whose deletes are over. -/
theorem World.Inv.withLocal {calls : List (Call V)} (h : w.Inv record place)
    (hexact : World.Exact record place { w with index, calls })
    (hfaithful : w.Faithful record place index)
    (hfound : ∀ k r v, .found k r v ∈ calls → w.Known record k r v)
    (hremoved : ∀ k r, .removed k r ∈ calls → r < w.changed k) :
    World.Inv record place { w with index, calls } where
  exact := hexact
  stored k r v hstored := ⟨(h.stored k r v hstored).1.congr rfl rfl, (h.stored k r v hstored).2⟩
  last := h.last
  index := hfaithful.congr rfl rfl
  found k r v hcall := (hfound k r v hcall).congr rfl rfl
  removed := hremoved
  events := h.events
  put b k r v hput := (h.put b k r v hput).congr rfl rfl
  latest := h.latest
  replay := h.replay

/-! ### Calls that end -/

/-- A call may put its value into the index while the key is stored, or while the watch has still
something to say of it. -/
def World.Settles (place : GoString → GoString) (w : World V R) : Call V → Prop
  | .found key _ _ => indexedKey key = true → w.Pending place key ∨ (w.stored key).isSome
  | .removed _ _ => True

section

variable (h : w.Inv record place)
include h

/-- An index that is right stays right when the value of a call is put. -/
theorem World.Inv.exact_found (hknown : w.Known record key revision value)
    (hsettles : w.Settles place (.found key revision value)) :
    (w.finish record place (.found key revision value)).Exact record place := by
  intro k hpending
  have hk : w.index.lookup k = w.expected record place k := h.exact k hpending
  show (apply record (place key) key revision (some value) w.index).lookup k = w.expected record place k
  by_cases hkey : k = key
  · subst hkey
    cases hindexed : indexedKey k with
    | false => rw [apply_of_not_indexed hindexed, hk]
    | true =>
      obtain ⟨⟨r, v⟩, hstored⟩ :=
        isSome_iff_exists.mp ((hsettles hindexed).resolve_left hpending)
      obtain ⟨hv, hr⟩ := h.stored k r v hstored
      obtain ⟨obj, hobj⟩ := isSome_iff_exists.mp hknown.record
      obtain ⟨obj', hobj'⟩ := isSome_iff_exists.mp hv.record
      have hentry : w.index.lookup k = some ⟨place k, r, obj'⟩ := by
        rw [hk, expected, if_pos hindexed, hstored]
        simp [hobj']
      rw [lookup_apply_put hindexed hobj, if_pos, hk]
      exact reaches_eq_true.mpr ⟨_, hentry, rfl, hr ▸ hknown.changed⟩
  · rw [lookup_apply_ne hkey, hk]

/-- The index does not stay right otherwise. -/
theorem World.Inv.not_exact_found (hknown : w.Known record key revision value)
    (hsettles : ¬ w.Settles place (.found key revision value)) :
    ¬ (w.finish record place (.found key revision value)).Exact record place := by
  intro hexact
  simp only [World.Settles, not_forall, not_or, not_isSome_iff_eq_none] at hsettles
  obtain ⟨hindexed, hpending, hnone⟩ := hsettles
  have hexpected : w.expected record place key = none := by
    rw [expected, if_pos hindexed, hnone]
    rfl
  have hbefore : w.index.lookup key = none := (h.exact key hpending).trans hexpected
  have hafter : (apply record (place key) key revision (some value) w.index).lookup key = none :=
    (hexact key hpending).trans hexpected
  obtain ⟨obj, hobj⟩ := isSome_iff_exists.mp hknown.record
  rw [lookup_apply_put hindexed hobj, if_neg] at hafter
  · cases hafter
  · rw [reaches_eq_true, hbefore]
    simp

theorem World.Inv.exact_removed (hrevision : revision < w.changed key) :
    (w.finish record place (.removed key revision)).Exact record place := by
  intro k hpending
  have hk : w.index.lookup k = w.expected record place k := h.exact k hpending
  show (forget (place key) key revision w.index).lookup k = w.expected record place k
  by_cases hkey : k = key
  · subst hkey
    rw [lookup_forget, hk]
    cases hentry : w.expected record place k with
    | none => rfl
    | some entry =>
      -- the record that is there now was written after the one that was deleted
      have hnewer : revision < entry.revision := by
        rw [expected] at hentry
        split_ifs at hentry
        obtain ⟨⟨r, v⟩, hstored, hmap⟩ := bind_eq_some_iff.mp hentry
        obtain ⟨obj, -, rfl⟩ := map_eq_some_iff.mp hmap
        exact (h.stored k r v hstored).2 ▸ hrevision
      simp [hnewer]
  · rw [lookup_forget_ne hkey, hk]

theorem World.Inv.exact_finish (hcall : call ∈ w.calls)
    (hsettles : w.Settles place call) : (w.finish record place call).Exact record place := by
  cases call with
  | found k r v => exact h.exact_found (h.found k r v hcall) hsettles
  | removed k r => exact h.exact_removed (h.removed k r hcall)

theorem World.Inv.faithful_finish (hcall : call ∈ w.calls) :
    w.Faithful record place (w.finish record place call).index := by
  cases call with
  | found k r v =>
    cases hkey : indexedKey k with
    | true => exact h.index.put hkey (h.found k r v hcall)
    | false =>
      show w.Faithful record place (apply record (place k) k r (some v) w.index)
      rw [apply_of_not_indexed hkey]
      exact h.index
  | removed k r =>
    refine h.index.of_lookup fun j entry hentry => ?_
    by_cases hj : j = k
    · subst hj
      exact (filter_eq_some_iff.mp (lookup_forget ▸ hentry)).1
    · rwa [← lookup_forget_ne hj]

theorem World.Inv.finish {before after : List (Call V)}
    (hcalls : w.calls = before ++ call :: after) (hsettles : w.Settles place call) :
    World.Inv record place { w.finish record place call with calls := before ++ after } := by
  have hcall : call ∈ w.calls := by simp [hcalls]
  have hsub : ∀ c ∈ before ++ after, c ∈ w.calls := by
    rw [hcalls]
    simp only [mem_append, mem_cons]
    tauto
  have hexact := h.exact_finish hcall hsettles
  have hfaithful := h.faithful_finish hcall
  have hfound : ∀ k r v, .found k r v ∈ before ++ after → w.Known record k r v :=
    fun k r v hc => h.found k r v (hsub _ hc)
  have hremoved : ∀ k r, .removed k r ∈ before ++ after → r < w.changed k :=
    fun k r hc => h.removed k r (hsub _ hc)
  cases call with
  | found k r v => exact h.withLocal hexact hfaithful hfound hremoved
  | removed k r => exact h.withLocal hexact hfaithful hfound hremoved

end

/-! ### Changes of a bucket -/

theorem World.Known.change {value : Option V} {r : Nat} {v : V} (h : w.Known record k r v)
    (hlast : w.changed k ≤ w.last (place k)) :
    (w.change place key value).Known record k r v := by
  by_cases hk : k = key
  · subst hk
    have hlt : r < w.last (place k) + 1 := Nat.lt_succ_of_le (h.changed.trans hlast)
    exact ⟨h.record, by simpa [World.change] using hlt.le,
      fun heq => absurd heq (by simpa [World.change] using hlt.ne)⟩
  · refine ⟨h.record, ?_, ?_⟩
    · simpa [World.change, hk] using h.changed
    · simpa [World.change, hk] using h.stored

section Change

variable {k : GoString} {new : Option V} {ev : KVEvent V}

@[simp] theorem KVEvent.key_told : (told key revision new).key = some key := by
  cases new <;> rfl

theorem World.change_current :
    (w.change place key new).current key = .told key (w.last (place key) + 1) new := by
  cases new <;> simp [current, change, told]

theorem World.change_current_ne (hk : k ≠ key) :
    (w.change place key new).current k = w.current k := by
  simp [current, change, hk]

theorem World.mem_change_queue : ev ∈ (w.change place key new).queue bucket ↔ ev ∈ w.queue bucket ∨
    indexedKey key = true ∧ bucket = place key ∧ ev = .told key (w.last (place key) + 1) new := by
  unfold change
  by_cases hkey : indexedKey key = true
  · by_cases hbucket : bucket = place key
    · subst hbucket
      simp [hkey]
    · simp [hkey, hbucket]
  · simp [hkey]

theorem World.Pending.change (h : w.Pending place k) : (w.change place key new).Pending place k := by
  rcases h with ⟨ev, hev, hkey⟩ | hunseen
  · exact .inl ⟨ev, mem_change_queue.mpr (.inl hev), hkey⟩
  · exact .inr hunseen

theorem World.Inv.change (h : w.Inv record place)
    (hrecord : ∀ v, new = some v → (record key v).isSome) :
    (w.change place key new).Inv record place where
  exact k hpending := by
    have hbefore : w.index.lookup k = w.expected record place k :=
      h.exact k fun hp => hpending hp.change
    show w.index.lookup k = (w.change place key new).expected record place k
    rw [hbefore]
    unfold World.expected
    by_cases hk : k = key
    · subst hk
      -- the watch has still to tell of the change, unless it does not follow the key
      by_cases hkey : indexedKey k = true
      · exact absurd (.inl ⟨_, mem_change_queue.mpr (.inr ⟨hkey, rfl, rfl⟩), key_told⟩) hpending
      · simp [hkey]
    · simp [World.change, hk]
  stored k r v hstored := by
    by_cases hk : k = key
    · subst hk
      cases new with
      | none => simp [World.change] at hstored
      | some v' =>
        obtain ⟨rfl, rfl⟩ : w.last (place k) + 1 = r ∧ v' = v := by simpa [World.change] using hstored
        have hchanged : (w.change place k (some v')).changed k = w.last (place k) + 1 := by
          simp [World.change]
        exact ⟨⟨hrecord v' rfl, hchanged.ge, fun _ => hstored⟩, hchanged.symm⟩
    · have hsame : w.stored k = some (r, v) := by simpa [World.change, hk] using hstored
      refine ⟨(h.stored k r v hsame).1.change (h.last k), ?_⟩
      simpa [World.change, hk] using (h.stored k r v hsame).2
  last k := by
    have hlast := h.last k
    by_cases hk : k = key
    · subst hk
      simp [World.change]
    · by_cases hplace : place k = place key
      · simp only [World.change, update_of_ne hk, hplace, update_self]
        rw [hplace] at hlast
        omega
      · simpa [World.change, hk, hplace] using hlast
  index k entry hentry := by
    obtain ⟨hkey, hbucket, v, hv, hknown⟩ := h.index k entry hentry
    exact ⟨hkey, hbucket, v, hv, hknown.change (h.last k)⟩
  found k r v hcall := (h.found k r v hcall).change (h.last k)
  removed k r hcall := by
    have hlt := h.removed k r hcall
    have hlast := h.last k
    by_cases hk : k = key
    · subst hk
      simp only [World.change, update_self]
      omega
    · simpa [World.change, hk] using hlt
  events b ev hev k hk := by
    rcases mem_change_queue.mp hev with hold | ⟨hkey, rfl, rfl⟩
    · exact h.events b ev hold k hk
    · obtain rfl : key = k := by simpa using hk
      exact ⟨rfl, hkey⟩
  put b k r v hput := by
    rcases mem_change_queue.mp hput with hold | ⟨hkey, rfl, htold⟩
    · exact (h.put b k r v hold).change (h.last k)
    · cases new with
      | none => cases htold
      | some v' =>
        cases htold
        exact ⟨hrecord v rfl, by simp [World.change], fun _ => by simp [World.change]⟩
  latest k ev hlast := by
    by_cases hnew : indexedKey key = true ∧ place k = place key
    · have hqueue : (w.change place key new).queue (place k) =
          w.queue (place k) ++ [.told key (w.last (place key) + 1) new] := by
        simp [World.change, hnew.1, hnew.2]
      rw [hqueue, lastSome_concat] at hlast
      by_cases hk : k = key
      · subst hk
        rw [if_pos key_told, some_or] at hlast
        rw [World.change_current]
        exact (some.inj hlast).symm
      · rw [if_neg (by simpa using Ne.symm hk), none_or] at hlast
        rw [World.change_current_ne hk]
        exact h.latest k ev hlast
    · have hqueue : (w.change place key new).queue (place k) = w.queue (place k) := by
        unfold World.change
        by_cases hkey : indexedKey key = true
        · have hplace : place k ≠ place key := fun hplace => hnew ⟨hkey, hplace⟩
          simp [hkey, hplace]
        · simp [hkey]
      rw [hqueue] at hlast
      have hk : k ≠ key := by
        rintro rfl
        obtain ⟨ev', hmem, hev'⟩ := exists_of_lastSome hlast
        split_ifs at hev' with habout
        exact hnew ⟨(h.events _ ev' hmem k habout).2, rfl⟩
      rw [World.change_current_ne hk]
      exact h.latest k ev hlast
  replay b r hr := by
    obtain ⟨⟨started, hstarted⟩, hunseen⟩ := h.replay b r hr
    refine ⟨⟨started, mem_change_queue.mpr (.inl hstarted)⟩, fun st hst k hplace hkey hseen hnone => ?_⟩
    have hst' : .synced st ∈ w.queue b := by
      rcases mem_change_queue.mp hst with hold | ⟨-, -, htold⟩
      · exact hold
      · cases new <;> cases htold
    have hk : k ≠ key := by
      rintro rfl
      exact hnone _ (mem_change_queue.mpr (.inr ⟨hkey, hplace.symm, rfl⟩)) key_told
    have hold := hunseen st hst' k hplace hkey hseen fun ev hev =>
      hnone ev (mem_change_queue.mpr (.inl hev))
    simpa [World.change, hk] using hold

end Change

/-! ### Events of the watch -/

section Deliver

variable {new : Option V} {rest : List (KVEvent V)}

theorem KVEvent.synced_or_told (ev : KVEvent V) :
    (∃ started, ev = .synced started) ∨ ∃ key revision new, ev = .told key revision new := by
  cases ev with
  | synced started => exact .inl ⟨started, rfl⟩
  | put key revision value => exact .inr ⟨key, revision, some value, rfl⟩
  | delete key revision => exact .inr ⟨key, revision, none, rfl⟩

theorem follow_told (state : Option Replaying) :
    follow record bucket state index (.told key revision new) =
      (state.map (·.see key revision), apply record bucket key revision new index) := by
  cases new <;> rfl

section

variable (h : w.Inv record place)
include h

/-- What the last event about a key makes of its entry. -/
theorem World.Inv.lookup_told (hqueue : w.queue (place key) = .told key revision new :: rest)
    (hrest : ∀ ev ∈ rest, ev.key ≠ some key) :
    (apply record (place key) key revision new w.index).lookup key = w.expected record place key := by
  have hmem : .told key revision new ∈ w.queue (place key) := by simp [hqueue]
  have hkey : indexedKey key = true := (h.events _ _ hmem key key_told).2
  have hcurrent : .told key revision new = w.current key := by
    apply h.latest key
    rw [hqueue, lastSome, lastSome_eq_none.mpr fun ev hev => if_neg (hrest ev hev), none_or,
      if_pos key_told]
  rw [expected, if_pos hkey]
  unfold current at hcurrent
  cases hstored : w.stored key with
  | none =>
    rw [hstored] at hcurrent
    cases new with
    | some v => cases hcurrent
    | none =>
      cases hcurrent
      exact h.index.lookup_delete hkey rfl hstored
  | some stored =>
    obtain ⟨r, v⟩ := stored
    rw [hstored] at hcurrent
    cases new with
    | none => cases hcurrent
    | some v' =>
      cases hcurrent
      obtain ⟨hknown, hchanged⟩ := h.stored key revision v hstored
      obtain ⟨obj, hobj⟩ := isSome_iff_exists.mp hknown.record
      rw [h.index.lookup_put hkey hchanged hknown hobj]
      simp [hobj]

theorem World.Inv.faithful_told (hmem : .told key revision new ∈ w.queue (place key)) :
    w.Faithful record place (apply record (place key) key revision new w.index) := by
  have hkey : indexedKey key = true := (h.events _ _ hmem key key_told).2
  cases new with
  | some v => exact h.index.put hkey (h.put _ key revision v hmem)
  | none => exact h.index.delete hkey

theorem World.Inv.deliver {event : KVEvent V} (hqueue : w.queue bucket = event :: rest)
    (hexact : (w.deliver record bucket event rest).Exact record place)
    (hfaithful : w.Faithful record place (w.deliver record bucket event rest).index)
    (hreplay : ∀ r, (w.deliver record bucket event rest).state bucket = some r →
      (∃ started, .synced started ∈ rest) ∧
      ∀ started, .synced started ∈ rest → ∀ key, place key = bucket → indexedKey key = true →
        key ∉ r.seen → (∀ ev ∈ rest, ev.key ≠ some key) →
        w.stored key = none ∧ w.changed key ≤ started) :
    (w.deliver record bucket event rest).Inv record place := by
  have hmem : ∀ b, ∀ ev ∈ (w.deliver record bucket event rest).queue b, ev ∈ w.queue b := by
    intro b ev hev
    by_cases hb : b = bucket
    · subst hb
      rw [hqueue]
      exact mem_cons_of_mem _ (by simpa [World.deliver] using hev)
    · simpa [World.deliver, hb] using hev
  exact {
    exact := hexact
    stored := fun k r v hstored =>
      ⟨(h.stored k r v hstored).1.congr rfl rfl, (h.stored k r v hstored).2⟩
    last := h.last
    index := hfaithful.congr rfl rfl
    found := fun k r v hcall => (h.found k r v hcall).congr rfl rfl
    removed := h.removed
    events := fun b ev hev => h.events b ev (hmem b ev hev)
    put := fun b k r v hput => (h.put b k r v (hmem b _ hput)).congr rfl rfl
    latest := fun k ev hlast => by
      refine h.latest k ev ?_
      by_cases hb : place k = bucket
      · rw [hb, hqueue, lastSome]
        have hrest : lastSome (fun ev => if ev.key = some k then some ev else none) rest = some ev := by
          simpa [World.deliver, hb] using hlast
        rw [hrest, some_or]
      · simpa [World.deliver, hb] using hlast
    replay := fun b r hr => by
      by_cases hb : b = bucket
      · subst hb
        simpa [World.deliver] using hreplay r hr
      · simpa [World.deliver, hb] using h.replay b r (by simpa [World.deliver, hb] using hr) }

theorem World.Inv.deliver_told (hqueue : w.queue bucket = .told key revision new :: rest) :
    (w.deliver record bucket (.told key revision new) rest).Inv record place := by
  have hmem : .told key revision new ∈ w.queue bucket := by simp [hqueue]
  obtain ⟨rfl, hkey⟩ := h.events bucket _ hmem key key_told
  have hindex : (w.deliver record (place key) (.told key revision new) rest).index =
      apply record (place key) key revision new w.index := by
    simp [World.deliver, follow_told]
  have hstate : (w.deliver record (place key) (.told key revision new) rest).state (place key) =
      (w.state (place key)).map (·.see key revision) := by
    simp [World.deliver, follow_told]
  have hrest : ∀ k, k ≠ key → (∀ ev ∈ rest, ev.key ≠ some k) →
      ∀ ev ∈ w.queue (place key), ev.key ≠ some k := by
    intro k hk hnone ev hev
    rw [hqueue] at hev
    rcases mem_cons.mp hev with rfl | hev
    · simpa using Ne.symm hk
    · exact hnone ev hev
  refine h.deliver hqueue ?_ (hindex ▸ h.faithful_told hmem) ?_
  · intro k hpending
    rw [hindex]
    show _ = w.expected record place k
    by_cases hk : k = key
    · subst hk
      refine h.lookup_told hqueue fun ev hev habout => hpending (.inl ⟨ev, ?_, habout⟩)
      simpa [World.deliver] using hev
    · rw [lookup_apply_ne hk]
      refine h.exact k fun hp => hpending ?_
      rcases hp with ⟨ev, hev, habout⟩ | ⟨r, hr, hunseen⟩
      · refine .inl ⟨ev, ?_, habout⟩
        by_cases hplace : place k = place key
        · rw [hplace, hqueue] at hev
          rcases mem_cons.mp hev with rfl | hev
          · exact absurd (by simpa using habout.symm) hk
          · simpa [World.deliver, hplace] using hev
        · simpa [World.deliver, hplace] using hev
      · by_cases hplace : place k = place key
        · refine .inr ⟨r.see key revision, ?_, ?_⟩
          · rw [hplace, hstate, ← hplace, hr]
            rfl
          · simpa [Replaying.see, hk] using hunseen
        · exact .inr ⟨r, by simpa [World.deliver, hplace] using hr, hunseen⟩
  · intro r hr
    rw [hstate, map_eq_some_iff] at hr
    obtain ⟨r, hr, rfl⟩ := hr
    obtain ⟨⟨started, hstarted⟩, hunseen⟩ := h.replay _ r hr
    have hsynced : ∀ started, .synced started ∈ w.queue (place key) ↔ .synced started ∈ rest := by
      intro started
      rw [hqueue, mem_cons]
      cases new <;> simp [told]
    refine ⟨⟨started, (hsynced started).mp hstarted⟩, fun st hst k hplace hk hseen hnone => ?_⟩
    obtain ⟨hne, hold⟩ : k ≠ key ∧ k ∉ r.seen := by simpa [Replaying.see] using hseen
    exact hunseen st ((hsynced st).mpr hst) k hplace hk hold (hrest k hne hnone)

/-- A replay that is over drops the entries of the keys that it has not seen, which are gone, and no
others. -/
theorem World.Inv.lookup_synced {started : Nat} {r : Replaying}
    (hstate : w.state bucket = some r) (hmem : .synced started ∈ w.queue bucket)
    (hnone : ∀ ev ∈ w.queue (place key), ev.key ≠ some key)
    (hstill : place key ≠ bucket → ¬ w.Pending place key) :
    (dropUnseen bucket r.seen (max r.highest started) w.index).lookup key =
      w.expected record place key := by
  rw [lookup_dropUnseen]
  by_cases hkeep : place key = bucket ∧ key ∉ r.seen
  · obtain ⟨rfl, hseen⟩ := hkeep
    by_cases hkey : indexedKey key = true
    · obtain ⟨hstored, hchanged⟩ := (h.replay _ r hstate).2 started hmem key rfl hkey hseen hnone
      have hexpected : w.expected record place key = none := by
        rw [expected, if_pos hkey, hstored]
        rfl
      rw [hexpected, filter_eq_none_iff]
      intro entry hentry
      obtain ⟨-, hbucket, v, -, hknown⟩ := h.index key entry hentry
      have hold : entry.revision ≤ max r.highest started :=
        (hknown.changed.trans hchanged).trans (le_max_right _ _)
      rw [decide_eq_true hbucket, decide_eq_true hseen, decide_eq_true hold]
      decide
    · rw [expected, if_neg hkey, filter_eq_none_iff]
      exact fun entry hentry => absurd (h.index key entry hentry).1 hkey
  · have hpending : ¬ w.Pending place key := by
      by_cases hplace : place key = bucket
      · rintro (⟨ev, hev, habout⟩ | ⟨r', hr', hunseen⟩)
        · exact hnone ev hev habout
        · rw [hplace, hstate] at hr'
          cases hr'
          exact hkeep ⟨hplace, hunseen⟩
      · exact hstill hplace
    rw [← h.exact key hpending]
    cases hentry : w.index.lookup key with
    | none => rfl
    | some entry =>
      obtain ⟨-, hbucket, -⟩ := h.index key entry hentry
      have hkept : ¬ (entry.bucket = bucket ∧ key ∉ r.seen) := hbucket ▸ hkeep
      rw [filter_some, if_pos]
      rw [← Bool.decide_and, decide_eq_false hkept]
      rfl

theorem World.Inv.deliver_synced {started : Nat}
    (hqueue : w.queue bucket = .synced started :: rest) :
    (w.deliver record bucket (.synced started) rest).Inv record place := by
  have hqueued : ∀ k, (∃ ev ∈ w.queue (place k), ev.key = some k) →
      ∃ ev ∈ (w.deliver record bucket (.synced started) rest).queue (place k), ev.key = some k := by
    rintro k ⟨ev, hev, habout⟩
    by_cases hplace : place k = bucket
    · rw [hplace, hqueue] at hev
      rcases mem_cons.mp hev with rfl | hev
      · cases habout
      · exact ⟨ev, by simpa [World.deliver, hplace] using hev, habout⟩
    · exact ⟨ev, by simpa [World.deliver, hplace] using hev, habout⟩
  have hstate : (w.deliver record bucket (.synced started) rest).state bucket = none := by
    cases hs : w.state bucket <;> simp [World.deliver, follow, hs]
  cases hs : w.state bucket with
  | none =>
    have hindex : (w.deliver record bucket (.synced started) rest).index = w.index := by
      simp [World.deliver, follow, hs]
    refine h.deliver hqueue (fun k hpending => ?_) (hindex ▸ h.index) (by simp [hstate])
    rw [hindex]
    refine h.exact k fun hp => hpending ?_
    rcases hp with hp | ⟨r, hr, hunseen⟩
    · exact .inl (hqueued k hp)
    · refine .inr ⟨r, ?_, hunseen⟩
      have hplace : place k ≠ bucket := by
        rintro rfl
        rw [hs] at hr
        cases hr
      simpa [World.deliver, hplace] using hr
  | some r =>
    have hindex : (w.deliver record bucket (.synced started) rest).index =
        dropUnseen bucket r.seen (max r.highest started) w.index := by
      simp [World.deliver, follow, hs]
    have hsub : ∀ k entry, (dropUnseen bucket r.seen (max r.highest started) w.index).lookup k =
        some entry → w.index.lookup k = some entry := fun k entry hentry =>
      (filter_eq_some_iff.mp (lookup_dropUnseen ▸ hentry)).1
    refine h.deliver hqueue (fun k hpending => ?_) (hindex ▸ h.index.of_lookup hsub) (by simp [hstate])
    rw [hindex]
    refine h.lookup_synced hs (by simp [hqueue]) (fun ev hev habout => ?_) fun hplace hp => hpending ?_
    · exact hpending (.inl (hqueued k ⟨ev, hev, habout⟩))
    · rcases hp with hp | ⟨r', hr', hunseen⟩
      · exact .inl (hqueued k hp)
      · exact .inr ⟨r', by simpa [World.deliver, hplace] using hr', hunseen⟩

end

end Deliver

/-! ### Watches that start -/

section Watch

variable {started : Nat} {events : List (KVEvent V)}

theorem Replay.put (h : Replay place w bucket started events)
    (hput : .put key revision value ∈ events) : w.stored key = some (revision, value) := by
  have hcurrent := (h.current _ hput key rfl).2.2
  unfold World.current at hcurrent
  cases hstored : w.stored key with
  | none =>
    rw [hstored] at hcurrent
    cases hcurrent
  | some stored =>
    obtain ⟨r, v⟩ := stored
    rw [hstored] at hcurrent
    cases hcurrent
    rfl

theorem Replay.latest {ev : KVEvent V} (h : Replay place w bucket started events)
    (hlast : lastSome (fun ev => if ev.key = some key then some ev else none) events = some ev) :
    ev = w.current key := by
  obtain ⟨ev', hmem, hev'⟩ := exists_of_lastSome hlast
  split_ifs at hev' with habout
  cases hev'
  exact (h.current ev hmem key habout).2.2

theorem Replay.unseen (h : Replay place w bucket started events) :
    (∃ st, .synced st ∈ events) ∧ ∀ st, .synced st ∈ events → ∀ key, place key = bucket →
      indexedKey key = true → (∀ ev ∈ events, ev.key ≠ some key) →
      w.stored key = none ∧ w.changed key ≤ st := by
  refine ⟨⟨started, (h.synced started).mpr rfl⟩, fun st hst key hplace hkey hnone => ?_⟩
  obtain rfl := (h.synced st).mp hst
  refine (h.complete key hplace hkey).resolve_left fun hmem => hnone _ hmem ?_
  unfold World.current
  cases w.stored key <;> rfl

theorem World.Inv.rewatch (h : w.Inv record place) (hreplay : Replay place w bucket started events) :
    World.Inv record place { w with
      queue := Function.update w.queue bucket events
      state := Function.update w.state bucket (some ⟨[], 0⟩) } where
  exact k hpending := by
    have hplace : place k ≠ bucket := by
      rintro rfl
      exact hpending (.inr ⟨⟨[], 0⟩, by simp, by simp⟩)
    refine h.exact k fun hp => hpending ?_
    simpa [World.Pending, hplace] using hp
  stored k r v hstored := ⟨(h.stored k r v hstored).1.congr rfl rfl, (h.stored k r v hstored).2⟩
  last := h.last
  index := h.index.congr rfl rfl
  found k r v hcall := (h.found k r v hcall).congr rfl rfl
  removed := h.removed
  events b ev hev k hk := by
    by_cases hb : b = bucket
    · subst hb
      have hcurrent := hreplay.current ev (by simpa using hev) k hk
      exact ⟨hcurrent.1, hcurrent.2.1⟩
    · exact h.events b ev (by simpa [hb] using hev) k hk
  put b k r v hput := by
    by_cases hb : b = bucket
    · subst hb
      exact (h.stored k r v (hreplay.put (by simpa using hput))).1.congr rfl rfl
    · exact (h.put b k r v (by simpa [hb] using hput)).congr rfl rfl
  latest k ev hlast := by
    by_cases hplace : place k = bucket
    · exact hreplay.latest (by simpa [hplace] using hlast)
    · exact h.latest k ev (by simpa [hplace] using hlast)
  replay b r hr := by
    by_cases hb : b = bucket
    · subst hb
      obtain ⟨hsynced, hunseen⟩ := hreplay.unseen
      simp only [update_self]
      exact ⟨hsynced, fun st hst k hplace hkey _ hnone => hunseen st hst k hplace hkey hnone⟩
    · simpa [hb] using h.replay b r (by simpa [hb] using hr)

theorem Start.inv (h : Start record place w) : w.Inv record place where
  exact k hpending := absurd (.inr ⟨⟨[], 0⟩, h.state (place k), by simp⟩) hpending
  stored k r v hstored := by
    obtain ⟨hchanged, hrecord⟩ := h.stored k r v hstored
    exact ⟨⟨hrecord, hchanged.le, fun _ => hstored⟩, hchanged⟩
  last := h.last
  index k entry hentry := by
    rw [h.index] at hentry
    cases hentry
  found k r v hcall := by
    rw [h.calls] at hcall
    cases hcall
  removed k r hcall := by
    rw [h.calls] at hcall
    cases hcall
  events b ev hev k hk := by
    obtain ⟨started, hreplay⟩ := h.queue b
    exact ⟨(hreplay.current ev hev k hk).1, (hreplay.current ev hev k hk).2.1⟩
  put b k r v hput := by
    obtain ⟨started, hreplay⟩ := h.queue b
    have hstored := hreplay.put hput
    obtain ⟨hchanged, hrecord⟩ := h.stored k r v hstored
    exact ⟨hrecord, hchanged.le, fun _ => hstored⟩
  latest k ev hlast := by
    obtain ⟨started, hreplay⟩ := h.queue (place k)
    exact hreplay.latest hlast
  replay b r _ := by
    obtain ⟨started, hreplay⟩ := h.queue b
    obtain ⟨hsynced, hunseen⟩ := hreplay.unseen
    exact ⟨hsynced, fun st hst k hplace hkey _ hnone => hunseen st hst k hplace hkey hnone⟩

end Watch

theorem World.Inv.step (h : w.Inv record place)
    (hstep : Step record place (World.Settles place) w w') : w'.Inv record place := by
  cases hstep with
  | change key value hrecord => exact h.change hrecord
  | write key value hrecord =>
    have hchange : (w.change place key (some value)).Inv record place :=
      h.change fun v hv => some.inj hv ▸ hrecord
    refine hchange.withLocal hchange.exact hchange.index (fun k r v hcall => ?_) fun k r hcall => ?_
    · rcases mem_cons.mp hcall with heq | hcall
      · cases heq
        exact (hchange.stored key _ value (by simp [World.change])).1
      · exact hchange.found k r v hcall
    · exact hchange.removed k r (mem_of_ne_of_mem (by simp) hcall)
  | delete key revision value hstored =>
    have hchange : (w.change place key none).Inv record place := h.change (by simp)
    refine hchange.withLocal hchange.exact hchange.index (fun k r v hcall => ?_) fun k r hcall => ?_
    · exact hchange.found k r v (mem_of_ne_of_mem (by simp) hcall)
    · rcases mem_cons.mp hcall with heq | hcall
      · cases heq
        have hrevision := (h.stored key revision value hstored).2
        have hlast := h.last key
        simp only [World.change, update_self]
        omega
      · exact hchange.removed k r hcall
  | get key revision value hstored =>
    refine h.withLocal h.exact h.index (fun k r v hcall => ?_) fun k r hcall => ?_
    · rcases mem_cons.mp hcall with heq | hcall
      · cases heq
        exact (h.stored key revision value hstored).1
      · exact h.found k r v hcall
    · exact h.removed k r (mem_of_ne_of_mem (by simp) hcall)
  | finish call before after hcalls hends => exact h.finish hcalls hends
  | deliver bucket event rest hqueue =>
    rcases event.synced_or_told with ⟨started, rfl⟩ | ⟨key, revision, new, rfl⟩
    · exact h.deliver_synced hqueue
    · exact h.deliver_told hqueue
  | rewatch bucket started events hreplay => exact h.rewatch hreplay

/-- A run in which the calls settle. -/
theorem World.Inv.of_run (hw : Reachable (Start record place) (Step record place (World.Settles place)) w) :
    w.Inv record place :=
  hw.invariant (fun _ h => h.inv) fun _ _ h hstep => h.step hstep

/-- No event is still to come, and no call is under way. -/
def World.Quiet (place : GoString → GoString) (w : World V R) : Prop :=
  (∀ key, w.queue (place key) = []) ∧ w.calls = []

theorem World.Inv.not_pending (h : w.Inv record place) (hquiet : w.Quiet place) (key : GoString) :
    ¬ w.Pending place key := by
  rintro (⟨ev, hev, -⟩ | ⟨r, hr, -⟩)
  · rw [hquiet.1 key] at hev
    cases hev
  · obtain ⟨⟨started, hstarted⟩, -⟩ := h.replay _ r hr
    rw [hquiet.1 key] at hstarted
    cases hstarted

/-- **The index holds exactly the records** once all is quiet, at their current revisions, in every
run in which each call that puts a value finds the key still stored, or the watch with something to
say of it; and a call under way keeps the index right just then. -/
theorem index_holds_records
    (hw : Reachable (Start record place) (Step record place (World.Settles place)) w) :
    (w.Quiet place → ∀ key, w.index.lookup key = w.expected record place key) ∧
      w.Exact record place ∧
      ∀ call ∈ w.calls, (w.finish record place call).Exact record place ↔ w.Settles place call := by
  have h := World.Inv.of_run hw
  refine ⟨fun hquiet key => h.exact key (h.not_pending hquiet key), h.exact, fun call hcall => ?_⟩
  refine ⟨fun hexact => ?_, fun hsettles => h.exact_finish hcall hsettles⟩
  by_contra hsettles
  cases call with
  | found k r v => exact h.not_exact_found (h.found k r v hcall) hsettles hexact
  | removed k r => exact hsettles trivial

end Invariant

/-! ### A late read -/

section Late

/-- One bucket of plain values, which is empty when the store starts. -/
def emptyStore : World Nat Nat where
  stored _ := none
  changed _ := 0
  last _ := 0
  queue _ := [.synced 0]
  state _ := some ⟨[], 0⟩
  index := ∅
  calls := []

def plain (_ : GoString) (value : Nat) : Option Nat := some value

def oneBucket (_ : GoString) : GoString := lit "publications"

def outboxKey : GoString := lit "out.zone-1"

theorem emptyStore_start : Start plain oneBucket emptyStore where
  index := rfl
  calls := rfl
  stored _ _ _ h := by cases h
  last _ := le_rfl
  state _ := rfl
  queue bucket := by
    refine ⟨0, ⟨fun ev hev key hkey => ?_, fun key _ _ => .inr ⟨rfl, le_rfl⟩, fun r => ?_⟩⟩
    · rw [mem_singleton.mp hev] at hkey
      cases hkey
    · show _ ∈ [_] ↔ _
      simp

/-- A record has been written and its event delivered, and a `Get` has read it. -/
def readStore : World Nat Nat :=
  let empty := emptyStore.deliver plain (oneBucket outboxKey) (.synced 0) []
  let written := empty.change oneBucket outboxKey (some 7)
  let told := written.deliver plain (oneBucket outboxKey) (.put outboxKey 1 7) []
  { told with calls := [.found outboxKey 1 7] }

variable (ends : World Nat Nat → Call Nat → Prop)

theorem readStore_reachable :
    Reachable (Start plain oneBucket) (Step plain oneBucket ends) readStore := by
  have h₁ := (Reachable.init emptyStore_start).step
    (.deliver (oneBucket outboxKey) (.synced 0) [] rfl : Step plain oneBucket ends _ _)
  have h₂ := h₁.step (.change outboxKey (some 7) fun _ _ => rfl)
  have h₃ := h₂.step (.deliver (oneBucket outboxKey) (.put outboxKey 1 7) [] (by decide +kernel))
  exact h₃.step (.get outboxKey 1 7 (by decide +kernel))

/-- The record is deleted by another process and the watch has told of it before the `Get` ends. -/
def deletedStore : World Nat Nat :=
  (readStore.change oneBucket outboxKey none).deliver plain (oneBucket outboxKey)
    (.delete outboxKey 2) []

theorem deletedStore_reachable :
    Reachable (Start plain oneBucket) (Step plain oneBucket ends) deletedStore := by
  have h₁ := (readStore_reachable ends).step (.change outboxKey none nofun)
  exact h₁.step (.deliver (oneBucket outboxKey) (.delete outboxKey 2) [] (by decide +kernel))

/-- The `Get` of a record that is still there keeps the index right. -/
theorem read_settles : readStore.Settles oneBucket (.found outboxKey 1 7) ∧
    (readStore.finish plain oneBucket (.found outboxKey 1 7)).Exact plain oneBucket := by
  have hsettles : readStore.Settles oneBucket (.found outboxKey 1 7) :=
    fun _ => .inr (by decide +kernel)
  have hcall : .found outboxKey 1 7 ∈ readStore.calls := mem_singleton.mpr rfl
  exact ⟨hsettles, ((index_holds_records (readStore_reachable _)).2.2 _ hcall).mpr hsettles⟩

/-- A `Get` that ends after the record was deleted puts it back for good: nothing is under way any
more, the record is not stored, and it is in the index. -/
theorem late_read_restores_deleted : ∃ w : World Nat Nat,
    Reachable (Start plain oneBucket) (Step plain oneBucket fun _ _ => True) w ∧
      w.Quiet oneBucket ∧ w.stored outboxKey = none ∧ (w.index.lookup outboxKey).isSome = true := by
  refine ⟨_, (deletedStore_reachable _).step
    (.finish (.found outboxKey 1 7) [] [] (append_nil _).symm trivial), ⟨fun key => ?_, rfl⟩, ?_, ?_⟩
  · show deletedStore.queue (oneBucket outboxKey) = []
    decide +kernel
  · decide +kernel
  · decide +kernel

end Late

end InternalDNS.PubStore
