import InternalDNS.GoControl
import InternalDNS.GoJSON

/-! # The input feed

A region writes some inputs itself, and the other regions copy them from its input bucket, which
their brokers mirror.  The `Applier` of a region keeps the copies: it writes the entry of a key into
the local cluster, with the region it came from as a label and the UID and generation it has there as
annotations, and it removes the copies whose key is gone or whose project the region has no access
to.

What stands in the bucket comes from another region and is not trusted.  The last part shows what an
entry cannot do, whatever it says: touch an object of another origin, set a label or annotation that
the operators act on, bring back an older generation, or answer to the UID of another object.
-/
namespace InternalDNS.Feed

open Go AList GoMap Option

/-! ## Keys -/

/-- `Kinds`: the inputs that a region may write itself. -/
inductive Kind where
  | dnsRegistration
  | dnsRecordContribution
  deriving DecidableEq

def Kind.text : Kind → GoString
  | .dnsRegistration => lit "DNSRegistration"
  | .dnsRecordContribution => lit "DNSRecordContribution"

def kinds : List Kind := [.dnsRegistration, .dnsRecordContribution]

/-- `known`. -/
def known (kind : GoString) : Option Kind := kinds.find? (·.text = kind)

/-- The name of an object in the cluster. -/
structure ObjectKey where
  kind : Kind
  namespace_ : GoString
  name : GoString
  deriving DecidableEq

/-- `Key`: the key of an object in the bucket. -/
def key (n : ObjectKey) : GoString := n.kind.text ++ '.' :: n.namespace_ ++ '.' :: n.name

/-- `parseKey`, by `strings.SplitN(key, ".", 3)`. -/
def parseKey (key : GoString) : Option (GoString × GoString × GoString) := do
  let (kind, rest) ← cut '.' key
  let (namespace_, name) ← cut '.' rest
  return (kind, namespace_, name)

/-- The object that a key stands for, if it is of a known kind. -/
def locate (key : GoString) : Option ObjectKey := do
  let (kind, namespace_, name) ← parseKey key
  let kind ← known kind
  return ⟨kind, namespace_, name⟩

theorem known_eq_some {text : GoString} {kind : Kind} : known text = some kind ↔ kind.text = text := by
  constructor
  · intro h
    simpa using List.find?_some h
  · rintro rfl
    cases kind <;> rfl

theorem locate_eq_some {k : GoString} {n : ObjectKey} :
    locate k = some n ↔ key n = k ∧ '.' ∉ n.namespace_ := by
  have hdot : '.' ∉ n.kind.text := by cases n.kind <;> decide
  simp only [locate, parseKey, bind_eq_bind, bind_eq_some_iff, pure_def,
    some.injEq]
  constructor
  · rintro ⟨p, ⟨⟨kind, rest⟩, hcut, ⟨ns, name⟩, hcut', rfl⟩, kind', hkind, rfl⟩
    obtain ⟨rfl, -⟩ := cut_eq_some.mp hcut
    obtain ⟨rfl, hns⟩ := cut_eq_some.mp hcut'
    obtain rfl := known_eq_some.mp hkind
    exact ⟨by simp [key], hns⟩
  · rintro ⟨rfl, hns⟩
    refine ⟨(n.kind.text, n.namespace_, n.name), ⟨(n.kind.text, n.namespace_ ++ '.' :: n.name),
      cut_eq_some.mpr ⟨by simp [key], hdot⟩, (n.namespace_, n.name), cut_eq_some.mpr ⟨rfl, hns⟩, rfl⟩,
      n.kind, known_eq_some.mpr rfl, rfl⟩

/-! ## Marks -/

abbrev StringMap := GoMap GoString GoString

/-- Go's `m[k]`: the empty string for a key that is not there. -/
def at_ (m : StringMap) (k : GoString) : GoString := (m.lookup k).getD []

def originLabel : GoString := lit "internal-dns.miloapis.com/origin"
def originGenerationAnnotation : GoString := lit "internal-dns.miloapis.com/origin-generation"
def originUIDAnnotation : GoString := lit "internal-dns.miloapis.com/origin-uid"
def replicatedLabel : GoString := lit "internal-dns.miloapis.com/replicated"
def projectUIDAnnotation : GoString := lit "internal-dns.miloapis.com/project-uid"
def replicatedValue : GoString := lit "true"

/-- `reserved`: the keys that replication and the hub act on. -/
def reserved (key : GoString) : Bool :=
  match cut '/' key with
  | none => false
  | some (group, _) => group = lit "internal-dns.miloapis.com" || group = lit "kubectl.kubernetes.io" ||
      group = lit "karmada.io" || hasSuffix group (lit ".karmada.io")

/-- The entries of a map that a peer may set. -/
def unreserved (m : StringMap) : StringMap := m.filter fun k _ => !reserved k

/-! ## Objects and entries -/

section Model

variable (J : Type)

/-- An object of one of the kinds, with its specification as decoded JSON. -/
structure Object where
  uid : GoString
  labels : StringMap
  annotations : StringMap
  spec : J

/-- An entry of the bucket; a specification that cannot be decoded is `none`. -/
structure Entry where
  namespace_ : GoString
  name : GoString
  generation : Int
  labels : StringMap
  annotations : StringMap
  spec : Option J
  generation_low : -2 ^ 63 ≤ generation
  generation_high : generation < 2 ^ 63

structure Namespace where
  labels : StringMap
  annotations : StringMap
  deleting : Bool

/-- A `DNSResolverAccessBinding`. -/
structure AccessBinding where
  namespace_ : GoString
  region : GoString

/-- The projects with access in the region, as the applier has last read them. -/
structure Served where
  projects : List GoString
  readAt : Int

/-- The local cluster, and the cache of the applier. -/
structure Site where
  objects : GoMap ObjectKey (Object J)
  namespaces : GoMap GoString Namespace
  access : List AccessBinding
  served : Option Served

variable {J}

def Object.origin (o : Object J) : GoString := at_ o.labels originLabel

def Object.originUID (o : Object J) : GoString := at_ o.annotations originUIDAnnotation

def Entry.originUID (e : Entry J) : GoString := at_ e.annotations originUIDAnnotation

/-- The generation that the object had where it was written, if it is recorded. -/
def Object.originGeneration (o : Object J) : Option Int :=
  parseInt (at_ o.annotations originGenerationAnnotation)

/-- The UID by which references find the object. -/
def Object.held (o : Object J) : GoString := if o.originUID = [] then o.uid else o.originUID

end Model

/-! ## Errors -/

/-- An error of `Apply`; one that is refused is not tried again. -/
inductive FeedError where
  | refused (msg : GoString)
  | failed (msg : GoString)

def describe (n : ObjectKey) : GoString := n.namespace_ ++ '/' :: n.name ++ ' ' :: n.kind.text

def ownedText (n : ObjectKey) (origin region : GoString) : GoString :=
  describe n ++ lit " is owned by origin " ++ quoted origin ++ lit ", not " ++ quoted region ++
    lit "; not replacing it"

def decodeText (key : GoString) : GoString := lit "decode " ++ key ++ lit ": "

def namesText (key namespace_ name : GoString) : GoString :=
  key ++ lit " names " ++ namespace_ ++ '/' :: name

def notLiveText (namespace_ : GoString) : GoString :=
  lit "namespace " ++ namespace_ ++ lit " is not a live project namespace"

def noAccessText (region project namespace_ : GoString) : GoString :=
  lit "region " ++ region ++ lit " has no resolver access in project " ++ project ++
    lit "; not accepting its inputs for namespace " ++ namespace_

def malformedText (n : ObjectKey) : GoString := describe n ++ lit " has no well-formed origin UID"

def claimsText (n : ObjectKey) (other : GoString) : GoString :=
  describe n ++ lit " claims the UID of " ++ other

def replacedText (n : ObjectKey) : GoString :=
  lit "replaced " ++ describe n ++ lit " after the writer recreated it; applying again"

def specText (key : GoString) : GoString := lit "decode " ++ key ++ lit " spec: "

/-! ## The applier -/

/-- What becomes of a write: `lost` is a write that was carried out and reported as failed. -/
inductive WriteResult where
  | done
  | failed
  | lost
  deriving DecidableEq

/-- How the calls to the API that one step makes turn out: which reads fail, what becomes of the
write, the UID that a new object gets, and the time. -/
structure Api where
  get : Bool
  namespace_ : Bool
  served : Bool
  list : Bool
  write : WriteResult
  error : GoString
  newUID : GoString
  now : Int

structure Applier where
  region : GoString
  interval : Int

/-- The interval, or 10 seconds. -/
def Applier.pace (a : Applier) : Int := if a.interval ≤ 0 then 10000000000 else a.interval

/-- What `Apply` is about to write. -/
inductive Plan (J : Type) where
  | keep
  | replace
  | put (o : Object J)

section Apply

variable {J : Type} (a : Applier) (api : Api)

section

variable (s : Site J) (n : ObjectKey)

/-- The project of a namespace that the hub has placed here. -/
def Namespace.project (ns : Namespace) : GoString := at_ ns.annotations projectUIDAnnotation

def Namespace.live (ns : Namespace) : Bool :=
  at_ ns.labels replicatedLabel = replicatedValue ∧ ns.deleting = false ∧ ns.project ≠ []

/-- The projects with access in the region now. -/
def Applier.projects : List GoString :=
  s.access.filterMap fun b => if b.region = a.region then
    (s.namespaces.lookup b.namespace_).bind fun ns => if ns.live then some ns.project else none
  else none

/-- `servedProjects`; what it returns is the new cache. -/
def Applier.servedProjects : Except FeedError Served :=
  match s.served.filter fun served => api.now - served.readAt < a.pace with
  | some served => .ok served
  | none => if api.served then .error (.failed api.error) else .ok ⟨a.projects s, api.now⟩

/-- `mapped`, with the cache that it leaves. -/
def Applier.mapped (namespace_ : GoString) (s : Site J) : Option Served × Except FeedError Unit :=
  match if api.namespace_ then none else s.namespaces.lookup namespace_ with
  | none => (s.served, .error (.failed api.error))
  | some ns =>
    if ns.live then
      match a.servedProjects api s with
      | .error e => (s.served, .error e)
      | .ok served => (some served, if ns.project ∈ served.projects then .ok () else
          .error (.failed (noAccessText a.region ns.project namespace_)))
    else (s.served, .error (.failed (notLiveText namespace_)))

/-- The object answers to the UID, under another name in the same namespace. -/
def claims (uid : GoString) (n' : ObjectKey) (o : Object J) : Bool :=
  n'.kind = n.kind ∧ n'.namespace_ = n.namespace_ ∧ n'.name ≠ n.name ∧ o.held = uid

def wellFormedUID (uid : GoString) : Bool := byteLength uid = 36 ∧ uid.count '-' = 4

/-- `uniqueIdentity`. -/
def uniqueIdentity (uid : GoString) (s : Site J) : Except FeedError Unit :=
  if wellFormedUID uid then
    if api.list then .error (.failed api.error) else
    match s.objects.entries.find? fun e => claims n uid e.1 e.2 with
    | some other => .error (.refused (claimsText n other.1.name))
    | none => .ok ()
  else .error (.refused (malformedText n))

/-- The part of `Apply` before the namespace is looked at; `none` is a delete. -/
def Applier.accept (key : GoString) (n : ObjectKey) (value : Option (Option (Entry J))) (s : Site J) :
    Except FeedError (Option (Entry J)) :=
  if api.get then .error (.failed api.error) else
  match (s.objects.lookup n).filter fun o => o.origin ≠ a.region with
  | some o => .error (.refused (ownedText n o.origin a.region))
  | none =>
    match value with
    | none => .ok none
    | some none => .error (.failed (decodeText key))
    | some (some entry) =>
      if entry.namespace_ = n.namespace_ ∧ entry.name = n.name then .ok (some entry)
      else .error (.failed (namesText key entry.namespace_ entry.name))

/-- The copy of an entry. -/
def Applier.copy (entry : Entry J) (uid : GoString) (spec : J) : Object J where
  uid
  labels := (unreserved entry.labels).insert originLabel a.region
  annotations := ((unreserved entry.annotations).insert originGenerationAnnotation
    (formatInt entry.generation)).insert originUIDAnnotation entry.originUID
  spec

/-- The object has a later generation than the entry. -/
def Object.after (o : Object J) (entry : Entry J) : Bool :=
  o.originGeneration.any fun g => entry.generation < g

/-- The part of `Apply` after the namespace is found to be served. -/
def Applier.plan (key : GoString) (n : ObjectKey) (entry : Entry J) (s : Site J) :
    Except FeedError (Plan J) :=
  match uniqueIdentity api n entry.originUID s with
  | .error e => .error e
  | .ok () =>
    let put (uid : GoString) : Except FeedError (Plan J) :=
      match entry.spec with
      | none => .error (.failed (specText key))
      | some spec => .ok (.put (a.copy entry uid spec))
    match s.objects.lookup n with
    | none => put api.newUID
    | some o =>
      if o.originUID ≠ entry.originUID then .ok .replace
      else if o.after entry then .ok .keep
      else put o.uid

/-- A write, which leads from `s` to `t` if it is carried out. -/
def write (t : Site J) : Site J × Except FeedError Unit :=
  match api.write with
  | .done => (t, .ok ())
  | .failed => (s, .error (.failed api.error))
  | .lost => (t, .error (.failed api.error))

def Site.remove : Site J := { s with objects := s.objects.erase n }

def Site.put (o : Object J) : Site J :=
  { s with objects := s.objects.insert n o }

def execute (s : Site J) : Plan J → Site J × Except FeedError Unit
  | .keep => (s, .ok ())
  | .put o => write api s (s.put n o)
  | .replace =>
    match write api s (s.remove n) with
    | (t, .ok ()) => (t, .error (.failed (replacedText n)))
    | (t, .error e) => (t, .error e)

end

/-- `Apply`: a value that is `none` is a delete, one that is `some none` cannot be decoded. -/
def Applier.apply (key : GoString) (value : Option (Option (Entry J))) (s : Site J) :
    Site J × Except FeedError Unit :=
  match locate key with
  | none => (s, .ok ())
  | some n =>
    match a.accept api key n value s with
    | .error e => (s, .error e)
    | .ok none => if (s.objects.lookup n).isSome then write api s (s.remove n) else (s, .ok ())
    | .ok (some entry) =>
      match a.mapped api n.namespace_ s with
      | (served, .error e) => ({ s with served }, .error e)
      | (served, .ok ()) =>
        let s := { s with served }
        match a.plan api key n entry s with
        | .error e => (s, .error e)
        | .ok p => execute api n s p

/-! ## Removing copies -/

/-- How the calls of `prune` and `withdrawUnserved` turn out. -/
structure SweepApi where
  served : Bool
  namespaces : Bool
  list : Kind → Bool
  delete : ObjectKey → WriteResult
  error : GoString
  now : Int

/-- The object has the label of the region, so that a list by that label has it. -/
def Applier.owns (o : Object J) : Bool := o.labels.lookup originLabel = some a.region

/-- The deletes of a sweep: a copy of the region that is to go, is listed and is deleted. -/
def Applier.sweep (calls : SweepApi) (doomed : ObjectKey → Bool) (s : Site J) : Site J :=
  { s with objects := s.objects.filter fun n o =>
      !(a.owns o && doomed n && !calls.list n.kind && calls.delete n ≠ .failed) }

/-- No call of the sweep has failed. -/
def Applier.sweepOK (calls : SweepApi) (doomed : ObjectKey → Bool) (s : Site J) : Bool :=
  kinds.all (fun kind => !calls.list kind) &&
    s.objects.entries.all fun e => !(a.owns e.2 && doomed e.1) || calls.delete e.1 = .done

/-- `prune`: the copies whose key has not been seen. -/
def Applier.prune (calls : SweepApi) (seen : List GoString) (s : Site J) : Site J :=
  a.sweep calls (fun n => key n ∉ seen) s

/-- The namespaces of projects without access in the region. -/
def unserved (served : Served) (s : Site J) (namespace_ : GoString) : Bool :=
  (s.namespaces.lookup namespace_).any fun ns =>
    at_ ns.labels replicatedLabel = replicatedValue ∧ ns.project ≠ [] ∧ ns.project ∉ served.projects

/-- `withdrawUnserved`. -/
def Applier.withdrawUnserved (calls : SweepApi) (s : Site J) : Site J :=
  match a.servedProjects ⟨false, false, calls.served, false, .done, calls.error, [], calls.now⟩ s with
  | .error _ => s
  | .ok served =>
    let s := { s with served := some served }
    if calls.namespaces then s else a.sweep calls (fun n => unserved served s n.namespace_) s

end Apply

/-! ## What an entry cannot do -/

open Applier

section Confinement

variable {J : Type}

abbrev Objects (J : Type) := GoMap ObjectKey (Object J)

/-- What a step does to the objects: copies of the region go, or one of them is written. -/
inductive Change (a : Applier) (objects objects' : Objects J) : Prop
  | shrink (h : ∀ n, objects'.lookup n = objects.lookup n ∨
      objects'.lookup n = none ∧ ∃ o, objects.lookup n = some o ∧ o.origin = a.region)
  | put (n : ObjectKey) (entry : Entry J) (uid : GoString) (spec : J)
      (hobjects : objects' = objects.insert n (a.copy entry uid spec))
      (hold : ∀ o, objects.lookup n = some o →
        o.origin = a.region ∧ o.originUID = entry.originUID ∧ o.after entry = false)
      (huid : entry.originUID ≠ [])
      (hunique : ∀ n' o, objects.lookup n' = some o → claims n entry.originUID n' o = false)

variable {a : Applier} {api : Api} {s t : Site J} {n n' : ObjectKey} {o : Object J} {k : GoString}
  {entry : Entry J} {value : Option (Option (Entry J))}

theorem Change.refl (a : Applier) (objects : Objects J) : Change a objects objects :=
  .shrink fun _ => .inl rfl

theorem Change.erase {objects : Objects J}
    (hown : ∀ o, objects.lookup n = some o → o.origin = a.region) :
    Change a objects (objects.erase n) := by
  refine .shrink fun m => ?_
  by_cases hm : m = n
  · subst hm
    cases ho : objects.lookup m with
    | none => exact .inl (lookup_erase m objects)
    | some o => exact .inr ⟨lookup_erase m objects, o, rfl, hown o ho⟩
  · exact .inl (lookup_erase_ne hm)

/-- A write that is carried out or not. -/
theorem change_write (api : Api) (h : Change a s.objects t.objects) :
    Change a s.objects (write api s t).1.objects := by
  unfold write
  cases api.write with
  | done => exact h
  | failed => exact .refl a s.objects
  | lost => exact h

theorem own_of_accept {v : Option (Entry J)} (h : a.accept api k n value s = .ok v) :
    ∀ o, s.objects.lookup n = some o → o.origin = a.region := by
  intro o ho
  unfold accept at h
  split_ifs at h
  rw [ho] at h
  by_contra hne
  rw [filter_some, if_pos (by simpa using hne)] at h
  cases h

theorem uniqueIdentity_eq_ok {uid : GoString} : uniqueIdentity api n uid s = .ok () ↔
    wellFormedUID uid = true ∧ api.list = false ∧
      ∀ n' o, s.objects.lookup n' = some o → claims n uid n' o = false := by
  have hnone : (s.objects.entries.find? fun e => claims n uid e.1 e.2) = none ↔
      ∀ n' o, s.objects.lookup n' = some o → claims n uid n' o = false := by
    rw [List.find?_eq_none]
    constructor
    · intro h n' o ho
      simpa using h ⟨n', o⟩ (mem_lookup_iff.mp ho)
    · intro h e he
      simpa using h e.1 e.2 (mem_lookup_iff.mpr he)
  unfold uniqueIdentity
  cases hfound : s.objects.entries.find? fun e => claims n uid e.1 e.2 with
  | none => split_ifs <;> simp_all
  | some other => split_ifs <;> simp_all

theorem ne_nil_of_wellFormedUID {uid : GoString} (h : wellFormedUID uid = true) : uid ≠ [] := by
  rintro rfl
  simp [wellFormedUID, byteLength] at h

/-- Once the UID is found to be free, `plan` depends on the old copy only. -/
theorem plan_of_unique (h : uniqueIdentity api n entry.originUID s = .ok ()) :
    (∃ o, s.objects.lookup n = some o ∧ o.originUID ≠ entry.originUID ∧
      a.plan api k n entry s = .ok .replace) ∨
    (∃ o, s.objects.lookup n = some o ∧ o.originUID = entry.originUID ∧ o.after entry = true ∧
      a.plan api k n entry s = .ok .keep) ∨
    (entry.spec = none ∧ a.plan api k n entry s = .error (.failed (specText k))) ∨
    ∃ uid spec, entry.spec = some spec ∧ a.plan api k n entry s = .ok (.put (a.copy entry uid spec)) ∧
      ∀ o, s.objects.lookup n = some o → o.originUID = entry.originUID ∧ o.after entry = false := by
  unfold plan
  rw [h]
  cases hold : s.objects.lookup n with
  | none =>
    cases hspec : entry.spec with
    | none => exact .inr (.inr (.inl ⟨rfl, rfl⟩))
    | some spec => exact .inr (.inr (.inr ⟨api.newUID, spec, rfl, rfl, nofun⟩))
  | some o =>
    dsimp only
    split_ifs with huid hafter
    · exact .inl ⟨o, rfl, huid, rfl⟩
    · exact .inr (.inl ⟨o, rfl, not_not.mp huid, hafter, rfl⟩)
    · cases hspec : entry.spec with
      | none => exact .inr (.inr (.inl ⟨rfl, rfl⟩))
      | some spec =>
        refine .inr (.inr (.inr ⟨o.uid, spec, rfl, rfl, ?_⟩))
        rintro _ ⟨⟩
        exact ⟨not_not.mp huid, by simpa using hafter⟩

theorem unique_of_plan {p : Plan J} (h : a.plan api k n entry s = .ok p) :
    uniqueIdentity api n entry.originUID s = .ok () := by
  unfold plan at h
  cases hunique : uniqueIdentity api n entry.originUID s with
  | error e => rw [hunique] at h; cases h
  | ok u => rfl

theorem change_execute {p : Plan J} (hown : ∀ o, s.objects.lookup n = some o → o.origin = a.region)
    (hplan : a.plan api k n entry s = .ok p) : Change a s.objects (execute api n s p).1.objects := by
  cases p with
  | keep => exact .refl a s.objects
  | replace =>
    have hsite : (execute api n s .replace).1 = (write api s (s.remove n)).1 := by
      rw [execute]
      rcases write api s (s.remove n) with ⟨t, e | u⟩ <;> rfl
    rw [hsite]
    exact change_write api (.erase hown)
  | put o =>
    have hunique := unique_of_plan hplan
    obtain ⟨hwell, -, hclaims⟩ := uniqueIdentity_eq_ok.mp hunique
    rcases plan_of_unique (a := a) (k := k) hunique with
      ⟨-, -, -, h⟩ | ⟨-, -, -, -, h⟩ | ⟨-, h⟩ | ⟨uid, spec, -, h, hold⟩ <;> rw [hplan] at h <;> cases h
    exact change_write api (.put n entry uid spec rfl (fun o ho => ⟨hown o ho, hold o ho⟩)
      (ne_nil_of_wellFormedUID hwell) hclaims)

/-- **`Apply` removes or writes one copy of the region at most.** -/
theorem change_apply (a : Applier) (api : Api) (k : GoString) (value : Option (Option (Entry J)))
    (s : Site J) : Change a s.objects (a.apply api k value s).1.objects := by
  unfold apply
  cases locate k with
  | none => exact .refl a s.objects
  | some n =>
    dsimp only
    cases haccept : a.accept api k n value s with
    | error e => exact .refl a s.objects
    | ok v =>
      have hown := own_of_accept haccept
      cases v with
      | none =>
        split_ifs
        · exact change_write api (.erase hown)
        · exact .refl a s.objects
      | some entry =>
        cases a.mapped api n.namespace_ s with
        | mk served result =>
          cases result with
          | error e => exact .refl a s.objects
          | ok u =>
            dsimp only
            cases hplan : a.plan api k n entry { s with served } with
            | error e => exact .refl a s.objects
            | ok p => exact change_execute (s := { s with served }) hown hplan

theorem origin_of_owns (h : a.owns o = true) : o.origin = a.region := by
  have hlabel : o.labels.lookup originLabel = some a.region := by simpa [owns] using h
  simp [Object.origin, at_, hlabel]

theorem change_sweep (a : Applier) (calls : SweepApi) (doomed : ObjectKey → Bool) (s : Site J) :
    Change a s.objects (a.sweep calls doomed s).objects := by
  refine .shrink fun n => ?_
  rw [sweep, lookup_filter]
  cases ho : s.objects.lookup n with
  | none => exact .inl rfl
  | some o =>
    cases hgoes : a.owns o && doomed n && !calls.list n.kind && calls.delete n ≠ .failed with
    | false => exact .inl (by rw [filter_some, hgoes]; rfl)
    | true =>
      have howns : a.owns o = true := by simp_all
      exact .inr ⟨by rw [filter_some, hgoes]; rfl, o, rfl, origin_of_owns howns⟩

/-- A step of the applier, or of the part of the cluster that it only reads. -/
inductive Applier.Step (a : Applier) (s : Site J) : Site J → Prop
  | apply (api : Api) (key : GoString) (value : Option (Option (Entry J))) :
      Applier.Step a s (a.apply api key value s).1
  | prune (calls : SweepApi) (seen : List GoString) : Applier.Step a s (a.prune calls seen s)
  | withdraw (calls : SweepApi) : Applier.Step a s (a.withdrawUnserved calls s)
  | surroundings (namespaces : GoMap GoString Namespace) (access : List AccessBinding)
      (served : Option Served) : Applier.Step a s { s with namespaces, access, served }

theorem Applier.Step.change (h : a.Step s t) : Change a s.objects t.objects := by
  cases h with
  | apply api k value => exact change_apply a api k value s
  | prune calls seen => exact change_sweep a calls _ s
  | withdraw calls =>
    unfold withdrawUnserved
    cases a.servedProjects _ s with
    | error e => exact .refl a s.objects
    | ok served =>
      split_ifs
      · exact .refl a s.objects
      · exact change_sweep a calls _ { s with served := some served }
  | surroundings namespaces access served => exact .refl a s.objects

/-! ### Copies -/

section

variable (entry : Entry J) (uid : GoString) (spec : J)

theorem lookup_unreserved (m : StringMap) (k : GoString) :
    (unreserved m).lookup k = (m.lookup k).filter fun _ => !reserved k :=
  lookup_filter _ m k

/-- The only reserved keys of the object are the origin marks. -/
structure Marked (a : Applier) (o : Object J) : Prop where
  labels : ∀ k v, o.labels.lookup k = some v → reserved k = true → k = originLabel ∧ v = a.region
  annotations : ∀ k v, o.annotations.lookup k = some v → reserved k = true →
    k = originGenerationAnnotation ∨ k = originUIDAnnotation

theorem reserved_of_lookup_unreserved {m : StringMap} {v : GoString}
    (h : (unreserved m).lookup k = some v) : reserved k = false := by
  rw [lookup_unreserved] at h
  obtain ⟨-, hk⟩ := filter_eq_some_iff.mp h
  simpa using hk

theorem marked_copy : Marked a (a.copy entry uid spec) := by
  constructor
  · intro k v hv hreserved
    by_cases hk : k = originLabel
    · subst hk
      exact ⟨rfl, (some.inj hv).symm⟩
    · rw [copy, lookup_insert_ne hk] at hv
      rw [reserved_of_lookup_unreserved hv] at hreserved
      cases hreserved
  · intro k v hv hreserved
    by_contra hk
    push Not at hk
    rw [copy, lookup_insert_ne hk.2, lookup_insert_ne hk.1] at hv
    rw [reserved_of_lookup_unreserved hv] at hreserved
    cases hreserved

@[simp] theorem origin_copy :
    (a.copy entry uid spec).origin = a.region := by
  simp [Object.origin, at_, copy]

@[simp] theorem originUID_copy :
    (a.copy entry uid spec).originUID = entry.originUID := by
  simp [Object.originUID, at_, copy]

@[simp] theorem originGeneration_copy :
    (a.copy entry uid spec).originGeneration = some entry.generation := by
  have hne : originGenerationAnnotation ≠ originUIDAnnotation := by decide
  exact parseInt_formatInt entry.generation_low entry.generation_high

end

theorem held_copy {entry : Entry J} (h : entry.originUID ≠ []) (uid : GoString) (spec : J) :
    (a.copy entry uid spec).held = entry.originUID := by
  rw [Object.held, originUID_copy, if_neg h]

/-! ### One step -/

/-- Two objects of one kind in one namespace answer to the UID. -/
def Shared (objects : Objects J) (n n' : ObjectKey) (uid : GoString) : Prop :=
  n ≠ n' ∧ n.kind = n'.kind ∧ n.namespace_ = n'.namespace_ ∧
    (∃ o, objects.lookup n = some o ∧ o.held = uid) ∧ ∃ o, objects.lookup n' = some o ∧ o.held = uid

/-- The recorded generation of an object. -/
def generationAt (objects : Objects J) (n : ObjectKey) : Option Int :=
  (objects.lookup n).bind (·.originGeneration)

/-- What the applier keeps to, between two moments. -/
structure Confined (a : Applier) (before after : Objects J) : Prop where
  others : ∀ n o, o.origin ≠ a.region → (before.lookup n = some o ↔ after.lookup n = some o)
  marked : ∀ n o, after.lookup n = some o → before.lookup n = some o ∨ Marked a o
  unique : ∀ n n' uid, Shared after n n' uid → Shared before n n' uid

theorem Confined.refl (a : Applier) (objects : Objects J) : Confined a objects objects :=
  ⟨fun _ _ _ => .rfl, fun _ _ h => .inl h, fun _ _ _ h => h⟩

theorem Confined.trans {o₁ o₂ o₃ : Objects J} (h : Confined a o₁ o₂) (h' : Confined a o₂ o₃) :
    Confined a o₁ o₃ := by
  refine ⟨fun n o ho => (h.others n o ho).trans (h'.others n o ho), fun n o ho => ?_,
    fun n n' uid hs => h.unique n n' uid (h'.unique n n' uid hs)⟩
  rcases h'.marked n o ho with hsame | hmarked
  · exact h.marked n o hsame
  · exact .inr hmarked

variable {before after : Objects J}

theorem lookup_of_shrink {n : ObjectKey} {o : Object J} (h : ∀ n, after.lookup n = before.lookup n ∨
      after.lookup n = none ∧ ∃ o, before.lookup n = some o ∧ o.origin = a.region)
    (ho : after.lookup n = some o) : before.lookup n = some o := by
  rcases h n with hsame | ⟨hnone, -⟩
  · rwa [← hsame]
  · rw [hnone] at ho
    cases ho

theorem Change.confined (h : Change a before after) : Confined a before after := by
  cases h with
  | shrink h =>
    refine ⟨fun n o hother => ⟨fun ho => ?_, lookup_of_shrink h⟩, fun n o ho => .inl (lookup_of_shrink h ho), ?_⟩
    · rcases h n with hsame | ⟨-, o', ho', hown⟩
      · rwa [hsame]
      · rw [ho] at ho'
        exact absurd hown (some.inj ho' ▸ hother)
    · rintro n n' uid ⟨hne, hkind, hns, ⟨o, ho, hheld⟩, o', ho', hheld'⟩
      exact ⟨hne, hkind, hns, ⟨o, lookup_of_shrink h ho, hheld⟩, o', lookup_of_shrink h ho', hheld'⟩
  | put m entry uid spec hobjects hold huid hunique =>
    subst hobjects
    -- an object of another name does not answer to the UID of the copy
    have hclash : ∀ n, n ≠ m → n.kind = m.kind → n.namespace_ = m.namespace_ →
        ∀ o, before.lookup n = some o → o.held ≠ entry.originUID := by
      intro n hne hkind hns o ho hheld
      have hname : n.name ≠ m.name := by
        intro hname
        exact hne (by cases n; cases m; simp_all)
      have hclaims := hunique n o ho
      simp [claims, hkind, hns, hname, hheld] at hclaims
    refine ⟨fun n o hother => ?_, fun n o ho => ?_, ?_⟩
    · by_cases hn : n = m
      · subst hn
        rw [lookup_insert]
        constructor
        · intro ho
          exact absurd (hold o ho).1 hother
        · intro ho
          exact absurd (some.inj ho ▸ origin_copy entry uid spec) hother
      · rw [lookup_insert_ne hn]
    · rcases of_lookup_insert ho with ⟨-, rfl⟩ | ho
      · exact .inr (marked_copy entry uid spec)
      · exact .inl ho
    · rintro n n' u ⟨hne, hkind, hns, ⟨o, ho, rfl⟩, o', ho', hheld⟩
      rcases of_lookup_insert ho with ⟨rfl, rfl⟩ | hbefore <;>
        rcases of_lookup_insert ho' with ⟨rfl, rfl⟩ | hbefore'
      · exact absurd rfl hne
      · rw [held_copy huid] at hheld
        exact absurd hheld (hclash n' (Ne.symm hne) hkind.symm hns.symm o' hbefore')
      · rw [held_copy huid] at hheld
        exact absurd hheld.symm (hclash n hne hkind hns o hbefore)
      · exact ⟨hne, hkind, hns, ⟨o, hbefore, rfl⟩, o', hbefore', hheld⟩

/-- **The recorded generation of an object that stays does not go back.**  An object whose UID
changes does not stay: it is removed and created again. -/
theorem Change.generation {o o' : Object J} {g : Int} (h : Change a before after)
    (ho : before.lookup n = some o) (ho' : after.lookup n = some o') (hg : o.originGeneration = some g) :
    ∃ g', o'.originGeneration = some g' ∧ g ≤ g' := by
  cases h with
  | shrink h =>
    have hsame := lookup_of_shrink h ho'
    rw [ho] at hsame
    exact ⟨g, some.inj hsame ▸ hg, le_refl g⟩
  | put m entry uid spec hobjects hold huid hunique =>
    subst hobjects
    by_cases hn : n = m
    · subst hn
      rw [lookup_insert] at ho'
      cases ho'
      refine ⟨entry.generation, originGeneration_copy entry uid spec, ?_⟩
      have hafter := (hold o ho).2.2
      rw [Object.after, hg] at hafter
      simpa using hafter
    · rw [lookup_insert_ne hn, ho] at ho'
      exact ⟨g, some.inj ho' ▸ hg, le_refl g⟩

/-! ### Runs -/

/-- **The applier is confined, whatever the entries say.**  Over every run, the objects of other
origins stay as they are, what it writes has no reserved label or annotation but the origin marks,
no two objects come to answer to one UID, and the recorded generation of an object does not go back
while its origin UID stays the same. -/
theorem applier_confined (a : Applier) (s : Nat → Site J) (hrun : ∀ i, a.Step (s i) (s (i + 1)))
    (i j : Nat) (hij : i ≤ j) :
    Confined a (s i).objects (s j).objects ∧
      ∀ n uid g, (∀ m, i ≤ m → m ≤ j → ∃ o, (s m).objects.lookup n = some o ∧ o.originUID = uid) →
        generationAt (s i).objects n = some g →
        ∃ g', generationAt (s j).objects n = some g' ∧ g ≤ g' := by
  induction j, hij using Nat.le_induction with
  | base => exact ⟨.refl a _, fun n uid g _ hg => ⟨g, hg, le_refl g⟩⟩
  | succ j hij ih =>
    obtain ⟨hconfined, hgeneration⟩ := ih
    have hchange := (hrun j).change
    refine ⟨hconfined.trans hchange.confined, fun n uid g hstays hg => ?_⟩
    obtain ⟨g₁, hg₁, hle₁⟩ := hgeneration n uid g (fun m him hmj => hstays m him (by omega)) hg
    obtain ⟨o, ho, -⟩ := hstays j hij (by omega)
    obtain ⟨o', ho', -⟩ := hstays (j + 1) (by omega) (le_refl _)
    rw [generationAt, ho] at hg₁
    obtain ⟨g₂, hg₂, hle₂⟩ := hchange.generation ho ho' hg₁
    exact ⟨g₂, by rw [generationAt, ho']; exact hg₂, le_trans hle₁ hle₂⟩

/-! ### A copy of the east region -/

/-- The applier of the inputs that `us-east-1` writes. -/
def eastApplier : Applier := ⟨lit "us-east-1", 0⟩

/-- Calls that succeed. -/
def Api.fine (now : Int) : Api :=
  ⟨false, false, false, false, .done, [], lit "22222222-2222-2222-2222-222222222222", now⟩

/-- A cluster without copies, with one project namespace. -/
def projectSite (access : List AccessBinding) : Site Unit where
  objects := ∅
  namespaces := AList.insert (lit "ns-uid") ⟨AList.insert replicatedLabel replicatedValue ∅,
    AList.insert projectUIDAnnotation (lit "project-a") ∅, false⟩ ∅
  access
  served := none

def eastAccess : AccessBinding := ⟨lit "ns-uid", lit "us-east-1"⟩

/-- An entry with a label that it must not set. -/
def instanceEntry : Entry Unit where
  namespace_ := lit "ns-uid"
  name := lit "instance-a"
  generation := 4
  labels := AList.insert (lit "app") (lit "web") (AList.insert replicatedLabel replicatedValue ∅)
  annotations := AList.insert originUIDAnnotation (lit "11111111-1111-1111-1111-111111111111") ∅
  spec := some ()
  generation_low := by decide
  generation_high := by decide

def instanceKey : ObjectKey := ⟨.dnsRecordContribution, lit "ns-uid", lit "instance-a"⟩

/-- The copy is written, without the label. -/
theorem copy_confined : ∃ s : Nat → Site Unit, (∀ i, eastApplier.Step (s i) (s (i + 1))) ∧
    Confined eastApplier (s 0).objects (s 1).objects ∧
    generationAt (s 1).objects instanceKey = some 4 ∧
    ((s 1).objects.lookup instanceKey).map (fun o => at_ o.labels replicatedLabel) = some [] := by
  let start := projectSite [eastAccess]
  let copied := (eastApplier.apply (.fine 0) (key instanceKey) (some (some instanceEntry)) start).1
  let s : Nat → Site Unit := fun i => if i = 0 then start else copied
  have hrun : ∀ i, eastApplier.Step (s i) (s (i + 1)) := by
    intro i
    cases i with
    | zero => exact .apply (.fine 0) (key instanceKey) (some (some instanceEntry))
    | succ i => exact .surroundings copied.namespaces copied.access copied.served
  have hgeneration : generationAt copied.objects instanceKey = some 4 := by decide +kernel
  have hlabel : (copied.objects.lookup instanceKey).map (fun o => at_ o.labels replicatedLabel) = some [] := by
    decide +kernel
  exact ⟨s, hrun, (applier_confined eastApplier s hrun 0 1 (by decide)).1, hgeneration, hlabel⟩

end Confinement

end InternalDNS.Feed
