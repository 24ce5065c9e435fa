import InternalDNS.RdataEntry

/-! # Applying a zone file: what the records of a type become

`record apply` merges the records of a zone file into the live record set of
each type, or replaces them by the file with `--prune`.  Two kinds of record are
not the file's to change: what the platform creates and relies on, a zone's SOA
and its apex NS, recognised by shape, and every record of a set that a
controller owns, recognised by its labels.  `resolve` computes what the records
become; with protection on, neither kind is touched by it.
-/
namespace InternalDNS.Record

open List
open Go (Bytes CaseMap GoMap GoString equalFold)
open Go.Bytes (lit byte)
open Rdata

/-- `v1alpha1.DNSRecordSet` as the command line reads it. -/
structure RecordSet where
  name : Bytes
  resourceVersion : Nat
  labels : GoMap GoString GoString
  recordType : RRType
  records : List Entry
deriving DecidableEq

/-! ## Who owns a record -/

def labelManagedBy : GoString := Go.lit "app.kubernetes.io/managed-by"
def labelDNSManaged : GoString := Go.lit "dns.datumapis.com/managed"
def labelSourceKind : GoString := Go.lit "dns.datumapis.com/source-kind"

/-- `MachineOwned`: any one of three labels marks the set of a controller. -/
def machineOwned (labels : GoMap GoString GoString) : Bool :=
  let value (label : GoString) : GoString := (labels.lookup label).getD []
  equalFold (value labelSourceKind) (Go.lit "Gateway") ||
    equalFold (value labelDNSManaged) (Go.lit "true") ||
    equalFold (value labelManagedBy) (Go.lit "networking.datumapis.com")

/-- `isMachineOwned`. -/
def isMachineOwned (rs : RecordSet) : Bool := machineOwned rs.labels

inductive Provenance where
  | user | platform | gateway
deriving DecidableEq

variable (U : CaseMap) (zone : Bytes) (prune : Bool) (t : RRType)

/-- `IsPlatformShape`. -/
def isPlatformShape (ownerName zone : Bytes) : Bool :=
  match t with
  | .SOA => true
  | .NS => qualifyOwner U ownerName zone = qualifyOwner U [byte '@'] zone
  | _ => false

/-- `classify`. -/
def classify (rs : Option RecordSet) (ownerName zone : Bytes) : Provenance :=
  match rs with
  | none => .user
  | some rs =>
    if isMachineOwned rs then .gateway
    else if isPlatformShape U rs.recordType ownerName zone then .platform
    else .user

/-- `platformRisk`: what a write would break, empty if nothing. -/
def platformRisk (rs : Option RecordSet) (zone : Bytes) (t : RRType) (ownerName : Bytes) : Bytes :=
  if isPlatformShape U t ownerName zone then
    match t with
    | .SOA => lit "editing the SOA record can break zone transfers and negative caching"
    | .NS => lit "editing apex NS records can break delegation"
    | _ => lit "this record is created and relied on by the platform"
  else if rs.isSome ∧ classify U rs ownerName zone = .platform then
    lit "this record is created and relied on by the platform"
  else []

/-! ## The merge -/

/-- `typePlan`, before it is resolved. -/
structure TypePlan where
  rrType : RRType
  set : Option RecordSet
  /-- The records the zone file declares for this type. -/
  file : List Entry

/-- `sameOwner`. -/
def sameOwner (a b zone : Bytes) : Bool := fqdn U a zone = fqdn U b zone

/-- `entriesEqual`: the same value, in whichever form it is held. -/
def entriesEqual (e f : Entry) : Bool :=
  equal U t (entryFromAPI t e) (entryFromAPI t f)

/-- `indexOfEntry`: the first entry with the same owner and the same value. -/
def indexOfEntry (entries : List Entry) (t : RRType) (want : Entry) (zone : Bytes) : Option Nat :=
  entries.findIdx? fun e => sameOwner U e.name want.name zone && entriesEqual U t e want

/-- `withoutOwner`. -/
def withoutOwner (entries : List Entry) (name zone : Bytes) : List Entry :=
  entries.filter fun e => !sameOwner U e.name name zone

/-- `ownedByPlatform`. -/
def ownedByPlatform (keep : List Entry) (name zone : Bytes) : Bool :=
  keep.any fun e => sameOwner U e.name name zone

/-- `protectedEntry`. -/
def protectedEntry (set : Option RecordSet) (t : RRType) (e : Entry) : Bool :=
  classify U set e.name zone ≠ .user || platformRisk U set zone t e.name ≠ []

/-- One entry of the file is merged into the list. -/
def mergeEntry (keep next : List Entry) (w : Entry) : List Entry :=
  -- the entry of a single-valued type takes the place of whatever is at its name
  if isSingleValued t then withoutOwner U next w.name zone ++ [w]
  else match indexOfEntry U next t w zone with
    | some i => if indexOfEntry U keep t w zone = none then next.set i w else next
    | none => next ++ [w]

/-- The live entries that `resolve` leaves alone. -/
def keptEntries (tp : TypePlan) (current : List Entry) (protect : Bool) :
    List Entry :=
  current.filter fun e => protect && protectedEntry U zone tp.set tp.rrType e

/-- The entries of the file that `resolve` takes. -/
def takenEntries (tp : TypePlan) (keep : List Entry) (protect : Bool) :
    List Entry :=
  tp.file.filter fun w => !(protect &&
    (ownedByPlatform U keep w.name zone || protectedEntry U zone tp.set tp.rrType w))

/-- `plan.resolve`. -/
def resolve (prune : Bool) (tp : TypePlan) (current : List Entry) (protect : Bool) : List Entry :=
  if protect ∧ tp.set.isSome ∧ classify U tp.set [] zone = .gateway then current
  else
    let keep := keptEntries U zone tp current protect
    let editable := current.filter fun e => !(protect && protectedEntry U zone tp.set tp.rrType e)
    let file := takenEntries U zone tp keep protect
    if prune then keep ++ file
    else file.foldl (mergeEntry U zone tp.rrType keep) (keep ++ editable)

/-! ## Protection -/

/-- A record that the platform creates and relies on: an SOA, or an NS at the apex under any
spelling of its owner. -/
def PlatformRecord (e : Entry) : Prop :=
  t = .SOA ∨ (t = .NS ∧ ApexSpelling U zone e.name)

instance (zone : Bytes) (t : RRType) (e : Entry) : Decidable (PlatformRecord U zone t e) := by
  unfold PlatformRecord
  infer_instance

theorem isPlatformShape_iff {zone : Bytes} {t : RRType} {e : Entry} :
    isPlatformShape U t e.name zone = true ↔ PlatformRecord U zone t e := by
  cases t <;> simp [isPlatformShape, PlatformRecord, qualifyOwner_eq_apex_iff]

/-- What the platform relies on is protected, whether or not a set holds it. -/
theorem PlatformRecord.protectedEntry {zone : Bytes} {t : RRType} {e : Entry}
    (h : PlatformRecord U zone t e) (set : Option RecordSet) :
    protectedEntry U zone set t e = true := by
  have hrisk : platformRisk U set zone t e.name ≠ [] := by
    unfold platformRisk
    rw [if_pos ((isPlatformShape_iff U).mpr h)]
    cases t <;> decide
  simp [Record.protectedEntry, hrisk]

section Merge

variable {U} {zone : Bytes} {t : RRType} {keep rest : List Entry} {w : Entry} {P : Entry → Prop}

/-- An owner that no kept entry has is taken out behind them only. -/
theorem withoutOwner_kept (hw : ownedByPlatform U keep w.name zone = false) :
    withoutOwner U (keep ++ rest) w.name zone = keep ++ withoutOwner U rest w.name zone := by
  rw [withoutOwner, filter_append, withoutOwner, filter_eq_self.mpr]
  intro e he
  rw [ownedByPlatform, any_eq_false] at hw
  simpa using hw e he

/-- **One round of the merge**: the kept entries stay in front, and only the new entry joins
the others. -/
theorem mergeEntry_kept (hw : ownedByPlatform U keep w.name zone = false) (hP : P w)
    (hrest : ∀ e ∈ rest, P e) :
    ∃ rest', mergeEntry U zone t keep (keep ++ rest) w = keep ++ rest' ∧ ∀ e ∈ rest', P e := by
  rw [mergeEntry]
  split
  · refine ⟨withoutOwner U rest w.name zone ++ [w], ?_, ?_⟩
    · rw [withoutOwner_kept hw, append_assoc]
    · exact Go.forall_mem_concat (fun e he => hrest e (mem_of_mem_filter he)) hP
  · split
    · rename_i i hi
      by_cases hkeep : indexOfEntry U keep t w zone = none
      · -- the place found lies behind the kept entries
        rw [if_pos hkeep]
        rw [indexOfEntry] at hi hkeep
        rw [List.findIdx?_append, hkeep, Option.none_or, Option.map_eq_some_iff] at hi
        obtain ⟨j, _, rfl⟩ := hi
        refine ⟨rest.set j w, ?_, fun e he => ?_⟩
        · rw [set_append_right _ _ (Nat.le_add_left ..), Nat.add_sub_cancel]
        · rcases mem_or_eq_of_mem_set he with h | h
          · exact hrest e h
          · exact h ▸ hP
      · exact ⟨rest, if_neg hkeep, hrest⟩
    · exact ⟨rest ++ [w], append_assoc .., Go.forall_mem_concat hrest hP⟩

/-- The whole merge. -/
theorem mergeEntries_kept {file : List Entry}
    (hfile : ∀ w ∈ file, ownedByPlatform U keep w.name zone = false ∧ P w)
    (hrest : ∀ e ∈ rest, P e) :
    ∃ rest', file.foldl (mergeEntry U zone t keep) (keep ++ rest) = keep ++ rest' ∧
      ∀ e ∈ rest', P e := by
  induction file generalizing rest with
  | nil => exact ⟨rest, rfl, hrest⟩
  | cons w file ih =>
    obtain ⟨hw, hP⟩ := hfile w mem_cons_self
    obtain ⟨rest₁, hround, hrest₁⟩ := mergeEntry_kept (t := t) hw hP hrest
    rw [foldl_cons, hround]
    exact ih (fun v hv => hfile v (mem_cons_of_mem w hv)) hrest₁

end Merge

/-- Protection leaves a set of a controller as it is. -/
theorem resolve_machineOwned {tp : TypePlan} {rs : RecordSet} (hset : tp.set = some rs)
    (howned : isMachineOwned rs = true) (current : List Entry) :
    resolve U zone prune tp current true = current := by
  rw [resolve, if_pos]
  simp [hset, classify, howned]

/-- With protection on, the protected entries stay in front, in order, and what follows them is
not protected. -/
theorem resolve_kept (tp : TypePlan) (current : List Entry)
    (hnot : ∀ rs ∈ tp.set, isMachineOwned rs = false) :
    ∃ rest, resolve U zone prune tp current true =
        current.filter (protectedEntry U zone tp.set tp.rrType) ++ rest ∧
      ∀ e ∈ rest, protectedEntry U zone tp.set tp.rrType e = false := by
  have hgate : ¬ (true = true ∧ tp.set.isSome ∧ classify U tp.set [] zone = .gateway) := by
    rintro ⟨-, -, hclass⟩
    cases hset : tp.set with
    | none => simp [classify, hset] at hclass
    | some rs =>
      simp only [classify, hset, hnot rs hset, Bool.false_eq_true, if_false] at hclass
      split at hclass <;> cases hclass
  have hkeep : keptEntries U zone tp current true =
      current.filter (protectedEntry U zone tp.set tp.rrType) := by
    simp [keptEntries]
  have htaken : ∀ w ∈ takenEntries U zone tp (keptEntries U zone tp current true) true,
      ownedByPlatform U (keptEntries U zone tp current true) w.name zone = false ∧
        protectedEntry U zone tp.set tp.rrType w = false := by
    intro w hw
    have := of_mem_filter hw
    simpa using this
  rw [resolve, if_neg hgate]
  split
  · exact ⟨_, by rw [hkeep], fun e he => (htaken e he).2⟩
  · refine mergeEntries_kept htaken fun e he => ?_
    simpa using of_mem_filter he

/-- **The platform's records survive an apply.**  Whatever the file, the live entries and the
prune setting, the records of the platform are those that were there, in order, and none joins
them; the set of a controller stays as it is. -/
theorem resolve_protects (zone : Bytes) (prune : Bool) (tp : TypePlan) (current : List Entry) :
    (resolve U zone prune tp current true).filter (PlatformRecord U zone tp.rrType ·) =
        current.filter (PlatformRecord U zone tp.rrType ·) ∧
      ((∃ rs, tp.set = some rs ∧ isMachineOwned rs = true) →
        resolve U zone prune tp current true = current) := by
  refine ⟨?_, fun ⟨rs, hset, howned⟩ => resolve_machineOwned U zone prune hset howned current⟩
  by_cases howned : ∃ rs, tp.set = some rs ∧ isMachineOwned rs = true
  · obtain ⟨rs, hset, howned⟩ := howned
    rw [resolve_machineOwned U zone prune hset howned]
  · have hnot : ∀ rs ∈ tp.set, isMachineOwned rs = false := by
      intro rs hrs
      exact Bool.eq_false_iff.mpr fun h => howned ⟨rs, hrs, h⟩
    obtain ⟨rest, hresolve, hrest⟩ := resolve_kept U zone prune tp current hnot
    have hnone : rest.filter (PlatformRecord U zone tp.rrType ·) = [] := by
      rw [filter_eq_nil_iff]
      intro e he hplatform
      have := PlatformRecord.protectedEntry U (of_decide_eq_true hplatform) tp.set
      rw [hrest e he] at this
      exact Bool.false_ne_true this
    rw [hresolve, filter_append, hnone, append_nil, filter_filter]
    refine filter_congr fun e _ => ?_
    by_cases h : PlatformRecord U zone tp.rrType e
    · simp [h, PlatformRecord.protectedEntry U h tp.set]
    · simp [h]

end InternalDNS.Record
