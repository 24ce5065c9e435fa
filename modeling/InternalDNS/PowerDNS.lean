import InternalDNS.OwnerNames

/-! # Record sets as PowerDNS takes them

A public record set is written to PowerDNS as RRsets: the client groups the entries by owner name,
turns each entry into the content of a record, and sends one change for each name.  Of a name with
several CNAME or ALIAS entries the first with a content counts, and of several SOA entries the last.

The parameters of HTTPS and SVCB entries are taken as encoded, and the date in the serial of a SOA entry
without one is a parameter.
-/
namespace InternalDNS.Pdns

open Go OwnerName List Option

/-! ## Entries -/

/-- `v1alpha1.SOARecordSpec`. -/
structure SOAValue where
  mname : GoString
  rname : GoString
  serial : Nat
  refresh : Nat
  retry : Nat
  expire : Nat
  ttl : Nat

/-- `v1alpha1.RecordEntry`, with the values that the client reads. -/
structure Entry where
  name : GoString
  ttl : Option Int := none
  a : Option GoString := none
  aaaa : Option GoString := none
  cname : Option GoString := none
  aliasTarget : Option GoString := none
  ns : Option GoString := none
  ptr : Option GoString := none
  txt : Option GoString := none
  /-- Preference and exchange. -/
  mx : Option (Nat × GoString) := none
  /-- Priority, weight, port and target. -/
  srv : Option (Nat × Nat × Nat × GoString) := none
  /-- Flag, tag and value. -/
  caa : Option (Nat × GoString × GoString) := none
  soa : Option SOAValue := none
  /-- Usage, selector, matching type and data. -/
  tlsa : Option (Nat × Nat × Nat × GoString) := none
  /-- Priority, target and the encoded parameters. -/
  https : Option (Nat × GoString × GoString) := none
  svcb : Option (Nat × GoString × GoString) := none

/-- `qualifyIfNeeded`. -/
def qualifyIfNeeded (target : GoString) : GoString :=
  if target = [] ∨ target.getLast? = some '.' then target else target ++ ['.']

/-- `escapeTXTContent`, after a character. -/
def escapeFrom (previous : Option Char) : GoString → GoString
  | [] => []
  | c :: rest =>
    if c = ';' ∧ previous ≠ some '\\' then '\\' :: ';' :: escapeFrom (some c) rest
    else c :: escapeFrom (some c) rest

/-- `quoteIfNeeded`. -/
def quoteIfNeeded (s : GoString) : GoString :=
  if 2 ≤ s.length ∧ s.head? = some '"' ∧ s.getLast? = some '"' then s
  else ['"'] ++ escapeFrom none s ++ ['"']

/-- A text without spaces around it, unless it is blank. -/
def nonBlank (s : GoString) : Option GoString :=
  let trimmed := trimSpace s
  if trimmed = [] then none else some trimmed

/-- Words with single spaces between them. -/
def line (words : List GoString) : GoString := [' '].intercalate words

def soaLine (today : GoString) (soa : SOAValue) : GoString :=
  let orDefault (value default : Nat) : GoString := itoa (if value = 0 then default else value)
  line [qualifyIfNeeded (trimSpace soa.mname), qualifyIfNeeded (trimSpace soa.rname),
    if soa.serial = 0 then today ++ lit "01" else itoa soa.serial,
    orDefault soa.refresh 10800, orDefault soa.retry 3600, orDefault soa.expire 604800,
    orDefault soa.ttl 3600]

/-- `encodeSvcbLine`; `params` is what `encodeSvcbParams` makes of the parameters. -/
def encodeSvcbLine (priority : Nat) (target params : GoString) : GoString :=
  let trimmed := trimSpace target
  let t := if trimmed = [] then ['.'] else qualifyIfNeeded trimmed
  if priority = 0 ∨ params = [] then line [itoa priority, t] else line [itoa priority, t, params]

/-- The record content of an entry in a set of a type, if it has one. -/
def entryContent (today : GoString) (t : RRType) (e : Entry) : Option GoString :=
  match t with
  | .A => e.a.bind nonBlank
  | .AAAA => e.aaaa.bind nonBlank
  | .CNAME => (e.cname.bind nonBlank).map qualifyIfNeeded
  | .ALIAS => (e.aliasTarget.bind nonBlank).map qualifyIfNeeded
  | .NS => (e.ns.bind nonBlank).map qualifyIfNeeded
  | .PTR => (e.ptr.bind nonBlank).map qualifyIfNeeded
  | .TXT => (e.txt.bind nonBlank).map quoteIfNeeded
  | .MX => e.mx.bind fun (preference, exchange) =>
    (nonBlank exchange).map fun exch => line [itoa preference, qualifyIfNeeded exch]
  | .SRV => e.srv.bind fun (priority, weight, port, target) =>
    (nonBlank target).map fun tgt =>
      line [itoa priority, itoa weight, itoa port, qualifyIfNeeded tgt]
  | .CAA => e.caa.map fun (flag, tag, value) => line [itoa flag, tag, quoteIfNeeded value]
  | .SOA => e.soa.map (soaLine today)
  | .TLSA => e.tlsa.map fun (usage, selector, matching, data) =>
    line [itoa usage, itoa selector, itoa matching, data]
  | .HTTPS => e.https.map fun (priority, target, params) => encodeSvcbLine priority target params
  | .SVCB => e.svcb.map fun (priority, target, params) => encodeSvcbLine priority target params

/-! ## RRsets of the entries -/

/-- The records of a name with one more content: CNAME and ALIAS keep the first, SOA the last. -/
def addContent (t : RRType) (records : List GoString) : Option GoString → List GoString
  | none => records
  | some content =>
    if t = .CNAME ∨ t = .ALIAS then if records = [] then [content] else records
    else if t = .SOA then [content]
    else records ++ [content]

/-- `dedupeRecords`. -/
def dedupeRecords (records : List GoString) : List GoString :=
  records.foldl (fun out content => if content ∈ out then out else out ++ [content]) []

/-- An RRset that was built from entries. -/
structure BuiltRRSet where
  name : GoString
  ttl : Int
  records : List GoString

variable (U : CaseMap) (today : GoString)

section

variable (zone : GoString) (t : RRType)

/-- One entry more in the RRsets by name; the first entry of a name sets the TTL. -/
def addEntry (sets : GoMap GoString (Int × List GoString)) (e : Entry) :
    GoMap GoString (Int × List GoString) :=
  let name := qualify U e.name zone
  let (ttl, records) := (sets.lookup name).getD (e.ttl.getD 300, [])
  sets.insert name (ttl, addContent t records (entryContent today t e))

/-- `buildRRSets`. -/
def buildRRSets (entries : List Entry) : List BuiltRRSet :=
  let sets := entries.foldl (addEntry U today zone t) ∅
  (sets.keys.insertionSort (· ≤ ·)).filterMap fun name =>
    (sets.lookup name).map fun (ttl, records) => ⟨name, ttl, dedupeRecords records⟩

/-- `BuildOwnerRRSet`. -/
def buildOwnerRRSet (owner : GoString) (entries : List Entry) :
    Option BuiltRRSet :=
  if entries = [] then none
  else (buildRRSets U today zone t entries).find? fun rr => rr.name = qualify U owner zone

end

/-! ### One name -/

section Build

variable {U today} {zone owner : GoString} {t : RRType} {entries : List Entry}

/-- The records that the entries of one name come to. -/
def contentsOf (today : GoString) (t : RRType) (entries : List Entry) : List GoString :=
  entries.foldl (fun records e => addContent t records (entryContent today t e)) []

theorem contentsOf_concat (e : Entry) : contentsOf today t (entries ++ [e]) =
    addContent t (contentsOf today t entries) (entryContent today t e) := by
  simp [contentsOf]

/-- The RRset of a name is that of its entries. -/
theorem lookup_addEntry (name : GoString) :
    ((entries.foldl (addEntry U today zone t) ∅).lookup name).map (·.2) =
      if (entries.filter fun e => qualify U e.name zone = name) = [] then none
      else some (contentsOf today t (entries.filter fun e => qualify U e.name zone = name)) := by
  induction entries using List.reverseRecOn with
  | nil => rfl
  | append_singleton entries e ih =>
    rw [foldl_append, foldl_cons, foldl_nil, filter_append]
    generalize entries.foldl (addEntry U today zone t) ∅ = sets at ih ⊢
    by_cases hname : name = qualify U e.name zone
    · subst hname
      simp only [addEntry, AList.lookup_insert, map_some, filter_cons,
        decide_true, if_true, filter_nil, append_eq_nil_iff, cons_ne_nil, and_false,
        if_false, contentsOf_concat]
      cases hlookup : sets.lookup (qualify U e.name zone) with
      | none =>
        rw [hlookup, map_none] at ih
        split_ifs at ih with hown
        rw [hown]
        rfl
      | some set =>
        rw [hlookup, map_some] at ih
        split_ifs at ih with hown
        rw [← some.inj ih]
        rfl
    · rw [addEntry, AList.lookup_insert_ne hname, ih]
      simp [Ne.symm hname]

/-- **The RRset of one spelling holds the contents of its entries.** -/
theorem buildOwnerRRSet_spec (hne : entries ≠ []) (howner : ∀ e ∈ entries, e.name = owner) :
    ∃ ttl, buildOwnerRRSet U today zone t owner entries =
      some ⟨qualify U owner zone, ttl, dedupeRecords (contentsOf today t entries)⟩ := by
  have hown : (entries.filter fun e => qualify U e.name zone = qualify U owner zone) = entries :=
    filter_eq_self.mpr fun e he => by simp [howner e he]
  have hlookup : ((entries.foldl (addEntry U today zone t) ∅).lookup (qualify U owner zone)).map (·.2) =
      some (contentsOf today t entries) := by
    rw [lookup_addEntry, hown, if_neg hne]
  rw [buildOwnerRRSet, if_neg hne, buildRRSets]
  generalize entries.foldl (addEntry U today zone t) ∅ = sets at hlookup
  obtain ⟨⟨ttl, records⟩, hset, hrecords⟩ := map_eq_some_iff.mp hlookup
  refine ⟨ttl, ?_⟩
  have hkey : qualify U owner zone ∈ sets.keys.insertionSort (· ≤ ·) := by
    rw [mem_insertionSort, ← AList.mem_keys, ← AList.lookup_isSome, hset]
    rfl
  -- the RRset of the name is there, and it is the only one under that name
  have hfound := List.find?_isSome.mpr (show ∃ rr ∈ (sets.keys.insertionSort (· ≤ ·)).filterMap
      (fun name => (sets.lookup name).map fun (ttl, records) =>
        (⟨name, ttl, dedupeRecords records⟩ : BuiltRRSet)),
      decide (rr.name = qualify U owner zone) = true from
    ⟨_, mem_filterMap.mpr ⟨_, hkey, by rw [hset]; rfl⟩, decide_eq_true rfl⟩)
  obtain ⟨rr, hrr⟩ := isSome_iff_exists.mp hfound
  have hname : rr.name = qualify U owner zone := by simpa using List.find?_some hrr
  rw [hrr]
  obtain ⟨name, -, hmap⟩ := mem_filterMap.mp (mem_of_find?_eq_some hrr)
  obtain ⟨⟨ttl', records'⟩, hset', rfl⟩ := map_eq_some_iff.mp hmap
  obtain rfl : name = qualify U owner zone := hname
  obtain ⟨rfl, rfl⟩ := Prod.mk.inj (mem_unique hset' hset)
  rw [← hrecords]

end Build

end InternalDNS.Pdns
