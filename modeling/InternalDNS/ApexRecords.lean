import InternalDNS.OwnerNames

/-! # The default records of a public zone

The replicator gives a zone that has nameservers a SOA and an NS record set at the apex, unless the
zone has them, and reports the zone `Programmed` once both are there.  What is at the apex is decided
here by comparing spellings (`namesApex`); what the backend publishes at the apex is decided by
`OwnerName.qualify`.  The two differ on one spelling: a relative name that repeats the domain.
-/
namespace InternalDNS.Replicator

open Go OwnerName List

/-- What `hasApexRecordSet` asks of a record name. -/
def namesApex (name domain : GoString) : Bool :=
  name = ['@'] ||
    (domain ≠ [] && equalFold (trimSuffix name ['.']) (trimSuffix domain ['.']))

/-- `hasApexRecordSet`. -/
def hasApexRecordSet (items : List RecordSetObject) (domain : GoString) : Bool :=
  items.any fun item => item.records.any fun record => namesApex record.name domain

/-- A zone, as far as its default records depend on it. -/
structure PublicZone where
  namespaceName : GoString
  name : GoString
  domainName : GoString
  domain : isPlain domainName = true
  nameservers : List GoString

/-- The value of a default record. -/
inductive DefaultValue where
  | soa (mname rname : GoString) (refresh retry expire ttl : Nat)
  | ns (content : GoString)

/-- A record set that the replicator creates. -/
structure DefaultRecordSet where
  name : GoString
  zoneRef : GoString
  recordType : RRType
  records : List (GoString × DefaultValue)

variable (zone : PublicZone) (sets : List RecordSetObject)

/-- The record sets of a zone of one type. -/
def setsOfType (t : RRType) :
    List RecordSetObject :=
  sets.filter fun s => s.zoneRef = zone.name && s.recordType = t

def absolute (name : GoString) : GoString :=
  if name ≠ [] ∧ name.getLast? ≠ some '.' then name ++ ['.'] else name

/-- `ensureSOARecordSet`: the record set that it sets out to create. -/
def ensureSOARecordSet :
    Option DefaultRecordSet :=
  match zone.nameservers with
  | [] => none
  | first :: _ =>
    if hasApexRecordSet (setsOfType zone sets .SOA) zone.domainName then none
    else some
      { name := zone.name ++ lit "-soa"
        zoneRef := zone.name
        recordType := .SOA
        records := [(['@'], .soa (absolute first) (lit "hostmaster." ++ zone.domainName ++ ['.'])
          10800 3600 604800 3600)] }

/-- `ensureNSRecordSet`: the record set that it sets out to create. -/
def ensureNSRecordSet :
    Option DefaultRecordSet :=
  if zone.nameservers = [] then none
  else if hasApexRecordSet (setsOfType zone sets .NS) zone.domainName then none
  else some
    { name := zone.name ++ lit "-ns"
      zoneRef := zone.name
      recordType := .NS
      records := zone.nameservers.map fun value => (['@'], .ns value) }

/-- The name that the default records have when theirs is taken. -/
def fallbackName (E : Externals) (zone : PublicZone) (t : RRType) : GoString :=
  lit "dnszone-apex-" ++
    (E.hash (zone.namespaceName ++ ['/'] ++ zone.name ++ ['/'] ++ t.text)).take 32

/-- Whether a stored record set already does what `desired` is for. -/
def serves (desired : DefaultRecordSet) (existing : RecordSetObject) : Bool :=
  existing.zoneRef = desired.zoneRef && existing.recordType = desired.recordType &&
    hasApexRecordSet [existing] zone.domainName

/-- `createApexRecordSet`: the set that is created, or nothing when one with its name serves. -/
def createApexRecordSet (E : Externals) (zone : PublicZone) (sets : List RecordSetObject)
    (desired : DefaultRecordSet) : Except GoString (Option DefaultRecordSet) :=
  let fallback := { desired with name := fallbackName E zone desired.recordType }
  match sets.find? (fun s => s.name = desired.name) with
  | none => .ok (some desired)
  | some existing =>
    if serves zone desired existing then .ok none
    else match sets.find? (fun s => s.name = fallback.name) with
      | none => .ok (some fallback)
      | some existing =>
        if serves zone fallback existing then .ok none
        else .error (lit "default apex record name " ++ quoted fallback.name ++
          lit " is occupied by an unrelated record")

/-- A condition of the status. -/
structure ZoneCondition where
  type : GoString
  status : Bool
  reason : GoString
  message : GoString

/-- The `Programmed` condition that `updateStatus` reports. -/
def programmedCondition : ZoneCondition :=
  let items := sets.filter fun s => s.zoneRef = zone.name
  let present (t : RRType) : Bool :=
    items.any fun s => hasApexRecordSet [s] zone.domainName && s.recordType = t
  if zone.nameservers ≠ [] ∧ present .SOA ∧ present .NS then
    ⟨lit "Programmed", true, lit "Programmed", lit "Default records ensured"⟩
  else ⟨lit "Programmed", false, lit "Pending", lit "Waiting for default records"⟩

/-! ## The two notions of the apex -/

section Spellings

variable {U : CaseMap} {name domain : GoString}

theorem foldASCII_of_ascii {c : Char} (h : c.toNat < 128) : foldASCII c = U.lower c := by
  rw [U.lower_ascii c h, foldASCII, if_neg (by omega), if_neg (by omega)]

theorem ascii_of_nameChar {c : Char} (h : nameChar c = true) : c.toNat < 128 := by
  simp only [nameChar, Bool.or_eq_true, decide_eq_true_eq] at h
  rcases h with (((h | rfl) | rfl) | rfl) | rfl
  · simp only [Char.isAlphanum, Char.isAlpha, Char.isUpper, Char.isLower, Char.isDigit,
      Bool.or_eq_true, Bool.and_eq_true, decide_eq_true_eq] at h
    rcases h with (⟨_, h⟩ | ⟨_, h⟩) | ⟨_, h⟩
    · exact Nat.lt_of_le_of_lt (show c.toNat ≤ 90 from h) (by decide)
    · exact Nat.lt_of_le_of_lt (show c.toNat ≤ 122 from h) (by decide)
    · exact Nat.lt_of_le_of_lt (show c.toNat ≤ 57 from h) (by decide)
  all_goals decide

/-- Names are compared with a domain by their lower case. -/
theorem equalFold_iff_toLower (hname : ∀ c ∈ name, c.toNat < 128) (hdomain : Plain domain) :
    equalFold name domain = true ↔ toLower U name = domain := by
  have hleft : name.map foldASCII = toLower U name :=
    map_congr_left fun c hc => foldASCII_of_ascii (hname c hc)
  have hright : domain.map foldASCII = domain := by
    have hascii : ∀ c ∈ domain, c.toNat < 128 := by
      intro c hc
      rcases hdomain.chars c hc with h | rfl | rfl
      · have := isPlainAlnum_bounds h
        omega
      · decide
      · decide
    rw [map_congr_left fun c hc => foldASCII_of_ascii (U := U) (hascii c hc)]
    exact hdomain.toLower
  rw [equalFold, decide_eq_true_eq, hleft, hright]

theorem qualify_at (hdomain : Plain domain) : qualify U ['@'] domain = domain ++ ['.'] := by
  have hat : toLower U ['@'] = ['@'] := by
    simp only [toLower, map_cons, map_nil, List.cons.injEq, and_true]
    exact (lower_eq_iff_of_caseless U (by decide) '@').mpr rfl
  rw [qualify, if_pos (.inl hat), hdomain.toLower]

/-- A name with characters of names is not folded into one of the two spellings of the apex. -/
theorem toLower_ne_at (hne : name ≠ []) (hchars : name.all nameChar = true) :
    ¬ (toLower U name = ['@'] ∨ toLower U name = []) := by
  rintro (h | h)
  · obtain ⟨c, rfl, hc⟩ : ∃ c, name = [c] ∧ U.lower c = '@' := by simpa [toLower] using h
    obtain rfl := (lower_eq_iff_of_caseless U (by decide) c).mp hc
    revert hchars
    decide
  · exact hne (by simpa [toLower] using h)

/-- **`hasApexRecordSet` accepts one spelling beside those of the apex**: the domain itself, without
a dot at the end. -/
theorem namesApex_iff (hname : validRecordName name = true) (hdomain : Plain domain) :
    namesApex name domain = true ↔
      qualify U name domain = qualify U ['@'] domain ∨ toLower U name = domain := by
  have hdot : ¬ ['.'] <:+ domain := not_dot_suffix_of_last hdomain.last
  simp only [validRecordName, Bool.or_eq_true, decide_eq_true_eq, Bool.and_eq_true] at hname
  rcases hname with rfl | ⟨hne, hchars⟩
  · simp [namesApex]
  have hascii : ∀ c ∈ name, c.toNat < 128 := fun c hc =>
    ascii_of_nameChar (all_eq_true.mp hchars c hc)
  have hat : name ≠ ['@'] := by
    rintro rfl
    revert hchars
    decide
  have hfold : namesApex name domain = equalFold (trimSuffix name ['.']) domain := by
    simp [namesApex, hat, hdomain.ne_nil, trimSuffix_of_not_suffix hdot]
  rw [hfold, qualify_at hdomain, qualify, if_neg (toLower_ne_at hne hchars), hdomain.toLower]
  rcases trimSuffix_cases name ['.'] with ⟨hsuffix, htrim⟩ | htrim
  · -- a relative name is never the apex, since it stands before the domain
    rw [htrim, equalFold_iff_toLower hascii hdomain (U := U), if_neg ?_]
    · refine ⟨.inr, fun h => h.resolve_left fun heq => ?_⟩
      have hlen := congrArg List.length heq
      simp only [length_append, length_cons, length_toLower] at hlen
      omega
    · intro hlast
      obtain ⟨c, hc, hdotc⟩ : ∃ c, name.getLast? = some c ∧ U.lower c = '.' := by
        simpa [toLower, List.getLast?_map] using hlast
      obtain ⟨front, rfl⟩ := List.getLast?_eq_some_iff.mp hc
      exact hsuffix ((lower_eq_dot U c).mp hdotc ▸ suffix_append ..)
  · generalize trimSuffix name ['.'] = front at htrim
    subst htrim
    have hfront : ∀ c ∈ front, c.toNat < 128 := fun c hc => hascii c (mem_append_left _ hc)
    have hlower : toLower U (front ++ ['.']) = toLower U front ++ ['.'] := by
      rw [toLower_append]
      congr 1
      simp [toLower]
    rw [equalFold_iff_toLower hfront hdomain (U := U), hlower, if_pos (by simp), append_left_inj]
    refine ⟨.inl, fun h => h.resolve_right fun heq => hdot ?_⟩
    exact heq ▸ suffix_append ..

end Spellings

/-! ## Reported and published -/

section Zones

variable {U : CaseMap} {zone : PublicZone} {sets : List RecordSetObject} {t : RRType}

/-- The zone has a record of a type under a spelling. -/
def HasEntry (zone : PublicZone) (sets : List RecordSetObject) (t : RRType)
    (spelling : GoString → Prop) : Prop :=
  ∃ s ∈ sets, s.zoneRef = zone.name ∧ s.recordType = t ∧
    ∃ record ∈ s.records, spelling record.name

/-- A record that is published at the apex. -/
def AtApex (U : CaseMap) (zone : PublicZone) (sets : List RecordSetObject) (t : RRType) : Prop :=
  HasEntry zone sets t fun name =>
    qualify U name zone.domainName = qualify U ['@'] zone.domainName

/-- A relative name that repeats the domain, which is published below the apex. -/
def RepeatsDomain (U : CaseMap) (zone : PublicZone) (sets : List RecordSetObject) (t : RRType) :
    Prop :=
  HasEntry zone sets t fun name => toLower U name = zone.domainName

theorem hasApexRecordSet_iff_entry : hasApexRecordSet (setsOfType zone sets t) zone.domainName = true ↔
    HasEntry zone sets t fun name => namesApex name zone.domainName = true := by
  simp only [hasApexRecordSet, setsOfType, HasEntry, any_eq_true, mem_filter,
    Bool.and_eq_true, decide_eq_true_eq, and_assoc]

/-- **What the replicator takes for an apex record**: one at the apex, or one that repeats the
domain. -/
theorem hasApexRecordSet_iff (hvalid : ∀ s ∈ sets, ∀ record ∈ s.records,
      validRecordName record.name = true) :
    hasApexRecordSet (setsOfType zone sets t) zone.domainName = true ↔
      AtApex U zone sets t ∨ RepeatsDomain U zone sets t := by
  have hspell : ∀ s ∈ sets, ∀ record ∈ s.records, (namesApex record.name zone.domainName = true ↔
        qualify U record.name zone.domainName = qualify U ['@'] zone.domainName ∨
          toLower U record.name = zone.domainName) := fun s hs record hrecord =>
    namesApex_iff (hvalid s hs record hrecord) (isPlain_iff.mp zone.domain)
  rw [hasApexRecordSet_iff_entry]
  constructor
  · rintro ⟨s, hs, hzone, htype, record, hrecord, hname⟩
    rcases (hspell s hs record hrecord).mp hname with hname | hname
    · exact .inl ⟨s, hs, hzone, htype, record, hrecord, hname⟩
    · exact .inr ⟨s, hs, hzone, htype, record, hrecord, hname⟩
  · rintro (⟨s, hs, hzone, htype, record, hrecord, hname⟩ |
      ⟨s, hs, hzone, htype, record, hrecord, hname⟩)
    · exact ⟨s, hs, hzone, htype, record, hrecord, (hspell s hs record hrecord).mpr (.inl hname)⟩
    · exact ⟨s, hs, hzone, htype, record, hrecord, (hspell s hs record hrecord).mpr (.inr hname)⟩

theorem ensureSOARecordSet_isSome (hns : zone.nameservers ≠ []) :
    (ensureSOARecordSet zone sets).isSome ↔
      ¬ hasApexRecordSet (setsOfType zone sets .SOA) zone.domainName = true := by
  obtain ⟨first, rest, hcons⟩ := exists_cons_of_ne_nil hns
  simp only [ensureSOARecordSet, hcons]
  split_ifs with h <;> simp [h]

theorem ensureNSRecordSet_isSome (hns : zone.nameservers ≠ []) :
    (ensureNSRecordSet zone sets).isSome ↔
      ¬ hasApexRecordSet (setsOfType zone sets .NS) zone.domainName = true := by
  rw [ensureNSRecordSet, if_neg hns]
  split_ifs with h <;> simp [h]

/-- The zone is reported `Programmed` when both types are found at what is taken for the apex. -/
theorem programmedCondition_status : (programmedCondition zone sets).status = true ↔
    zone.nameservers ≠ [] ∧
      hasApexRecordSet (setsOfType zone sets .SOA) zone.domainName = true ∧
      hasApexRecordSet (setsOfType zone sets .NS) zone.domainName = true := by
  have hpresent : ∀ t : RRType, ((sets.filter fun s => s.zoneRef = zone.name).any fun s =>
      hasApexRecordSet [s] zone.domainName && s.recordType = t) =
        hasApexRecordSet (setsOfType zone sets t) zone.domainName := by
    intro t
    rw [Bool.eq_iff_iff, hasApexRecordSet_iff_entry]
    simp only [hasApexRecordSet, HasEntry, any_eq_true, mem_filter, Bool.and_eq_true,
      decide_eq_true_eq, any_cons, any_nil, Bool.or_false]
    constructor
    · rintro ⟨s, ⟨hs, hzone⟩, hentry, htype⟩
      exact ⟨s, hs, hzone, htype, hentry⟩
    · rintro ⟨s, hs, hzone, htype, hentry⟩
      exact ⟨s, ⟨hs, hzone⟩, hentry, htype⟩
  simp only [programmedCondition, hpresent]
  split_ifs with h
  · simp only [true_iff]
    exact h
  · simp only [false_iff]
    exact h

/-- What the replicator's decisions should mean for a zone: it is reported only with both default
records at the apex, and a default record is made exactly when there is none. -/
structure DecidesApex (U : CaseMap) (zone : PublicZone) (sets : List RecordSetObject) : Prop where
  programmed : (programmedCondition zone sets).status = true →
    AtApex U zone sets .SOA ∧ AtApex U zone sets .NS
  soa : (ensureSOARecordSet zone sets).isSome ↔ ¬ AtApex U zone sets .SOA
  ns : (ensureNSRecordSet zone sets).isSome ↔ ¬ AtApex U zone sets .NS

/-- **When the replicator's apex is the published one**: exactly when no SOA or NS record repeats
the domain in a zone that has no such record at the apex. -/
theorem decides_apex_iff (hns : zone.nameservers ≠ [])
    (hvalid : ∀ s ∈ sets, ∀ record ∈ s.records, validRecordName record.name = true) :
    DecidesApex U zone sets ↔
      (RepeatsDomain U zone sets .SOA → AtApex U zone sets .SOA) ∧
        (RepeatsDomain U zone sets .NS → AtApex U zone sets .NS) := by
  have hapex : ∀ t, hasApexRecordSet (setsOfType zone sets t) zone.domainName = true ↔
      AtApex U zone sets t ∨ RepeatsDomain U zone sets t := fun t => hasApexRecordSet_iff hvalid
  constructor
  · rintro ⟨-, hsoa, hnsset⟩
    rw [ensureSOARecordSet_isSome hns, hapex, not_iff_not] at hsoa
    rw [ensureNSRecordSet_isSome hns, hapex, not_iff_not] at hnsset
    exact ⟨fun h => hsoa.mp (.inr h), fun h => hnsset.mp (.inr h)⟩
  · rintro ⟨hsoa, hnsset⟩
    have hsoa' : hasApexRecordSet (setsOfType zone sets .SOA) zone.domainName = true ↔
        AtApex U zone sets .SOA := (hapex .SOA).trans ⟨fun h => h.elim id hsoa, .inl⟩
    have hns' : hasApexRecordSet (setsOfType zone sets .NS) zone.domainName = true ↔
        AtApex U zone sets .NS := (hapex .NS).trans ⟨fun h => h.elim id hnsset, .inl⟩
    refine ⟨fun h => ?_, ?_, ?_⟩
    · obtain ⟨-, h₁, h₂⟩ := programmedCondition_status.mp h
      exact ⟨hsoa'.mp h₁, hns'.mp h₂⟩
    · rw [ensureSOARecordSet_isSome hns, hsoa']
    · rw [ensureNSRecordSet_isSome hns, hns']

/-- A default record set is made under its own name or the other one, unless both are taken. -/
theorem createApexRecordSet_eq_error {E : Externals} {desired : DefaultRecordSet} {e : GoString}
    (h : createApexRecordSet E zone sets desired = .error e) :
    (∃ s ∈ sets, s.name = desired.name) ∧
      ∃ s ∈ sets, s.name = fallbackName E zone desired.recordType := by
  have hfound : ∀ name : GoString, ∀ s, sets.find? (fun s => s.name = name) = some s →
      ∃ s ∈ sets, s.name = name := fun name s hs =>
    ⟨s, mem_of_find?_eq_some hs, by simpa using List.find?_some hs⟩
  simp only [createApexRecordSet] at h
  split at h
  · cases h
  next first hfirst =>
    split_ifs at h
    split at h
    · cases h
    next second hsecond => exact ⟨hfound _ _ hfirst, hfound _ _ hsecond⟩

end Zones

/-- A record set of the zone below. -/
def entrySet (name : GoString) (t : RRType) (owner : GoString) : RecordSetObject :=
  { name, uid := name, creationTimestamp := 0, deleted := false, zoneRef := lit "zone", recordType := t
    records := [{ name := owner, ttl := none, render := fun _ => [], srvTarget := none, values := [] }] }

def exampleZone : PublicZone :=
  { namespaceName := lit "default", name := lit "zone", domainName := lit "example.com"
    domain := by decide, nameservers := [lit "ns1.example.net."] }

/-- A zone whose only SOA and NS records repeat the domain: it is reported `Programmed`, though both
are published at `example.com.example.com.` -/
theorem repeated_domain_programmed :
    (programmedCondition exampleZone [entrySet (lit "soa") .SOA (lit "example.com"),
        entrySet (lit "ns") .NS (lit "example.com")]).status = true ∧
      qualify .ascii (lit "example.com") (lit "example.com") = lit "example.com.example.com." ∧
      ¬ AtApex .ascii exampleZone [entrySet (lit "soa") .SOA (lit "example.com"),
        entrySet (lit "ns") .NS (lit "example.com")] .NS := by
  refine ⟨by decide +kernel, by decide +kernel, ?_⟩
  rintro ⟨s, hs, -, -, record, hrecord, hname⟩
  have howner : record.name = lit "example.com" := by
    rcases mem_cons.mp hs with rfl | hs
    · exact congrArg RecordEntry.name (mem_singleton.mp hrecord)
    · obtain rfl := mem_singleton.mp hs
      exact congrArg RecordEntry.name (mem_singleton.mp hrecord)
  rw [howner] at hname
  revert hname
  decide +kernel

/-- The condition at work: a zone with its own records at the apex. -/
theorem own_records_decide_apex : DecidesApex .ascii exampleZone
    [entrySet (lit "soa") .SOA (lit "@"), entrySet (lit "ns") .NS (lit "Example.com.")] := by
  have hsets : ∀ s ∈ [entrySet (lit "soa") .SOA (lit "@"), entrySet (lit "ns") .NS (lit "Example.com.")],
      ∀ record ∈ s.records, validRecordName record.name = true := by
    decide +kernel
  refine (decides_apex_iff (by decide) hsets).mpr ⟨fun _ => ?_, fun _ => ?_⟩
  · exact ⟨_, mem_cons_self .., rfl, rfl, _, mem_cons_self .., rfl⟩
  · exact ⟨_, mem_cons_of_mem _ (mem_cons_self ..), rfl, rfl, _, mem_cons_self ..,
      by decide +kernel⟩

end InternalDNS.Replicator
