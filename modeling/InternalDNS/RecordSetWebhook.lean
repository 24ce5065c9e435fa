import InternalDNS.GoStore
import InternalDNS.OwnerNames

/-! # The admission of record sets

The validating webhook refuses a record set that claims an owner name which another record set of
the zone holds, if PowerDNS could not serve both: two sets of one type, or a CNAME beside any type.
An update may keep the names that the stored set already has.

The main result is about the record sets of one namespace over any serial sequence of creates,
updates and deletions: if no two of them conflict at the start, no two ever do.
-/
namespace InternalDNS.Webhook

open Go OwnerName List

/-- `field.Error` of an invalid value. -/
structure FieldError where
  path : GoString
  value : GoString
  detail : GoString
  deriving DecidableEq

/-- The answer of a check that collects its errors. -/
def refuse (errors : List FieldError) : Except (List FieldError) Unit :=
  if errors = [] then .ok () else .error errors

@[simp] theorem refuse_eq_ok {errors : List FieldError} : refuse errors = .ok () ↔ errors = [] := by
  unfold refuse
  split <;> simp_all

/-- The path of the name of the record at an index. -/
def recordNamePath (index : Nat) : GoString :=
  lit "spec.records[" ++ itoa index ++ lit "].name"

/-! ## Wildcards -/

/-- `isWildcardName`. -/
def isWildcardName (name : GoString) : Bool := name = ['*'] || ['*', '.'].isPrefixOf name

/-- `refuseWildcardAlias`. -/
def refuseWildcardAlias (old : Option RecordSetObject) (rs : RecordSetObject) :
    Except (List FieldError) Unit :=
  let stored : List GoString := old.elim [] fun o =>
    if o.recordType = .ALIAS then o.records.map (·.name) else []
  let refused := rs.records.zipIdx.filter fun (record, _) =>
    rs.recordType = .ALIAS && isWildcardName record.name && !stored.contains record.name
  refuse (refused.map fun (record, i) =>
    { path := recordNamePath i
      value := record.name
      detail := lit "ALIAS records cannot be used at wildcard names; use a CNAME for " ++
        quoted record.name })

/-! ## Claims -/

/-- `typesShareName`. -/
def typesShareName (a b : RRType) : Bool := a = b || a = .CNAME || b = .CNAME

/-- `ownerClaim`, with the qualified name that it is stored under. -/
structure OwnerClaim where
  key : GoString
  recordIndex : Nat
  ownerName : GoString

/-- The claims of the records from an index on, after `claims`. -/
def addClaims (U : CaseMap) (domain : GoString) :
    List OwnerClaim → Nat → List RecordEntry → List OwnerClaim
  | claims, _, [] => claims
  | claims, i, record :: records =>
    let key := qualify U record.name domain
    if record.name = [] ∨ key ∈ claims.map (·.key) then addClaims U domain claims (i + 1) records
    else addClaims U domain (claims ++ [⟨key, i, record.name⟩]) (i + 1) records

variable (U : CaseMap) (domain : GoString → GoString) (rs : RecordSetObject)

/-- `newOwnerClaims`, in the order of their record indices. -/
def newOwnerClaims (domain : GoString) : List OwnerClaim :=
  addClaims U domain [] 0 rs.records

/-- `firstClaimant`. -/
def firstClaimant (a b : RecordSetObject) : RecordSetObject :=
  if a.creationTimestamp = b.creationTimestamp then if a.name ≤ b.name then a else b
  else if a.creationTimestamp < b.creationTimestamp then a else b

/-- A record set has a qualified name among its records. -/
def holds (domain : GoString) (rs : RecordSetObject) (key : GoString) : Bool :=
  rs.records.any fun record => qualify U record.name domain = key

/-- Another record set, which is not about to go, and whose names `rs` may not have. -/
def contends (other : RecordSetObject) : Bool :=
  other.name ≠ rs.name && !other.deleted && other.zoneRef = rs.zoneRef &&
    typesShareName other.recordType rs.recordType

/-- The first claimant of a name among the sets that hold it. -/
def holder (domain : GoString) (others : List RecordSetObject) (key : GoString) :
    Option RecordSetObject :=
  (others.filter fun other => holds U domain other key).foldl
    (fun held other => some (held.elim other fun held => firstClaimant held other)) none

def claimedMessage (key : GoString) (holder rs : RecordSetObject) : GoString :=
  let reason :=
    if holder.recordType ≠ rs.recordType then
      lit "a CNAME cannot share its name with any other record type, so this record would never be published"
    else lit "a name is held by one DNSRecordSet only, so this record would never be published"
  lit "owner name " ++ quoted key ++ lit " is already claimed by DNSRecordSet " ++ quoted holder.name ++
    lit " for record type " ++ holder.recordType.text ++ lit " in zone " ++ quoted rs.zoneRef ++
    lit "; " ++ reason

/-- The claims that an update does not have already. -/
def unheldClaims (domain : GoString) (old : Option RecordSetObject) (rs : RecordSetObject) :
    List OwnerClaim :=
  match old with
  | some o =>
    if o.recordType = rs.recordType ∧ o.zoneRef = rs.zoneRef then
      (newOwnerClaims U rs domain).filter fun claim => !holds U domain o claim.key
    else newOwnerClaims U rs domain
  | none => newOwnerClaims U rs domain

/-- What the webhook reads; `none` is a failed read. -/
structure Reads where
  domainName : GoString → Option GoString
  recordSets : Option (List RecordSetObject)

/-- `refuseClaimedOwnerNames`.  A failed read admits the record set. -/
def refuseClaimedOwnerNames (reads : Reads) (old : Option RecordSetObject) (rs : RecordSetObject) :
    Except (List FieldError) Unit :=
  if rs.zoneRef = [] ∨ rs.records = [] then .ok ()
  else match reads.domainName rs.zoneRef, reads.recordSets with
    | some domain, some sets =>
      refuse ((unheldClaims U domain old rs).filterMap fun claim =>
        (holder U domain (sets.filter (contends rs)) claim.key).map fun held =>
          { path := recordNamePath claim.recordIndex
            value := claim.ownerName
            detail := claimedMessage claim.key held rs })
    | _, _ => .ok ()

/-- `DNSRecordSetValidator.ValidateCreate`. -/
def validateCreate (reads : Reads) (rs : RecordSetObject) :
    Except (List FieldError) Unit := do
  refuseWildcardAlias none rs
  refuseClaimedOwnerNames U reads none rs

/-- `DNSRecordSetValidator.ValidateUpdate`. -/
def validateUpdate (reads : Reads) (old rs : RecordSetObject) :
    Except (List FieldError) Unit := do
  refuseWildcardAlias (some old) rs
  refuseClaimedOwnerNames U reads (some old) rs

/-! ## What an admitted record set may claim -/

section Claims

variable {U : CaseMap} {domain : GoString} {rs other : RecordSetObject} {old : Option RecordSetObject}

/-- Every name but the empty one is claimed. -/
theorem mem_addClaims {records : List RecordEntry} {claims : List OwnerClaim} {i : Nat}
    {key : GoString} (h : key ∈ claims.map (·.key) ∨
      ∃ record ∈ records, record.name ≠ [] ∧ qualify U record.name domain = key) :
    key ∈ (addClaims U domain claims i records).map (·.key) := by
  induction records generalizing claims i with
  | nil => simpa [addClaims] using h
  | cons first rest ih =>
    rw [addClaims]
    split_ifs with hskip
    · apply ih
      rcases h with h | ⟨record, hmem, hname, hkey⟩
      · exact .inl h
      · rcases mem_cons.mp hmem with rfl | hrest
        · exact .inl (hkey ▸ hskip.resolve_left hname)
        · exact .inr ⟨record, hrest, hname, hkey⟩
    · apply ih
      rcases h with h | ⟨record, hmem, hname, hkey⟩
      · exact .inl (by rw [map_append]; exact mem_append_left _ h)
      · rcases mem_cons.mp hmem with rfl | hrest
        · exact .inl (by simp [hkey])
        · exact .inr ⟨record, hrest, hname, hkey⟩

theorem mem_newOwnerClaims {record : RecordEntry} (hmem : record ∈ rs.records)
    (hname : record.name ≠ []) :
    ∃ claim ∈ newOwnerClaims U rs domain, claim.key = qualify U record.name domain := by
  have h : qualify U record.name domain ∈ (newOwnerClaims U rs domain).map (·.key) :=
    mem_addClaims (.inr ⟨record, hmem, hname, rfl⟩)
  exact mem_map.mp h

/-- Somebody is found to hold a name that somebody holds. -/
theorem holder_isSome {others : List RecordSetObject} {key : GoString} (hmem : other ∈ others)
    (hholds : holds U domain other key = true) : (holder U domain others key).isSome := by
  have hsome : ∀ (sets : List RecordSetObject) (held : RecordSetObject),
      (sets.foldl (fun held other =>
        some (held.elim other fun held => firstClaimant held other)) (some held)).isSome := by
    intro sets
    induction sets with
    | nil => intro held; rfl
    | cons first rest ih => intro held; exact ih _
  unfold holder
  have hfound : other ∈ others.filter fun other => holds U domain other key :=
    mem_filter.mpr ⟨hmem, hholds⟩
  cases hfilter : others.filter fun other => holds U domain other key with
  | nil => simp [hfilter] at hfound
  | cons first rest => exact hsome rest first

/-- **No set that contends with an admitted one holds a name that it claims anew.** -/
theorem free_of_admitted {sets : List RecordSetObject} {reads : Reads}
    (hok : refuseClaimedOwnerNames U reads old rs = .ok ()) (hzone : rs.zoneRef ≠ [])
    (hdomain : reads.domainName rs.zoneRef = some domain) (hsets : reads.recordSets = some sets)
    {claim : OwnerClaim} (hclaim : claim ∈ unheldClaims U domain old rs)
    (hother : other ∈ sets) (hcontends : contends rs other = true) (hrecords : rs.records ≠ []) :
    holds U domain other claim.key = false := by
  rw [refuseClaimedOwnerNames, if_neg (by simp [hzone, hrecords]), hdomain, hsets] at hok
  have hnone := filterMap_eq_nil_iff.mp (refuse_eq_ok.mp hok) claim hclaim
  by_contra hholds
  have hsome := holder_isSome (mem_filter.mpr ⟨hother, hcontends⟩)
    (Bool.eq_true_of_not_eq_false hholds)
  rw [Option.map_eq_none_iff] at hnone
  rw [hnone] at hsome
  cases hsome

end Claims

/-! ## Runs -/

/-- What the API's schema demands of a record set. -/
structure Valid : Prop where
  zoneRef : rs.zoneRef ≠ []
  names : ∀ record ∈ rs.records, validRecordName record.name = true

/-- The reads of the webhook, when they succeed. -/
def readsOf (sets : List RecordSetObject) : Reads :=
  ⟨fun zone => some (domain zone), some sets⟩

/-- Two live record sets of one zone claim one name, and PowerDNS could not serve both. -/
structure Conflict (a b : RecordSetObject) : Prop where
  live : a.deleted = false ∧ b.deleted = false
  zone : a.zoneRef = b.zoneRef
  types : typesShareName a.recordType b.recordType = true
  name : ∃ x ∈ a.records, ∃ y ∈ b.records,
    qualify U x.name (domain a.zoneRef) = qualify U y.name (domain a.zoneRef)

/-- The record sets of a namespace: one of each name, and no two in conflict. -/
structure Consistent (sets : List RecordSetObject) :
    Prop where
  names : (sets.map (·.name)).Nodup
  free : ∀ a ∈ sets, ∀ b ∈ sets, a.name ≠ b.name → ¬ Conflict U domain a b

/-- What happens to the record sets of a namespace.  `domain` gives the zones' domain names.  An
update leaves the deletion timestamp alone, which only the server sets. -/
inductive AdmissionStep (U : CaseMap) (domain : GoString → GoString) (sets : List RecordSetObject) :
    List RecordSetObject → Prop
  | create (rs : RecordSetObject) (hvalid : Valid rs) (hnew : rs.name ∉ sets.map (·.name))
      (hok : validateCreate U (readsOf domain sets) rs = .ok ()) :
      AdmissionStep U domain sets (rs :: sets)
  | update (old rs : RecordSetObject) (hold : old ∈ sets) (hname : rs.name = old.name)
      (hdeleted : rs.deleted = old.deleted) (hvalid : Valid rs)
      (hok : validateUpdate U (readsOf domain sets) old rs = .ok ()) :
      AdmissionStep U domain sets (sets.map fun s => if s.name = rs.name then rs else s)
  | delete (name : GoString) :
      AdmissionStep U domain sets
        (sets.map fun s => if s.name = name then { s with deleted := true } else s)
  | remove (name : GoString) :
      AdmissionStep U domain sets (sets.filter fun s => s.name ≠ name)

section Runs

variable {U : CaseMap} {domain : GoString → GoString} {sets sets' : List RecordSetObject}
  {a b rs old : RecordSetObject}

theorem typesShareName_comm (x y : RRType) : typesShareName x y = typesShareName y x := by
  cases x <;> cases y <;> rfl

theorem Conflict.symm (h : Conflict U domain a b) : Conflict U domain b a := by
  obtain ⟨x, hx, y, hy, hkey⟩ := h.name
  refine ⟨h.live.symm, h.zone.symm, ?_, y, hy, x, hx, ?_⟩
  · rw [typesShareName_comm]
    exact h.types
  · rw [← h.zone, hkey]

theorem holds_of_mem {zone : GoString} {record : RecordEntry} (h : record ∈ rs.records) :
    holds U zone rs (qualify U record.name zone) = true :=
  any_eq_true.mpr ⟨record, h, decide_eq_true rfl⟩

/-- The claims of an update, but for names that it keeps. -/
theorem mem_unheldClaims {zone : GoString} (old : Option RecordSetObject) {claim : OwnerClaim}
    (h : claim ∈ newOwnerClaims U rs zone) : claim ∈ unheldClaims U zone old rs ∨
      ∃ o, old = some o ∧ o.recordType = rs.recordType ∧ o.zoneRef = rs.zoneRef ∧
        holds U zone o claim.key = true := by
  cases old with
  | none => exact .inl h
  | some o =>
    simp only [unheldClaims]
    split_ifs with hsame
    · cases hheld : holds U zone o claim.key with
      | true => exact .inr ⟨o, rfl, hsame.1, hsame.2, hheld⟩
      | false => exact .inl (mem_filter.mpr ⟨h, by simp [hheld]⟩)
    · exact .inl h

/-- **A conflict of an admitted record set was there before**, with the set that it replaces. -/
theorem conflict_of_admitted {old : Option RecordSetObject} (hvalid : Valid rs)
    (hok : refuseClaimedOwnerNames U (readsOf domain sets) old rs = .ok ()) (hb : b ∈ sets)
    (hname : b.name ≠ rs.name) (hconflict : Conflict U domain rs b) :
    ∃ o, old = some o ∧ (o.deleted = false → Conflict U domain o b) := by
  obtain ⟨x, hx, y, hy, hkey⟩ := hconflict.name
  have hne : x.name ≠ [] := ne_nil_of_validRecordName (hvalid.names x hx)
  obtain ⟨claim, hclaim, hclaimkey⟩ : ∃ claim ∈ newOwnerClaims U rs (domain rs.zoneRef),
      claim.key = qualify U x.name (domain rs.zoneRef) := mem_newOwnerClaims hx hne
  have hbholds : holds U (domain rs.zoneRef) b claim.key = true := by
    rw [hclaimkey, hkey]
    exact holds_of_mem hy
  have hcontends : contends rs b = true := by
    simp [contends, hname, hconflict.live.2, hconflict.zone, typesShareName_comm b.recordType,
      hconflict.types]
  rcases mem_unheldClaims old hclaim with hunheld | ⟨o, rfl, htype, hzone, hheld⟩
  · have hfree := free_of_admitted hok hvalid.zoneRef rfl rfl hunheld hb hcontends
      (ne_nil_of_mem hx)
    rw [hbholds] at hfree
    cases hfree
  · -- the name is one that the stored set has, in the same zone and for the same type
    obtain ⟨z, hz, hzkey⟩ := any_eq_true.mp hheld
    refine ⟨o, rfl, fun hlive => ⟨⟨hlive, hconflict.live.2⟩, hzone.trans hconflict.zone, ?_, z, hz, y,
      hy, ?_⟩⟩
    · rw [htype]
      exact hconflict.types
    · rw [hzone, of_decide_eq_true hzkey, hclaimkey, hkey]

theorem Consistent.create (h : Consistent U domain sets) (hvalid : Valid rs)
    (hnew : rs.name ∉ sets.map (·.name))
    (hok : refuseClaimedOwnerNames U (readsOf domain sets) none rs = .ok ()) :
    Consistent U domain (rs :: sets) := by
  have hfree : ∀ b ∈ sets, ¬ Conflict U domain rs b := by
    intro b hb hconflict
    have hname : b.name ≠ rs.name := fun heq => hnew (heq ▸ mem_map_of_mem hb)
    obtain ⟨o, hnone, -⟩ := conflict_of_admitted hvalid hok hb hname hconflict
    cases hnone
  refine ⟨nodup_cons.mpr ⟨hnew, h.names⟩, fun a ha b hb hne hconflict => ?_⟩
  rcases mem_cons.mp ha with rfl | hmem
  · rcases mem_cons.mp hb with rfl | hmem'
    · exact hne rfl
    · exact hfree b hmem' hconflict
  · rcases mem_cons.mp hb with rfl | hmem'
    · exact hfree a hmem hconflict.symm
    · exact h.free a hmem b hmem' hne hconflict

/-- A change of one set keeps the names and who may conflict with whom. -/
theorem Consistent.map (h : Consistent U domain sets) {f : RecordSetObject → RecordSetObject}
    (hname : ∀ s ∈ sets, (f s).name = s.name)
    (hconflict : ∀ a ∈ sets, ∀ b ∈ sets, a.name ≠ b.name → Conflict U domain (f a) (f b) →
      Conflict U domain a b) : Consistent U domain (sets.map f) := by
  refine ⟨?_, fun a ha b hb hne hab => ?_⟩
  · rw [map_map, map_congr_left (g := fun s => s.name) hname]
    exact h.names
  · obtain ⟨s, hs, rfl⟩ := mem_map.mp ha
    obtain ⟨t, ht, rfl⟩ := mem_map.mp hb
    rw [hname s hs, hname t ht] at hne
    exact h.free s hs t ht hne (hconflict s hs t ht hne hab)

theorem Consistent.update (h : Consistent U domain sets) (hold : old ∈ sets)
    (hname : rs.name = old.name) (hdeleted : rs.deleted = old.deleted) (hvalid : Valid rs)
    (hok : refuseClaimedOwnerNames U (readsOf domain sets) (some old) rs = .ok ()) :
    Consistent U domain (sets.map fun s => if s.name = rs.name then rs else s) := by
  have hreplaced : ∀ s ∈ sets, s.name = rs.name → s = old := fun s hs heq =>
    inj_on_of_nodup_map h.names hs hold (heq.trans hname)
  -- the one direction of a conflict; the other is its mirror image
  have hback : ∀ b ∈ sets, b.name ≠ rs.name → Conflict U domain rs b → Conflict U domain old b := by
    intro b hb hne hconflict
    obtain ⟨o, ho, hconflict'⟩ := conflict_of_admitted hvalid hok hb hne hconflict
    cases ho
    exact hconflict' (hdeleted ▸ hconflict.live.1)
  refine h.map (fun s _ => ?_) fun a ha b hb hne hconflict => ?_
  · split_ifs with hs
    · exact hs.symm
    · rfl
  · split_ifs at hconflict with hars hbrs hbrs
    · exact absurd (hars.trans hbrs.symm) hne
    · rw [hreplaced a ha hars]
      exact hback b hb hbrs hconflict
    · rw [hreplaced b hb hbrs]
      exact (hback a ha hars hconflict.symm).symm
    · exact hconflict

theorem AdmissionStep.consistent (hstep : AdmissionStep U domain sets sets')
    (h : Consistent U domain sets) : Consistent U domain sets' := by
  cases hstep with
  | create rs hvalid hnew hok =>
    obtain ⟨-, -, hok⟩ := Except.bind_eq_ok.mp hok
    exact h.create hvalid hnew hok
  | update old rs hold hname hdeleted hvalid hok =>
    obtain ⟨-, -, hok⟩ := Except.bind_eq_ok.mp hok
    exact h.update hold hname hdeleted hvalid hok
  | delete name =>
    refine h.map (fun s _ => ?_) fun a _ b _ _ hconflict => ?_
    · split_ifs <;> rfl
    · -- a set that is about to go is in no conflict
      split_ifs at hconflict
      · cases hconflict.live.1
      · cases hconflict.live.1
      · cases hconflict.live.2
      · exact hconflict
  | remove name =>
    refine ⟨h.names.sublist (filter_sublist.map _), fun a ha b hb hne => ?_⟩
    exact h.free a (mem_of_mem_filter ha) b (mem_of_mem_filter hb) hne

/-- **Admitted record sets never conflict.**  From a namespace without conflicts, after any sequence
of admitted creates and updates, and of deletions, no two live record sets of one zone whose types
contend have records with one qualified name. -/
theorem admitted_names_unique {initial sets : List RecordSetObject}
    (hinit : Consistent U domain initial)
    (hrun : Relation.ReflTransGen (AdmissionStep U domain) initial sets) :
    ∀ a ∈ sets, ∀ b ∈ sets, a.name ≠ b.name → a.deleted = false → b.deleted = false →
      a.zoneRef = b.zoneRef → typesShareName a.recordType b.recordType = true →
        ∀ x ∈ a.records, ∀ y ∈ b.records,
          qualify U x.name (domain a.zoneRef) ≠ qualify U y.name (domain a.zoneRef) := by
  have hreach : Reachable (· = initial) (AdmissionStep U domain) sets := ⟨initial, rfl, hrun⟩
  have hfinal : Consistent U domain sets :=
    hreach.invariant (fun _ heq => heq ▸ hinit) (fun _ _ hinv hstep => hstep.consistent hinv)
  intro a ha b hb hne hlive hlive' hzone htypes x hx y hy hkey
  exact hfinal.free a ha b hb hne ⟨⟨hlive, hlive'⟩, hzone, htypes, x, hx, y, hy, hkey⟩

end Runs

/-- A live set of `A` records of the zone `zone`. -/
def addressSet (name : GoString) (owners : List GoString) : RecordSetObject :=
  { name, uid := name, creationTimestamp := 0, deleted := false, zoneRef := lit "zone"
    recordType := .A
    records := owners.map fun owner =>
      { name := owner, ttl := none, render := fun _ => [], srvTarget := none, values := [] } }

/-- Two sets, of which the second moves its name: the spellings `API` and `api` stay apart from
the other's. -/
theorem moved_name_unique :
    Relation.ReflTransGen (AdmissionStep .ascii fun _ => lit "example.com") []
        [addressSet (lit "two") [lit "mail.example.com."], addressSet (lit "one") [lit "API"]] ∧
      ∀ x ∈ (addressSet (lit "two") [lit "mail.example.com."]).records,
        ∀ y ∈ (addressSet (lit "one") [lit "API"]).records,
          qualify .ascii x.name (lit "example.com") ≠ qualify .ascii y.name (lit "example.com") := by
  have hvalid : ∀ name owner, validRecordName owner = true → Valid (addressSet name [owner]) := by
    intro name owner howner
    refine ⟨by simp [addressSet], fun record hrecord => ?_⟩
    simp only [addressSet, map_cons, map_nil, mem_singleton] at hrecord
    rw [hrecord]
    exact howner
  have h₁ := (Relation.ReflTransGen.refl (r := AdmissionStep .ascii fun _ => lit "example.com")
    (a := [])).tail (.create (addressSet (lit "one") [lit "API"]) (hvalid _ _ (by decide))
      (by decide) (by decide +kernel))
  have h₂ := h₁.tail (.create (addressSet (lit "two") [lit "www"]) (hvalid _ _ (by decide))
      (by decide) (by decide +kernel))
  have h₃ : Relation.ReflTransGen (AdmissionStep .ascii fun _ => lit "example.com") []
      [addressSet (lit "two") [lit "mail.example.com."], addressSet (lit "one") [lit "API"]] :=
    h₂.tail (.update (addressSet (lit "two") [lit "www"])
      (addressSet (lit "two") [lit "mail.example.com."]) (mem_cons_self ..) rfl rfl
      (hvalid _ _ (by decide)) (by decide +kernel))
  have hempty : Consistent .ascii (fun _ => lit "example.com") [] := ⟨nodup_nil, by simp⟩
  exact ⟨h₃, admitted_names_unique hempty h₃ _ (by simp) _ (by simp) (by decide) rfl rfl rfl rfl⟩

end InternalDNS.Webhook
