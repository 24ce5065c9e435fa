import InternalDNS.Externals

/-! # Publication plans

The records of a zone as the control plane publishes them.  `PublicationPlan.validate` is
run by the control plane before it publishes and by every agent before it serves, and it
checks rules that no single record can break: names inside the zone, at most one CNAME and
nothing beside it at a name, every (name, type) once, every contributed record at the fence
the plan gives for its contribution.
-/
namespace InternalDNS

open Go List GoMap Except Option

variable (E : Externals)

section

variable (apex : GoString) (observations : GoMap GoString ObservationFence)

/-- `model.OwnershipMarkerType`. -/
def ownershipMarkerType : GoString := lit "TYPE65280"

/-- `model.ValidatePrivateRecordOwner`. -/
def validatePrivateRecordOwner (owner apex recordType : GoString) : Except GoString Unit := do
  let owner := trimSpace owner
  failIf (equalFold recordType ownershipMarkerType)
    (lit "private DNS ownership metadata is service-owned")
  failIf (equalFold recordType (lit "ALIAS"))
    (lit "private DNS does not support ALIAS flattening")
  failIf (equalFold recordType (lit "SOA"))
    (lit "private zone SOA records are managed by the DNS service")
  failIf (equalFold recordType (lit "CNAME") ∧
      (owner = [] ∨ owner = ['@'] ∨ absoluteName E.cases owner = absoluteName E.cases apex))
    (lit "a private zone apex cannot be a CNAME")

/-- One registration fence; the accumulator is the UID before it, empty at first. -/
def validateRegistration (previous : GoString) (registration : RegistrationFence) :
    Except GoString GoString := do
  failIf (registration.uid = [] ∨ registration.generation = 0)
    (lit "publication registration fence is incomplete")
  failIf (previous ≠ [] ∧ registration.uid ≤ previous)
    (lit "publication registration fences must be unique and sorted by UID")
  .ok registration.uid

/-- One observation fence; the accumulator is the UID before it and the fences by UID. -/
def validateObservation (acc : GoString × GoMap GoString ObservationFence)
    (observation : ObservationFence) : Except GoString (GoString × GoMap GoString ObservationFence) := do
  failIf (observation.contributionUID = [] ∨ observation.generation = 0 ∨ observation.sequence = 0)
    (lit "publication observation fence is incomplete")
  failIf (acc.1 ≠ [] ∧ observation.contributionUID ≤ acc.1)
    (lit "publication observation fences must be unique and sorted by contribution UID")
  .ok (observation.contributionUID, acc.2.insert observation.contributionUID observation)

/-- The name is valid and inside the zone. -/
def insideZone (owner : GoString) : Bool :=
  E.dns.isDomainName owner && E.dns.isSubDomain apex owner

/-- The line that the DNS library must parse for a record. -/
def recordLine (owner : GoString) (ttl : Nat) (rrType content : GoString) : GoString :=
  owner ++ [' '] ++ itoa ttl ++ lit " IN " ++ rrType ++ [' '] ++ content

/-- The fence a record carries: none for a static record, that of its contribution otherwise. -/
def validateRecordFence (key : GoString) (rec : RRRecord) : Except GoString Unit :=
  if rec.contributionUID = [] then
    failIf (rec.generation ≠ 0 ∨ rec.sequence ≠ 0)
      (lit "RRset " ++ quoted key ++ lit " static record contains contribution fence data")
  else
    failIf (¬ (observations.lookup rec.contributionUID).any fun o =>
        !o.retired && rec.generation = o.generation && rec.sequence = o.sequence)
      (lit "RRset " ++ quoted key ++ lit " record fence does not match contribution observation " ++
        quoted rec.contributionUID)

/-- One record of an RRset. -/
def validateRecord (owner rrType key : GoString) (ttl : Nat) (rec : RRRecord) :
    Except GoString Unit := do
  failIf (rec.content = []) (lit "RRset " ++ quoted key ++ lit " contains an invalid record")
  validateRecordFence observations key rec
  failIf (E.dns.newRR (recordLine owner ttl rrType rec.content) = none)
    (lit "RRset " ++ quoted key ++ lit " contains invalid RDATA")

/-- The canonical owner and type of an RRset. -/
def RRSet.owner (rr : RRSet) : GoString := toLower E.cases (absoluteName E.cases rr.name)

def RRSet.rrType (rr : RRSet) : GoString := toUpper E.cases rr.type

def RRSet.key (rr : RRSet) : GoString := rr.owner E ++ ['\x00'] ++ rr.rrType E

/-- One RRset; the accumulator is the keys before it and the type last seen at each owner. -/
def validateRRSet (acc : List GoString × GoMap GoString GoString) (rr : RRSet) :
    Except GoString (List GoString × GoMap GoString GoString) := do
  let owner := rr.owner E
  let rrType := rr.rrType E
  let key := rr.key E
  validatePrivateRecordOwner E owner apex rrType
  failIf ((acc.2.lookup owner).any fun other =>
      other ≠ [] && (other = lit "CNAME" || rrType = lit "CNAME"))
    (lit "CNAME cannot coexist with other records at " ++ owner)
  failIf (rrType = lit "CNAME" ∧ rr.records.length ≠ 1)
    (lit "CNAME at " ++ owner ++ lit " must contain one target")
  failIf (rr.records = [] ∨ rr.type = []) (lit "RRset " ++ quoted key ++ lit " is incomplete")
  failIf (¬ insideZone E apex owner)
    (lit "RRset owner " ++ quoted owner ++ lit " is outside zone " ++ quoted apex)
  failIf (¬ E.dns.knownType rrType)
    (lit "RRset " ++ quoted owner ++ lit " has unsupported type " ++ quoted rr.type)
  failIf (key ∈ acc.1) (lit "duplicate RRset " ++ quoted key)
  forEach (validateRecord E observations owner rrType key rr.ttl) rr.records
  .ok (key :: acc.1, acc.2.insert owner rrType)

end

/-- `PublicationPlan.Validate`. -/
def PublicationPlan.validate (p : PublicationPlan) : Except GoString Unit := do
  let apex := absoluteName E.cases p.apex
  failIf (p.zoneUID = [] ∨ apex = ['.']) (lit "publication plan zone identity is required")
  failIf (¬ E.dns.isDomainName apex) (lit "publication plan apex is invalid")
  let _ ← loop validateRegistration [] p.registrations
  let (_, observations) ← loop validateObservation ([], ∅) p.observationFences
  forEach (fun owner =>
    failIf (¬ insideZone E apex (absoluteName E.cases owner))
      (lit "owned name " ++ quoted (absoluteName E.cases owner) ++ lit " is outside zone " ++
        quoted apex)) p.owners
  let _ ← loop (validateRRSet E apex observations) ([], ∅) p.rrsets
  .ok ()

/-! ## What a valid plan is -/

/-- The fence of a record matches the observation fences of the plan. -/
def RRRecord.FenceMatches (observations : List ObservationFence) (rec : RRRecord) : Prop :=
  (rec.contributionUID = [] → rec.generation = 0 ∧ rec.sequence = 0) ∧
    (rec.contributionUID ≠ [] → ∃ o ∈ observations, o.contributionUID = rec.contributionUID ∧
      o.retired = false ∧ rec.generation = o.generation ∧ rec.sequence = o.sequence)

/-- The rules one RRset has to meet on its own. -/
structure RRSet.Valid (E : Externals) (apex : GoString) (observations : List ObservationFence)
    (rr : RRSet) : Prop where
  owner : validatePrivateRecordOwner E (rr.owner E) apex (rr.rrType E) = .ok ()
  oneTarget : rr.rrType E = lit "CNAME" → rr.records.length = 1
  nonempty : rr.records ≠ []
  typed : rr.type ≠ []
  inside : insideZone E apex (rr.owner E) = true
  knownType : E.dns.knownType (rr.rrType E) = true
  contents : ∀ rec ∈ rr.records, rec.content ≠ []
  fences : ∀ rec ∈ rr.records, rec.FenceMatches observations
  parses : ∀ rec ∈ rr.records,
    (E.dns.newRR (recordLine (rr.owner E) rr.ttl (rr.rrType E) rec.content)).isSome

/-- No CNAME stands beside another RRset at its owner. -/
def RRSet.Coexist (E : Externals) (a b : RRSet) : Prop :=
  a.owner E = b.owner E → a.rrType E ≠ lit "CNAME" ∧ b.rrType E ≠ lit "CNAME"

/-- The rules of a plan. -/
structure PublicationPlan.Valid (E : Externals) (p : PublicationPlan) : Prop where
  zoneUID : p.zoneUID ≠ []
  apexNotRoot : absoluteName E.cases p.apex ≠ ['.']
  apexValid : E.dns.isDomainName (absoluteName E.cases p.apex) = true
  registrations : ∀ r ∈ p.registrations, r.uid ≠ [] ∧ r.generation ≠ 0
  registrationsSorted : (p.registrations.map RegistrationFence.uid).Pairwise (· < ·)
  observations : ∀ o ∈ p.observationFences,
    o.contributionUID ≠ [] ∧ o.generation ≠ 0 ∧ o.sequence ≠ 0
  observationsSorted : (p.observationFences.map ObservationFence.contributionUID).Pairwise (· < ·)
  owners : ∀ owner ∈ p.owners,
    insideZone E (absoluteName E.cases p.apex) (absoluteName E.cases owner) = true
  rrsets : ∀ rr ∈ p.rrsets, rr.Valid E (absoluteName E.cases p.apex) p.observationFences
  keys : (p.rrsets.map (RRSet.key E)).Nodup
  cnames : p.rrsets.Pairwise (RRSet.Coexist E)

section Spec

variable {E} {os : List ObservationFence} {observations : GoMap GoString ObservationFence}

/-- A loop that accepts complete elements in strictly increasing order of their keys. -/
theorem sorted_loop {α σ : Type} {f : σ → α → Except GoString σ} (key : α → GoString)
    (last : σ → GoString) {complete : α → Prop} {next : σ → α → σ}
    (hkey : ∀ x, complete x → key x ≠ []) (hlast : ∀ s x, last (next s x) = key x)
    (hf : ∀ s x out, f s x = .ok out ↔
      (complete x ∧ ¬ (last s ≠ [] ∧ key x ≤ last s)) ∧ out = next s x)
    {s out : σ} (hs : last s = []) {xs : List α} :
    loop f s xs = .ok out ↔
      ((∀ x ∈ xs, complete x) ∧ (xs.map key).Pairwise (· < ·)) ∧ out = xs.foldl next s := by
  have hfold : ∀ done : List α, last (done.foldl next s) = (done.getLast?.map key).getD [] := by
    intro done
    cases done using List.reverseRecOn with
    | nil => simpa using hs
    | append_singleton done x => simp [hlast]
  rw [loop_eq_ok_iff hf]
  refine and_congr_left fun _ => ⟨fun h => ?_, fun ⟨hall, hsorted⟩ done x rest hxs => ?_⟩
  · have hall : ∀ x ∈ xs, complete x := by
      intro x hx
      obtain ⟨done, rest, hxs⟩ := append_of_mem hx
      exact (h done x rest hxs).1
    refine ⟨hall, pairwise_map.mpr ?_⟩
    refine pairwise_of_prefix_getLast (fun {a b c : α} (h1 : key a < key b) (h2 : key b < key c) =>
      lt_trans h1 h2) fun done x rest hxs y hy => ?_
    have hnot := (h done x rest hxs).2
    have hymem : y ∈ xs := by
      rw [hxs]
      exact mem_append_left _ (mem_of_getLast? hy)
    rw [hfold, hy] at hnot
    simp only [map_some, getD_some, not_and, not_le] at hnot
    exact hnot (hkey y (hall y hymem))
  · refine ⟨hall x (by rw [hxs]; simp), ?_⟩
    rw [hfold]
    rintro ⟨hne, hle⟩
    cases hlast' : done.getLast? with
    | none => simp [hlast'] at hne
    | some y =>
      rw [hxs, map_append, map_cons, pairwise_append] at hsorted
      have hlt : key y < key x :=
        hsorted.2.2 _ (mem_map.mpr ⟨y, mem_of_getLast? hlast', rfl⟩) _ (by simp)
      simp only [hlast', map_some, getD_some] at hle
      exact absurd hlt (not_lt.mpr hle)

theorem validateRegistrations_eq_ok {rs : List RegistrationFence} :
    (∃ out, loop validateRegistration [] rs = .ok out) ↔
      (∀ r ∈ rs, r.uid ≠ [] ∧ r.generation ≠ 0) ∧
        (rs.map RegistrationFence.uid).Pairwise (· < ·) := by
  have hstep : ∀ (previous : GoString) (r : RegistrationFence) (out : GoString),
      validateRegistration previous r = .ok out ↔
        ((r.uid ≠ [] ∧ r.generation ≠ 0) ∧ ¬ (previous ≠ [] ∧ r.uid ≤ previous)) ∧ out = r.uid := by
    intro previous r out
    simp only [validateRegistration, bind_eq_ok, failIf_eq_ok, not_or]
    constructor
    · rintro ⟨-, hc, -, hs, ho⟩
      exact ⟨⟨hc, hs⟩, (ok.inj ho).symm⟩
    · rintro ⟨⟨hc, hs⟩, rfl⟩
      exact ⟨(), hc, (), hs, rfl⟩
  have h : ∀ out, loop validateRegistration [] rs = .ok out ↔
      ((∀ r ∈ rs, r.uid ≠ [] ∧ r.generation ≠ 0) ∧
        (rs.map RegistrationFence.uid).Pairwise (· < ·)) ∧
      out = rs.foldl (fun _ r => r.uid) [] := fun out =>
    sorted_loop RegistrationFence.uid (fun previous : GoString => previous) (fun _ hc => hc.1)
      (fun _ _ => rfl) hstep rfl
  refine ⟨?_, fun hv => ⟨_, (h _).mpr ⟨hv, rfl⟩⟩⟩
  rintro ⟨out, hout⟩
  exact ((h out).mp hout).1

theorem validateObservations_eq_ok {out : GoString × GoMap GoString ObservationFence} :
    loop validateObservation ([], ∅) os = .ok out ↔
      ((∀ o ∈ os, o.contributionUID ≠ [] ∧ o.generation ≠ 0 ∧ o.sequence ≠ 0) ∧
        (os.map ObservationFence.contributionUID).Pairwise (· < ·)) ∧
      out = os.foldl (fun acc o => (o.contributionUID, acc.2.insert o.contributionUID o)) ([], ∅) := by
  refine sorted_loop ObservationFence.contributionUID
    (fun acc : GoString × GoMap GoString ObservationFence => acc.1)
    (fun _ hc => hc.1) (fun _ _ => rfl) (fun acc o out => ?_) rfl
  simp only [validateObservation, bind_eq_ok, failIf_eq_ok, not_or]
  constructor
  · rintro ⟨-, hc, -, hs, ho⟩
    exact ⟨⟨hc, hs⟩, (ok.inj ho).symm⟩
  · rintro ⟨⟨hc, hs⟩, rfl⟩
    exact ⟨(), hc, (), hs, rfl⟩

/-- In a list with distinct UIDs the map finds exactly the fence of each UID. -/
theorem lookup_observations {uid : GoString} {o : ObservationFence}
    (hsorted : (os.map ObservationFence.contributionUID).Pairwise (· < ·)) :
    (os.foldl (fun (acc : GoString × GoMap GoString ObservationFence) o =>
      (o.contributionUID, acc.2.insert o.contributionUID o)) ([], ∅)).2.lookup uid = some o ↔
      o ∈ os ∧ o.contributionUID = uid := by
  have hsnd : os.foldl (fun m o => m.insert o.contributionUID o) (∅ : GoMap GoString ObservationFence) =
      (os.foldl (fun (acc : GoString × GoMap GoString ObservationFence) o =>
        (o.contributionUID, acc.2.insert o.contributionUID o)) ([], ∅)).2 :=
    @foldl_hom _ _ _ Prod.snd _ _ os ([], ∅) fun _ _ => rfl
  rw [← hsnd]
  exact (lookup_fill_iff (hsorted.imp ne_of_lt)).trans (by simp [eq_comm])

section

variable (hos : ∀ uid o, observations.lookup uid = some o ↔ o ∈ os ∧ o.contributionUID = uid)
include hos

theorem validateRecordFence_eq_ok {key : GoString} {rec : RRRecord} {u : Unit} :
    validateRecordFence observations key rec = .ok u ↔ rec.FenceMatches os := by
  unfold validateRecordFence RRRecord.FenceMatches
  by_cases hstatic : rec.contributionUID = []
  · simp [hstatic]
  · simp only [hstatic, if_false, failIf_eq_ok, not_not, false_imp_iff, true_and, ne_eq,
      not_false_eq_true, true_imp_iff, Option.any_eq_true, hos]
    constructor
    · rintro ⟨o, ⟨ho, huid⟩, hmatch⟩
      simp only [Bool.and_eq_true, Bool.not_eq_true', decide_eq_true_eq] at hmatch
      exact ⟨o, ho, huid, hmatch.1.1, hmatch.1.2, hmatch.2⟩
    · rintro ⟨o, ho, huid, hr, hg, hs⟩
      exact ⟨o, ⟨ho, huid⟩, by simp [hr, hg, hs]⟩

/-- What an accepted RRset means, given the keys and types already seen. -/
theorem validateRRSet_eq_ok {apex : GoString} (acc : List GoString × GoMap GoString GoString)
    (rr : RRSet) (out : List GoString × GoMap GoString GoString) :
    validateRRSet E apex observations acc rr = .ok out ↔
      (rr.Valid E apex os ∧ rr.key E ∉ acc.1 ∧
        ∀ other, acc.2.lookup (rr.owner E) = some other → other ≠ [] →
          other ≠ lit "CNAME" ∧ rr.rrType E ≠ lit "CNAME") ∧
      out = (rr.key E :: acc.1, acc.2.insert (rr.owner E) (rr.rrType E)) := by
  simp only [validateRRSet, validateRecord, bind_eq_ok, failIf_eq_ok, forEach_eq_ok,
    validateRecordFence_eq_ok hos]
  constructor
  · rintro ⟨⟨⟩, hown, ⟨⟩, hcname, ⟨⟩, hone, ⟨⟩, hne, ⟨⟩, hin, ⟨⟩, hknown, ⟨⟩, hkey, ⟨⟩, hrecs, hout⟩
    simp only [not_or] at hne
    refine ⟨⟨⟨hown, fun hc => ?_, hne.1, hne.2, ?_, ?_, fun rec hrec => ?_, fun rec hrec => ?_,
      fun rec hrec => ?_⟩, hkey, fun other hother hnonempty => ?_⟩, (ok.inj hout).symm⟩
    · exact not_not.mp fun hlen => hone ⟨hc, hlen⟩
    · exact not_not.mp hin
    · exact not_not.mp hknown
    · obtain ⟨⟨⟩, hcontent, -⟩ := hrecs rec hrec
      exact hcontent
    · obtain ⟨⟨⟩, -, ⟨⟩, hfence, -⟩ := hrecs rec hrec
      exact hfence
    · obtain ⟨⟨⟩, -, ⟨⟩, -, hparse⟩ := hrecs rec hrec
      exact Option.ne_none_iff_isSome.mp hparse
    · rw [hother] at hcname
      simpa [hnonempty] using hcname
  · rintro ⟨⟨hv, hkey, hcname⟩, rfl⟩
    refine ⟨(), hv.owner, (), ?_, (), ?_, (), ?_, (), ?_, (), ?_, (), hkey, (), fun rec hrec => ?_, rfl⟩
    · rw [Option.any_eq_true]
      rintro ⟨other, hother, hbad⟩
      simp only [ne_eq, decide_not, Bool.and_eq_true, Bool.not_eq_true', decide_eq_false_iff_not,
        Bool.or_eq_true, decide_eq_true_eq] at hbad
      obtain ⟨h1, h2⟩ := hcname other hother hbad.1
      exact hbad.2.elim h1 h2
    · exact fun h => h.2 (hv.oneTarget h.1)
    · exact fun h => h.elim hv.nonempty hv.typed
    · exact not_not.mpr hv.inside
    · exact not_not.mpr hv.knownType
    · exact ⟨(), hv.contents rec hrec, (), hv.fences rec hrec,
        Option.ne_none_iff_isSome.mpr (hv.parses rec hrec)⟩

end

/-- The accumulator of the loop over the RRsets: the keys seen, and the last type of each owner. -/
theorem foldl_seenRRSets (rrs : List RRSet) :
    rrs.foldl (fun acc rr => (rr.key E :: acc.1, acc.2.insert (rr.owner E) (rr.rrType E))) ([], ∅) =
      ((rrs.map (RRSet.key E)).reverse,
        GoMap.lastUse (fun rr => [rr.owner E]) (RRSet.rrType E) rrs) := by
  induction rrs using List.reverseRecOn with
  | nil => rfl
  | append_singleton rrs x ih =>
    rw [foldl_append, ih, lastUse_concat]
    simp [noteUse]

theorem rrType_ne_nil {rr : RRSet} (h : rr.type ≠ []) : rr.rrType E ≠ [] := by
  simpa [RRSet.rrType, toUpper] using h

/-- The loop over the RRsets: each is valid, no (owner, type) repeats, and no CNAME has company. -/
theorem validateRRSets_eq_ok
    (hos : ∀ uid o, observations.lookup uid = some o ↔ o ∈ os ∧ o.contributionUID = uid)
    {apex : GoString} {rrs : List RRSet} :
    (∃ out, loop (validateRRSet E apex observations) ([], ∅) rrs = .ok out) ↔
      (∀ rr ∈ rrs, rr.Valid E apex os) ∧ (rrs.map (RRSet.key E)).Nodup ∧
        rrs.Pairwise (RRSet.Coexist E) := by
  have hcname : (∀ done x rest, rrs = done ++ x :: rest → ∀ k ∈ [x.owner E], ∀ other,
      (lastUse (fun rr => [rr.owner E]) (RRSet.rrType E) done).lookup k = some other →
        other ≠ lit "CNAME" ∧ x.rrType E ≠ lit "CNAME") ↔ rrs.Pairwise (RRSet.Coexist E) := by
    refine (forall_lastUse_iff_pairwise (fun rr => [rr.owner E]) (RRSet.rrType E)
      (R := fun other x => other ≠ lit "CNAME" ∧ x.rrType E ≠ lit "CNAME")
      (fun _ _ _ hab hbc => ⟨hab.1, hbc.2⟩) _).trans ?_
    refine List.Pairwise.iff fun a b => ?_
    simp [RRSet.Coexist]
  rw [loop_accepts_iff (validateRRSet_eq_ok hos)]
  simp only [foldl_seenRRSets, mem_reverse]
  constructor
  · intro h
    have hvalid := forall_split_mem.mp fun done x rest hxs => (h done x rest hxs).1
    refine ⟨hvalid, forall_split_fresh.mp fun done x rest hxs => (h done x rest hxs).2.1,
      hcname.mp fun done x rest hxs k hk other hother => ?_⟩
    obtain rfl := mem_singleton.mp hk
    -- the remembered type belongs to an RRset of the plan, so it is not empty
    obtain ⟨before, rr, after, hdone, -, rfl, -⟩ := lookup_lastUse_some hother
    have hrr : rr ∈ rrs := by simp [hxs, hdone]
    exact (h done x rest hxs).2.2 _ hother (rrType_ne_nil (hvalid rr hrr).typed)
  · rintro ⟨hvalid, hnodup, hpair⟩ done x rest hxs
    exact ⟨hvalid x (by simp [hxs]), forall_split_fresh.mpr hnodup done x rest hxs,
      fun other hother _ => hcname.mpr hpair done x rest hxs _ (by simp) other hother⟩

/-- **Valid plans.**  `PublicationPlan.validate` accepts exactly the plans that meet the rules. -/
theorem PublicationPlan.validate_eq_ok {p : PublicationPlan} :
    p.validate E = .ok () ↔ p.Valid E := by
  unfold PublicationPlan.validate
  simp only [bind_eq_ok, failIf_eq_ok, forEach_eq_ok, not_or]
  constructor
  · rintro ⟨⟨⟩, ⟨huid, hroot⟩, ⟨⟩, hapex, reg, hreg, ⟨last, observations⟩, hobs, ⟨⟩, howners,
      rrs, hrrs, -⟩
    obtain ⟨⟨hocomplete, hosorted⟩, hmap⟩ := validateObservations_eq_ok.mp hobs
    obtain ⟨hrcomplete, hrsorted⟩ := validateRegistrations_eq_ok.mp ⟨reg, hreg⟩
    have hos : ∀ uid o, observations.lookup uid = some o ↔
        o ∈ p.observationFences ∧ o.contributionUID = uid := by
      intro uid o
      rw [← lookup_observations hosorted, ← hmap]
    obtain ⟨hvalid, hkeys, hcnames⟩ := (validateRRSets_eq_ok hos).mp ⟨rrs, hrrs⟩
    exact ⟨huid, hroot, not_not.mp hapex, hrcomplete, hrsorted, hocomplete, hosorted,
      fun owner ho => not_not.mp (howners owner ho), hvalid, hkeys, hcnames⟩
  · intro hp
    obtain ⟨reg, hreg⟩ := validateRegistrations_eq_ok.mpr ⟨hp.registrations, hp.registrationsSorted⟩
    have hobs := validateObservations_eq_ok.mpr ⟨⟨hp.observations, hp.observationsSorted⟩, rfl⟩
    obtain ⟨rrs, hrrs⟩ := (validateRRSets_eq_ok (fun uid o =>
      lookup_observations hp.observationsSorted)).mpr ⟨hp.rrsets, hp.keys, hp.cnames⟩
    exact ⟨(), ⟨hp.zoneUID, hp.apexNotRoot⟩, (), not_not.mpr hp.apexValid, reg, hreg, _, hobs, (),
      fun owner ho => not_not.mpr (hp.owners owner ho), rrs, hrrs, trivial⟩

end Spec

end InternalDNS
