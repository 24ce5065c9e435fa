import InternalDNS.PowerDNSZone

/-! # Records that are no longer wanted

A record that was taken out of a record set is deleted by `EnsureRecordSet`, in a PATCH of deletes
alone.  If PowerDNS does not carry out that PATCH, the call only logs it: the record stays, and the
statuses say that everything is programmed.
-/
namespace InternalDNS.Pdns

open Go OwnerName List GoMap

variable {U : CaseMap} {server : Server} {s : Session} {today zoneName : GoString} {now : Int}
  {zone : ZoneContent} {rs : RecordSet} {key : RRKey}

/-! ## Chunks of deletes -/

theorem chunksOf_flatten {α : Type} {size : Nat} (hsize : 0 < size) :
    ∀ (rounds : Nat) (l : List α), l.length ≤ rounds → (chunksOf size rounds l).flatten = l := by
  intro rounds
  induction rounds with
  | zero =>
    intro l hl
    rw [eq_nil_of_length_eq_zero (Nat.le_zero.mp hl)]
    rfl
  | succ rounds ih =>
    intro l hl
    rw [chunksOf]
    split_ifs with hnil
    · rw [hnil, flatten_nil]
    · have hpos : 0 < l.length := length_pos_iff.mpr hnil
      have hdrop : (l.drop size).length ≤ rounds := by
        rw [length_drop]
        omega
      rw [flatten_cons, ih _ hdrop, take_append_drop]

theorem chunkRRSets_flatten {α : Type} (l : List α) : (chunkRRSets l).flatten = l :=
  chunksOf_flatten (by decide) l.length l (Nat.le_refl _)

theorem chunksOf_ne_nil {α : Type} {size rounds : Nat} (hsize : 0 < size) {l chunk : List α}
    (h : chunk ∈ chunksOf size rounds l) : chunk ≠ [] := by
  induction rounds generalizing l with
  | zero => cases h
  | succ rounds ih =>
    rw [chunksOf] at h
    split_ifs at h with hnil
    · cases h
    · rcases mem_cons.mp h with rfl | h
      · rw [Ne, take_eq_nil_iff]
        exact fun hor => hor.elim (Nat.ne_of_gt hsize) hnil
      · exact ih h

/-- A patch of deletes is sent in one request. -/
theorem sent_deletes {patch : List Change} (hne : patch ≠ [])
    (hdelete : ∀ c ∈ patch, c.changeType = .delete) :
    ∃ r, (applyRRSetPatch U server s patch).1.sent = s.sent ++ [r] ∧ SentFor U patch r.changes := by
  have hsorted : ∀ c ∈ sortRRSets patch, c.changeType = .delete :=
    fun c hc => hdelete c ((sortRRSets_perm patch).mem_iff.mp hc)
  have hreplaced : (sortRRSets patch).filter (·.changeType = .replace) = [] :=
    filter_eq_nil_iff.mpr fun c hc => by simp [hsorted c hc]
  obtain ⟨changes, hok⟩ : ∃ changes, clearCommentsBehindDeletes U (sortRRSets patch) = .ok changes := by
    have hnone : (sortRRSets patch).find? (fun c => decide (c.changeType = .delete ∧
        patchIdentity U c ∈ ([] : List RRKey))) = none := List.find?_eq_none.mpr (by simp)
    simp only [clearCommentsBehindDeletes, hreplaced, map_nil, hnone]
    exact ⟨_, rfl⟩
  refine ⟨⟨changes, (server s.sent.length).applied⟩, ?_, hok⟩
  simp [applyRRSetPatch, hne, hok]

/-- The chunks of deletes are sent one by one. -/
theorem applyDeletes_sent {chunks : List (List Change)}
    (hchunks : ∀ chunk ∈ chunks, chunk ≠ [] ∧ ∀ c ∈ chunk, c.changeType = .delete) :
    ∃ requests, (applyDeletes U server s chunks).sent = s.sent ++ requests ∧
      List.Forall₂ (fun chunk r => SentFor U chunk r.changes) chunks requests := by
  induction chunks generalizing s with
  | nil => exact ⟨[], by simp [applyDeletes], .nil⟩
  | cons chunk rest ih =>
    obtain ⟨hne, hdelete⟩ := hchunks chunk mem_cons_self
    obtain ⟨r, hr, hfor⟩ : ∃ r, (applyRRSetPatch U server s chunk).1.sent = s.sent ++ [r] ∧
        SentFor U chunk r.changes := sent_deletes hne hdelete
    obtain ⟨requests, hrequests, hfors⟩ : ∃ requests,
        (applyDeletes U server (applyRRSetPatch U server s chunk).1 rest).sent =
          (applyRRSetPatch U server s chunk).1.sent ++ requests ∧
        List.Forall₂ (fun chunk r => SentFor U chunk r.changes) rest requests :=
      ih fun later hlater => hchunks later (mem_cons_of_mem _ hlater)
    refine ⟨r :: requests, ?_, .cons hfor hfors⟩
    rw [show applyDeletes U server s (chunk :: rest) =
      applyDeletes U server (applyRRSetPatch U server s chunk).1 rest from rfl, hrequests, hr,
      append_assoc, singleton_append]

/-- A delete that stands in two requests for chunks without common deletes stands in one. -/
theorem eq_of_common_delete {chunks : List (List Change)} {requests : List Sent}
    (hfor : List.Forall₂ (fun chunk r => SentFor U chunk r.changes) chunks requests)
    (hdisjoint : chunks.Pairwise List.Disjoint) {c : Change} (hdelete : c.changeType = .delete)
    {r r' : Sent} (hr : r ∈ requests) (hr' : r' ∈ requests) (hc : c ∈ r.changes)
    (hc' : c ∈ r'.changes) : r = r' := by
  induction hfor with
  | nil => cases hr
  | @cons chunk first chunks requests hfirst hrest ih =>
    obtain ⟨hapart, hpairwise⟩ := pairwise_cons.mp hdisjoint
    -- a request of the rest that has the delete has it from another chunk
    have hother : ∀ r ∈ requests, c ∈ r.changes → c ∉ chunk := by
      intro r hr hc hchunk
      obtain ⟨later, hlater, hsent⟩ : ∃ later ∈ chunks, SentFor U later r.changes := by
        obtain ⟨i, hi, rfl⟩ := mem_iff_getElem.mp hr
        have hlen := hrest.length_eq
        exact ⟨chunks[i], getElem_mem _, hrest.get (by omega) hi⟩
      exact hapart later hlater hchunk (hsent.delete_mem hc hdelete)
    rcases mem_cons.mp hr with rfl | hmem
    · rcases mem_cons.mp hr' with rfl | hmem'
      · rfl
      · exact absurd (hfirst.delete_mem hc hdelete) (hother r' hmem' hc')
    · rcases mem_cons.mp hr' with rfl | hmem'
      · exact absurd (hfirst.delete_mem hc' hdelete) (hother r hmem hc)
      · exact ih hpairwise hmem hmem'

/-! ## The plan -/

section Plan

variable {owner : GoString}

/-- The entries of an owner name. -/
theorem group_of_mem (h : owner ∈ (GoMap.group (·.name) rs.records).keys) :
    ((GoMap.group (·.name) rs.records).lookup owner).getD [] =
        rs.records.filter (fun e => e.name = owner) ∧
      (rs.records.filter fun e => e.name = owner) ≠ [] := by
  have hgroup : ((group (·.name) rs.records).lookup owner).getD [] =
      rs.records.filter (fun e => e.name = owner) := lookup_group rs.records owner
  refine ⟨hgroup, ?_⟩
  obtain ⟨entries, hentries⟩ := Option.isSome_iff_exists.mp
    (AList.lookup_isSome.mpr (AList.mem_keys.mpr h))
  rw [← hgroup, hentries]
  exact group_ne_nil hentries

/-- Every owner name can be built. -/
theorem decideOwner_ne_unbuilt (h : owner ∈ (GoMap.group (·.name) rs.records).keys) :
    decideOwner U today now zoneName zone rs owner ≠ .unbuilt := by
  obtain ⟨hgroup, hne⟩ := group_of_mem h
  obtain ⟨ttl, hbuilt⟩ : ∃ ttl, buildOwnerRRSet U today zoneName rs.recordType owner
      (rs.records.filter fun e => e.name = owner) = some ⟨qualify U owner zoneName, ttl, _⟩ :=
    buildOwnerRRSet_spec hne fun e he => by simpa using of_mem_filter he
  simp only [decideOwner, hgroup, hbuilt]
  split
  · nofun
  · split_ifs <;> nofun

theorem mem_owners : owner ∈ (GoMap.group (·.name) rs.records).keys ↔
    ∃ e ∈ rs.records, e.name = owner := by
  constructor
  · intro h
    obtain ⟨e, he⟩ := exists_mem_of_ne_nil _ (group_of_mem h).2
    exact ⟨e, mem_of_mem_filter he, by simpa using of_mem_filter he⟩
  · rintro ⟨e, he, rfl⟩
    have hgroup : (group (·.name) rs.records).lookup e.name = some _ :=
      lookup_group_of_mem he
    rw [← AList.mem_keys, ← AList.lookup_isSome, hgroup]
    rfl

/-- A name that no entry of the record set stands for. -/
def Outside (U : CaseMap) (zoneName : GoString) (rs : RecordSet) (name : GoString) : Prop :=
  ∀ e ∈ rs.records, qualify U e.name zoneName ≠ name

/-- Nothing is written outside. -/
theorem replace_name {c : Change}
    (h : (owner, c) ∈ (ensurePlan U today now zoneName zone rs).replaces) :
    ¬ Outside U zoneName rs c.name := by
  obtain ⟨howner, hdecide⟩ := mem_replaces h
  obtain ⟨built, values, comments, -, -, rfl⟩ := decideOwner_eq_replace hdecide
  obtain ⟨e, he, rfl⟩ := mem_owners.mp howner
  exact fun houtside => houtside e he rfl

theorem newDeleteRRSet_injective : Function.Injective newDeleteRRSet := by
  rintro ⟨name, typ⟩ ⟨name', typ'⟩ h
  obtain ⟨rfl, rfl⟩ : name = name' ∧ typ = typ' :=
    ⟨congrArg Change.name h, congrArg Change.typ h⟩
  rfl

/-- The names that `EnsureRecordSet` wants are those that the entries stand for. -/
theorem mem_desired {name : GoString} :
    name ∈ ((ensurePlan U today now zoneName zone rs).decisions.filterMap fun (owner, d) =>
      match d with
      | .unbuilt => none
      | _ => some (qualify U owner zoneName)) ↔ ¬ Outside U zoneName rs name := by
  simp only [ensurePlan, filterMap_map, mem_filterMap, mem_insertionSort]
  constructor
  · rintro ⟨owner, howner, h⟩ houtside
    obtain ⟨e, he, rfl⟩ := mem_owners.mp howner
    simp only [Function.comp] at h
    split at h
    · cases h
    · exact houtside e he (Option.some.inj h)
  · intro h
    obtain ⟨e, he, rfl⟩ : ∃ e ∈ rs.records, qualify U e.name zoneName = name := by
      simpa [Outside] using h
    have howner := mem_owners.mpr ⟨e, he, rfl⟩
    refine ⟨e.name, howner, ?_⟩
    have hbuilt : decideOwner U today now zoneName zone rs e.name ≠ .unbuilt :=
      decideOwner_ne_unbuilt howner
    simp

/-- **The surplus of the record set's own type**: what it wrote outside its names. -/
theorem mem_surplus_own (htyp : key.typ = rs.recordType.text) :
    newDeleteRRSet key ∈ (ensurePlan U today now zoneName zone rs).surplus ↔
      (∃ rr, zone.lookup key = some rr ∧ rrsetOwnerRef rr = rs.ownerRef) ∧
        Outside U zoneName rs key.name := by
  have hmap : newDeleteRRSet key ∈ (ensurePlan U today now zoneName zone rs).surplus ↔
      key ∈ ownedSurplus zone rs.ownerRef rs.recordType.text
        ((ensurePlan U today now zoneName zone rs).decisions.filterMap fun (owner, d) =>
          match d with
          | .unbuilt => none
          | _ => some (qualify U owner zoneName)) :=
    mem_map_of_injective newDeleteRRSet_injective
  rw [hmap, ownedSurplus, mem_filter]
  simp only [Bool.and_eq_true, Option.any_eq_true, decide_eq_true_eq, htyp, Bool.and_true,
    Bool.not_eq_true', contains_eq_mem, decide_eq_false_iff_not, mem_desired, not_not, decide_true]
  constructor
  · rintro ⟨-, ⟨rr, hrr, howner⟩, houtside⟩
    exact ⟨⟨rr, hrr, howner⟩, houtside⟩
  · rintro ⟨⟨rr, hrr, howner⟩, houtside⟩
    refine ⟨?_, ⟨rr, hrr, howner⟩, houtside⟩
    rw [← AList.mem_keys, ← AList.lookup_isSome, hrr]
    rfl

theorem surplus_nodup : (ensurePlan U today now zoneName zone rs).surplus.Nodup :=
  ((zone.keys_nodup).filter _).map newDeleteRRSet_injective

theorem deletes_nodup : (ensurePlan U today now zoneName zone rs).deletes.Nodup :=
  (sortRRSets_perm _).nodup_iff.mpr (surplus_nodup.filter _)

end Plan

/-! ## What stays published -/

section Published

/-- The requests of a plan: those for the changes of owners, then one for each chunk of deletes that
travel alone. -/
structure SplitSent (U : CaseMap) (plan : Plan) (sent first requests : List Sent) : Prop where
  eq : sent = first ++ requests
  owners : ∀ r ∈ first, SentForSome U plan.changes r.changes
  deletes : List.Forall₂ (fun chunk r => SentFor U chunk r.changes) (chunkRRSets plan.deletes) requests

theorem ensureRecordSet_sent : ∃ first requests,
    SplitSent U (ensurePlan U today now zoneName zone rs)
      (ensureRecordSet U today now server zoneName zone rs).session.sent first requests := by
  have hchunks : ∀ chunk ∈ chunkRRSets (ensurePlan U today now zoneName zone rs).deletes,
      chunk ≠ [] ∧ ∀ c ∈ chunk, c.changeType = .delete := fun chunk hchunk =>
    ⟨chunksOf_ne_nil (by decide) hchunk, deletes_changeType (chunkRRSets_sublist hchunk)⟩
  obtain ⟨requests, hsent, hfor⟩ := applyDeletes_sent (U := U) hchunks
  refine ⟨_, requests, hsent, fun r hr => ?_, hfor⟩
  rcases sent_of_applyChunks hr with hr | ⟨chunk, hchunk, batch, hsub, hbatch⟩
  · cases hr
  · exact ⟨batch, hsub.trans (chunkRRSets_sublist hchunk), hbatch⟩

variable {changes : List Change}

section

variable (h : SentForSome U (ensurePlan U today now zoneName zone rs).changes changes)
include h

/-- A request for the changes of owners writes nothing outside, and deletes nothing outside. -/
theorem SentForSome.inside :
    ∃ patch, SentFor U patch changes ∧ ∀ c ∈ patch, ¬ Outside U zoneName rs c.name := by
  obtain ⟨batch, hsub, hfor⟩ := h
  refine ⟨_, hfor, fun c hc => ?_⟩
  obtain ⟨⟨owner, group⟩, hgroup, hmem⟩ := mem_flatMap.mp hc
  obtain ⟨rr, hrr, own, rfl, hown⟩ := mem_pairDeletes (hsub.subset hgroup)
  rcases mem_cons.mp hmem with rfl | hmem
  · exact replace_name hrr
  · rw [(hown c hmem).2]
    exact replace_name hrr

theorem SentForSome.not_outside {c : Change} (hc : c ∈ changes) (hdelete : c.changeType = .delete) :
    ¬ Outside U zoneName rs c.name := by
  obtain ⟨patch, hfor, hinside⟩ := h.inside
  exact hinside c (hfor.delete_mem hc hdelete)

end

/-- Nothing outside is written. -/
theorem unwritten_of_outside (houtside : Outside U zoneName rs key.name) :
    ∀ p ∈ (ensurePlan U today now zoneName zone rs).replaces, p.2.key ≠ key := by
  rintro ⟨owner, c⟩ hc hkey
  refine replace_name hc ?_
  rw [show c.name = key.name from congrArg RRKey.name hkey]
  exact houtside

/-- A zone has an RRset of the record set's type that the record set wrote, at a name outside. -/
def StalePublished (U : CaseMap) (zoneName : GoString) (rs : RecordSet) (zone : ZoneContent) : Prop :=
  ∃ key rr, zone.lookup key = some rr ∧ key.typ = rs.recordType.text ∧
    rrsetOwnerRef rr = rs.ownerRef ∧ Outside U zoneName rs key.name

/-- A request of deletes alone. -/
def DeletesOnly (changes : List Change) : Prop :=
  ∀ c ∈ changes, c.changeType = .delete ∨ c.commentsOnly = true

theorem SentFor.deletesOnly {patch changes : List Change} (h : SentFor U patch changes)
    (hdelete : ∀ c ∈ patch, c.changeType = .delete) : DeletesOnly changes := by
  intro c hc
  rw [h.eq_flatMap, mem_flatMap] at hc
  obtain ⟨d, hd, hc⟩ := hc
  rw [if_pos (hdelete d ((sortRRSets_perm patch).mem_iff.mp hd))] at hc
  rcases mem_cons.mp hc with rfl | hc
  · exact .inl (hdelete c ((sortRRSets_perm patch).mem_iff.mp hd))
  · rw [mem_singleton.mp hc]
    exact .inr rfl

/-- What was written outside is deleted by a request of deletes alone. -/
theorem SplitSent.exists_request {sent first requests : List Sent}
    (h : SplitSent U (ensurePlan U today now zoneName zone rs) sent first requests)
    (houtside : Outside U zoneName rs key.name)
    (hsurplus : newDeleteRRSet key ∈ (ensurePlan U today now zoneName zone rs).surplus) :
    ∃ r ∈ requests, DeletesOnly r.changes ∧ newDeleteRRSet key ∈ r.changes := by
  have hunpaired : newDeleteRRSet key ∈ (ensurePlan U today now zoneName zone rs).deletes := by
    rw [Plan.deletes, (sortRRSets_perm _).mem_iff, unpairedDeletes, mem_filter]
    refine ⟨hsurplus, ?_⟩
    simp only [Bool.not_eq_true', any_eq_false, decide_eq_true_eq]
    rintro ⟨owner, c⟩ hc hname
    exact replace_name hc (show Outside U zoneName rs c.name from hname ▸ houtside)
  rw [← chunkRRSets_flatten (ensurePlan U today now zoneName zone rs).deletes,
    mem_flatten] at hunpaired
  obtain ⟨chunk, hchunk, hmem⟩ := hunpaired
  obtain ⟨r, hr, hfor⟩ : ∃ r ∈ requests, SentFor U chunk r.changes := by
    obtain ⟨i, hi, rfl⟩ := mem_iff_getElem.mp hchunk
    have hlen := h.deletes.length_eq
    exact ⟨requests[i], getElem_mem _, h.deletes.get hi (by omega)⟩
  exact ⟨r, hr, hfor.deletesOnly (deletes_changeType (chunkRRSets_sublist hchunk)),
    hfor.mem_of_patch hmem⟩

/-- **What stays published.**  After `EnsureRecordSet`, the zone has no RRset of the record set's type
that the record set wrote and no longer wants, exactly if PowerDNS carried out every request of deletes
alone that deletes an RRset of that type.  What the call returns makes no difference. -/
theorem stale_gone_iff :
    ¬ StalePublished U zoneName rs
        (ensureRecordSet U today now server zoneName zone rs).session.zone ↔
      ∀ r ∈ (ensureRecordSet U today now server zoneName zone rs).session.sent,
        DeletesOnly r.changes →
        (∃ c ∈ r.changes, c.changeType = .delete ∧ c.typ = rs.recordType.text) →
          r.applied = true := by
  obtain ⟨first, requests, hsplit⟩ : ∃ first requests,
      SplitSent U (ensurePlan U today now zoneName zone rs)
        (ensureRecordSet U today now server zoneName zone rs).session.sent first requests :=
    ensureRecordSet_sent
  have hfate : ∀ key : RRKey, Outside U zoneName rs key.name →
      (ensureRecordSet U today now server zoneName zone rs).session.zone.lookup key =
        if ∃ r ∈ (ensureRecordSet U today now server zoneName zone rs).session.sent, r.applied = true ∧
          ∃ c ∈ r.changes, c.changeType = .delete ∧ c.key = key then none else zone.lookup key :=
    fun key houtside => lookup_unwritten (unwritten_of_outside houtside)
  have hsurplus : ∀ r ∈ (ensureRecordSet U today now server zoneName zone rs).session.sent,
      ∀ c ∈ r.changes, c.changeType = .delete →
        c ∈ (ensurePlan U today now zoneName zone rs).surplus := fun r hr c hc hdelete =>
    (delete_with_replace ensurePlan_wellTyped (sent_of_ensureRecordSet hr) hc hdelete).1
  have hlater : ∀ r ∈ (ensureRecordSet U today now server zoneName zone rs).session.sent,
      ∀ c ∈ r.changes, c.changeType = .delete → Outside U zoneName rs c.name → r ∈ requests := by
    intro r hr c hc hdelete houtside
    rw [hsplit.eq] at hr
    rcases mem_append.mp hr with hr | hr
    · exact absurd houtside ((hsplit.owners r hr).not_outside hc hdelete)
    · exact hr
  constructor
  · intro hgone r hr _ ⟨c, hc, hdelete, htyp⟩
    obtain ⟨key, -, rfl⟩ := mem_map.mp (hsurplus r hr c hc hdelete)
    obtain ⟨⟨rr, hrr, howner⟩, houtside⟩ := (mem_surplus_own htyp).mp (hsurplus r hr _ hc hdelete)
    -- it is gone, so a request that was carried out deletes it, and no other request does
    by_cases hdeleted : ∃ r ∈ (ensureRecordSet U today now server zoneName zone rs).session.sent,
        r.applied = true ∧ ∃ c ∈ r.changes, c.changeType = .delete ∧ c.key = key
    · obtain ⟨r', hr', happlied, c', hc', hdelete', hkey⟩ := hdeleted
      obtain ⟨key', -, rfl⟩ := mem_map.mp (hsurplus r' hr' c' hc' hdelete')
      obtain rfl : key' = key := hkey
      have hdisjoint : (chunkRRSets (ensurePlan U today now zoneName zone rs).deletes).Pairwise
          List.Disjoint := by
        have hnodup : (ensurePlan U today now zoneName zone rs).deletes.Nodup := deletes_nodup
        rw [← chunkRRSets_flatten (ensurePlan U today now zoneName zone rs).deletes,
          nodup_flatten] at hnodup
        exact hnodup.2
      rw [eq_of_common_delete hsplit.deletes hdisjoint hdelete (hlater r hr _ hc hdelete houtside)
        (hlater r' hr' _ hc' hdelete' houtside) hc hc']
      exact happlied
    · have hstays := hfate key houtside
      rw [if_neg hdeleted, hrr] at hstays
      exact absurd ⟨key, rr, hstays, htyp, howner, houtside⟩ hgone
  · intro happlied ⟨key, rr, hrr, htyp, howner, houtside⟩
    rw [hfate key houtside] at hrr
    split_ifs at hrr with hdeleted
    obtain ⟨r, hr, honly, hmem⟩ := hsplit.exists_request houtside
      ((mem_surplus_own htyp).mpr ⟨⟨rr, hrr, howner⟩, houtside⟩)
    have hsent : r ∈ (ensureRecordSet U today now server zoneName zone rs).session.sent := by
      rw [hsplit.eq]
      exact mem_append_right _ hr
    exact hdeleted ⟨r, hsent, happlied r hsent honly ⟨_, hmem, rfl, htyp⟩, _, hmem, rfl, rfl⟩

end Published

/-! A record set of which one name was removed.  PowerDNS takes the new record and fails at the delete. -/

/-- The record set at its second generation: only `www` is left. -/
def wwwOnly : RecordSet :=
  { namespaceName := lit "default", name := lit "addresses", uid := lit "1", generation := 2
    recordType := .A, records := [{ name := lit "www", a := some (lit "192.0.2.1") }], status := [] }

/-- The zone, with the record that the first generation had. -/
def zoneWithOld : ZoneContent :=
  AList.insert ⟨lit "old.example.com.", lit "A"⟩
    ⟨300, [lit "192.0.2.2"], some [⟨accountOwner, lit "default:addresses", 1⟩]⟩ ∅

/-- A PowerDNS that carries out its first request and fails at the others. -/
def failsAfterOne : Server := fun n =>
  if n = 0 then ⟨true, none, fun _ => rfl⟩
  else ⟨false, some ⟨lit "status 500", true, []⟩, nofun⟩

/-- **A failed delete is reported as success**: no error, every status `Programmed`, and the old record
is still there. -/
theorem failed_delete_reported_programmed :
    let result := ensureRecordSet .ascii (lit "20260101") 1 failsAfterOne (lit "example.com") zoneWithOld
      wwwOnly
    result.transient = [] ∧ result.statuses.all (·.programmed) = true ∧
      StalePublished .ascii (lit "example.com") wwwOnly result.session.zone := by
  refine ⟨by decide +kernel, by decide +kernel, ⟨lit "old.example.com.", lit "A"⟩,
    ⟨300, [lit "192.0.2.2"], some [⟨accountOwner, lit "default:addresses", 1⟩]⟩, ?_, rfl,
    by decide +kernel, ?_⟩
  · rfl
  · intro e he
    rw [mem_singleton.mp he]
    decide +kernel

end InternalDNS.Pdns
