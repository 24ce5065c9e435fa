import InternalDNS.PowerDNSPrune

/-! # Deletes and owners

The comments on an RRset name the record set that wrote it.  Neither `EnsureRecordSet` nor
`DeleteRecordSet` ever asks PowerDNS to delete an RRset of another record set, and a record set that
changes its type loses the old record only together with the arrival of the new one.
-/
namespace InternalDNS.Pdns

open Go OwnerName List Option

variable {U : CaseMap} {server : Server} {today zoneName : GoString} {now : Int} {zone : ZoneContent}
  {rs : RecordSet} {key : RRKey} {r : Sent}

/-- An owner comment on an RRset. -/
def OwnerComment (rr : ZoneRRset) (owner : GoString) : Prop :=
  ∃ comment ∈ rr.comments.getD [], comment.account = accountOwner ∧ comment.content = owner

/-- At most one owner comment on an RRset. -/
def OneOwner (rr : ZoneRRset) : Prop :=
  ∀ owner owner', OwnerComment rr owner → OwnerComment rr owner' → owner = owner'

/-- The owner that the client reads is that of a comment. -/
theorem ownerComment_rrsetOwnerRef {rr : ZoneRRset} (h : rrsetOwnerRef rr ≠ []) :
    OwnerComment rr (rrsetOwnerRef rr) := by
  unfold rrsetOwnerRef at h ⊢
  cases hfind : (rr.comments.getD []).find? fun comment => comment.account = accountOwner with
  | none => simp [hfind] at h
  | some comment =>
    exact ⟨comment, mem_of_find?_eq_some hfind, by simpa using List.find?_some hfind, rfl⟩

/-- With one owner comment at most, it is the owner that the client reads. -/
theorem rrsetOwnerRef_eq {rr : ZoneRRset} {owner : GoString} (hone : OneOwner rr)
    (h : OwnerComment rr owner) : rrsetOwnerRef rr = owner := by
  obtain ⟨comment, hmem, haccount, hcontent⟩ := h
  have hsome : ((rr.comments.getD []).find? fun comment => comment.account = accountOwner).isSome :=
    List.find?_isSome.mpr ⟨comment, hmem, by simpa using haccount⟩
  obtain ⟨found, hfind⟩ := isSome_iff_exists.mp hsome
  have hread : rrsetOwnerRef rr = found.content := by rw [rrsetOwnerRef, hfind]; rfl
  rw [hread]
  exact hone _ _ ⟨found, mem_of_find?_eq_some hfind, by simpa using List.find?_some hfind, rfl⟩
    ⟨comment, hmem, haccount, hcontent⟩

theorem RecordSet.ownerRef_ne_nil (rs : RecordSet) : rs.ownerRef ≠ [] := by
  simp [RecordSet.ownerRef]

/-- **Every RRset that `EnsureRecordSet` deletes was written by the record set.** -/
theorem ensure_deletes_own
    (hr : r ∈ (ensureRecordSet U today now server zoneName zone rs).session.sent) {c : Change}
    (hc : c ∈ r.changes) (hdelete : c.changeType = .delete) :
    ∃ rr, zone.lookup c.key = some rr ∧ rrsetOwnerRef rr = rs.ownerRef := by
  obtain ⟨hsurplus, -⟩ := delete_with_replace ensurePlan_wellTyped (sent_of_ensureRecordSet hr) hc
    hdelete
  obtain ⟨key, hkey, rfl⟩ := mem_map.mp hsurplus
  exact owner_of_ownedSurplus hkey

/-- **Every RRset that `DeleteRecordSet` deletes was written by the record set, or by nobody.** -/
theorem delete_deletes_own (hr : r ∈ (deleteRecordSet U server zoneName zone rs).1.sent) {c : Change}
    (hc : c ∈ r.changes) (hdelete : c.changeType = .delete) :
    ∃ rr, zone.lookup c.key = some rr ∧ (rrsetOwnerRef rr = [] ∨ rrsetOwnerRef rr = rs.ownerRef) := by
  rcases sent_of_deleteChunks hr with hr | ⟨chunk, hchunk, hfor⟩
  · cases hr
  have hmem := (sortRRSets_perm _).mem_iff.mp
    ((chunkRRSets_sublist hchunk).subset (hfor.delete_mem hc hdelete))
  obtain ⟨key, hkey, rfl⟩ := mem_map.mp hmem
  rw [deleteTargets, mem_dedup, mem_append] at hkey
  rcases hkey with hkey | hkey
  · have howned := of_mem_filter hkey
    rw [Option.any_eq_true] at howned
    obtain ⟨rr, hrr, howner⟩ := howned
    exact ⟨rr, hrr, by simpa using howner⟩
  · obtain ⟨rr, hrr, howner⟩ := owner_of_ownedSurplus hkey
    exact ⟨rr, hrr, .inr howner⟩

/-- A request that deletes an RRset. -/
def Deletes (r : Sent) (key : RRKey) : Prop :=
  ∃ c ∈ r.changes, c.changeType = .delete ∧ c.key = key

/-- A request that writes an RRset of a type at a name. -/
def WritesAt (r : Sent) (name typ : GoString) : Prop :=
  ∃ c ∈ r.changes, c.changeType = .replace ∧ c.commentsOnly = false ∧ c.name = name ∧ c.typ = typ

/-- **Deletes spare the RRsets of others.**  For a zone whose RRsets have one owner comment at most:
neither call deletes an RRset whose owner comment names another record set; `EnsureRecordSet` deletes
no RRset without an owner comment; and if it writes at the name of an RRset of another type, then every
request that deletes this one writes the new RRset too, and the old one is gone only after such a
request was carried out. -/
theorem deletes_spare_others (hone : ∀ key rr, zone.lookup key = some rr → OneOwner rr) :
    (∀ key rr (other : RecordSet), zone.lookup key = some rr → OwnerComment rr other.ownerRef →
      other.ownerRef ≠ rs.ownerRef →
        (∀ r ∈ (ensureRecordSet U today now server zoneName zone rs).session.sent, ¬ Deletes r key) ∧
          ∀ r ∈ (deleteRecordSet U server zoneName zone rs).1.sent, ¬ Deletes r key) ∧
      (∀ key rr, zone.lookup key = some rr → (∀ owner, ¬ OwnerComment rr owner) →
        ∀ r ∈ (ensureRecordSet U today now server zoneName zone rs).session.sent, ¬ Deletes r key) ∧
      ∀ key rr, zone.lookup key = some rr → key.typ ≠ rs.recordType.text →
        (∃ p ∈ (ensurePlan U today now zoneName zone rs).replaces, p.2.name = key.name) →
          (∀ r ∈ (ensureRecordSet U today now server zoneName zone rs).session.sent,
            Deletes r key → WritesAt r key.name rs.recordType.text) ∧
          ((ensureRecordSet U today now server zoneName zone rs).session.zone.lookup key = none →
            ∃ r ∈ (ensureRecordSet U today now server zoneName zone rs).session.sent,
              r.applied = true ∧ Deletes r key ∧ WritesAt r key.name rs.recordType.text) := by
  refine ⟨fun key rr other hrr hother hne => ?_, fun key rr hrr hnone r hr hdeletes => ?_,
    fun key rr hrr htyp hwrites => ?_⟩
  · have hread : rrsetOwnerRef rr = other.ownerRef := rrsetOwnerRef_eq (hone key rr hrr) hother
    refine ⟨fun r hr hdeletes => ?_, fun r hr hdeletes => ?_⟩
    · obtain ⟨c, hc, hdelete, rfl⟩ := hdeletes
      obtain ⟨rr', hrr', howner⟩ := ensure_deletes_own hr hc hdelete
      obtain rfl : rr = rr' := mem_unique hrr hrr'
      exact hne (hread.symm.trans howner)
    · obtain ⟨c, hc, hdelete, rfl⟩ := hdeletes
      obtain ⟨rr', hrr', howner⟩ := delete_deletes_own hr hc hdelete
      obtain rfl : rr = rr' := mem_unique hrr hrr'
      rw [hread] at howner
      exact howner.elim other.ownerRef_ne_nil hne
  · obtain ⟨c, hc, hdelete, rfl⟩ := hdeletes
    obtain ⟨rr', hrr', howner⟩ := ensure_deletes_own hr hc hdelete
    obtain rfl : rr = rr' := mem_unique hrr hrr'
    refine hnone rs.ownerRef (howner ▸ ownerComment_rrsetOwnerRef ?_)
    rw [howner]
    exact rs.ownerRef_ne_nil
  · have htogether : ∀ r ∈ (ensureRecordSet U today now server zoneName zone rs).session.sent,
        Deletes r key → WritesAt r key.name rs.recordType.text := by
      rintro r hr ⟨c, hc, hdelete, rfl⟩
      obtain ⟨-, hpaired⟩ := delete_with_replace ensurePlan_wellTyped (sent_of_ensureRecordSet hr) hc
        hdelete
      obtain ⟨p, hp, hname, hmem⟩ := hpaired hwrites
      obtain ⟨hreplace, hrecords, htype⟩ := ensurePlan_wellTyped.replace p hp
      exact ⟨p.2, hmem, hreplace, hrecords, hname, htype⟩
    refine ⟨htogether, fun hgone => ?_⟩
    -- the type of the old RRset is not written, so it is gone by a delete
    have hunwritten : ∀ p ∈ (ensurePlan U today now zoneName zone rs).replaces, p.2.key ≠ key := by
      intro p hp hkey
      exact htyp ((congrArg RRKey.typ hkey).symm.trans (ensurePlan_wellTyped.replace p hp).2.2)
    rw [lookup_unwritten hunwritten] at hgone
    split_ifs at hgone with hdeleted
    · obtain ⟨r, hr, happlied, hdeletes⟩ := hdeleted
      exact ⟨r, hr, happlied, hdeletes, htogether r hr hdeletes⟩
    · rw [hrr] at hgone
      cases hgone

/-- A zone with an ALIAS record that the record set wrote before it changed its type, and a record of
another record set. -/
def zoneWithAlias : ZoneContent :=
  AList.insert ⟨lit "www.example.com.", lit "ALIAS"⟩
    ⟨300, [lit "cdn.example.net."], some [⟨accountOwner, lit "default:addresses", 1⟩]⟩
    (AList.insert ⟨lit "api.example.com.", lit "A"⟩
      ⟨300, [lit "192.0.2.3"], some [⟨accountOwner, lit "default:others", 1⟩]⟩ ∅)

theorem zoneWithAlias_oneOwner : ∀ key rr, zoneWithAlias.lookup key = some rr → OneOwner rr := by
  intro key rr hrr
  have hcomments : ∃ comment, rr.comments = some [comment] := by
    rcases GoMap.of_lookup_insert hrr with ⟨-, rfl⟩ | hrr
    · exact ⟨_, rfl⟩
    rcases GoMap.of_lookup_insert hrr with ⟨-, rfl⟩ | hrr
    · exact ⟨_, rfl⟩
    · cases hrr
  obtain ⟨comment, hcomment⟩ := hcomments
  rintro owner owner' ⟨c, hc, -, rfl⟩ ⟨c', hc', -, rfl⟩
  rw [hcomment, getD_some, mem_singleton] at hc hc'
  rw [hc, hc']

/-- The record set changes its type at `www`, and leaves `api` alone. -/
theorem type_change_together :
    (∀ r ∈ (ensureRecordSet .ascii (lit "20260101") 1 failsAfterOne (lit "example.com") zoneWithAlias
        wwwOnly).session.sent,
      ¬ Deletes r ⟨lit "api.example.com.", lit "A"⟩ ∧
        (Deletes r ⟨lit "www.example.com.", lit "ALIAS"⟩ →
          WritesAt r (lit "www.example.com.") (lit "A"))) ∧
      (ensureRecordSet .ascii (lit "20260101") 1 failsAfterOne (lit "example.com") zoneWithAlias
        wwwOnly).session.zone.lookup ⟨lit "www.example.com.", lit "ALIAS"⟩ = none := by
  obtain ⟨hothers, -, htogether⟩ := deletes_spare_others (U := .ascii) zoneWithAlias_oneOwner
  refine ⟨fun r hr => ⟨?_, ?_⟩, by rfl⟩
  · exact (hothers _ _ { wwwOnly with name := lit "others" } rfl
      ⟨_, mem_singleton_self _, rfl, rfl⟩ (by decide)).1 r hr
  · exact (htogether ⟨lit "www.example.com.", lit "ALIAS"⟩ _ rfl (by decide)
      ⟨_, mem_singleton_self _, rfl⟩).1 r hr

end InternalDNS.Pdns
