import InternalDNS.PowerDNSPrune

/-! # One RRset for each name

`EnsureRecordSet` groups the entries of a record set by the spelling of their owner names, and PowerDNS
knows names only in their qualified form.  As long as entries of one name spell it alike, every name
gets one change, with the contents of all its entries; with two spellings the name gets two changes,
each with a part of the contents.
-/
namespace InternalDNS.Pdns

open Go OwnerName List Change

variable {U : CaseMap} {server : Server} {today zoneName : GoString} {now : Int} {zone : ZoneContent}
  {rs : RecordSet} {t : RRType} {x owner : GoString} {records : List GoString} {c : Change}

/-! ## Contents -/

/-- The contents of entries, in their order. -/
def entryContents (today : GoString) (t : RRType) (entries : List Entry) : List GoString :=
  entries.filterMap (entryContent today t)

/-- The records that entries of one name should come to: all contents once, but the first of CNAME and
ALIAS contents, and the last of SOA contents. -/
def wantedRecords (today : GoString) (t : RRType) (entries : List Entry) : List GoString :=
  if t = .CNAME ∨ t = .ALIAS then (entryContents today t entries).take 1
  else if t = .SOA then (entryContents today t entries).getLast?.toList
  else dedupeRecords (entryContents today t entries)

theorem line_ne_nil (a b : GoString) (rest : List GoString) : line (a :: b :: rest) ≠ [] := by
  simp [line, List.intercalate, List.intersperse]

theorem nonBlank_ne_nil {s x : GoString} (h : nonBlank s = some x) : x ≠ [] := by
  simp only [nonBlank] at h
  split_ifs at h with hempty
  cases h
  exact hempty

theorem qualifyIfNeeded_ne_nil {s : GoString} (h : s ≠ []) : qualifyIfNeeded s ≠ [] := by
  unfold qualifyIfNeeded
  split_ifs
  · exact h
  · simp

theorem quoteIfNeeded_ne_nil (s : GoString) : quoteIfNeeded s ≠ [] := by
  unfold quoteIfNeeded
  split_ifs with h
  · rintro rfl
    simp at h
  · simp

theorem encodeSvcbLine_ne_nil (priority : Nat) (target params : GoString) :
    encodeSvcbLine priority target params ≠ [] := by
  simp only [encodeSvcbLine]
  split_ifs <;> exact line_ne_nil _ _ _

/-- A content is never empty. -/
theorem entryContent_ne_nil {e : Entry} (h : entryContent today t e = some x) : x ≠ [] := by
  cases t <;> simp only [entryContent, Option.bind_eq_some_iff, Option.map_eq_some_iff] at h
  case A | AAAA =>
    obtain ⟨s, -, hs⟩ := h
    exact nonBlank_ne_nil hs
  case ALIAS | CNAME | NS | PTR =>
    obtain ⟨s, ⟨_, -, hs⟩, rfl⟩ := h
    exact qualifyIfNeeded_ne_nil (nonBlank_ne_nil hs)
  case TXT =>
    obtain ⟨s, -, rfl⟩ := h
    exact quoteIfNeeded_ne_nil s
  case MX | SRV =>
    obtain ⟨_, -, s, -, rfl⟩ := h
    exact line_ne_nil _ _ _
  case CAA | SOA | TLSA =>
    obtain ⟨_, -, rfl⟩ := h
    exact line_ne_nil _ _ _
  case HTTPS | SVCB =>
    obtain ⟨_, -, rfl⟩ := h
    exact encodeSvcbLine_ne_nil _ _ _

/-! ### Without repetitions -/

/-- One content more, unless it is there. -/
def addOnce (out : List GoString) (content : GoString) : List GoString :=
  if content ∈ out then out else out ++ [content]

theorem foldl_addOnce_nodup (records out : List GoString) (h : out.Nodup) :
    (records.foldl addOnce out).Nodup := by
  induction records generalizing out with
  | nil => exact h
  | cons content rest ih =>
    refine ih _ ?_
    unfold addOnce
    split_ifs with hmem
    · exact h
    · rw [← concat_eq_append]
      exact h.concat hmem

theorem nodup_of_length_le_one {α : Type} : ∀ {l : List α}, l.length ≤ 1 → l.Nodup
  | [], _ => nodup_nil
  | [x], _ => nodup_singleton x

theorem dedupeRecords_nodup (records : List GoString) : (dedupeRecords records).Nodup :=
  foldl_addOnce_nodup records [] nodup_nil

/-- Contents that are all different stay as they are. -/
theorem foldl_addOnce_eq (records out : List GoString) (h : (out ++ records).Nodup) :
    records.foldl addOnce out = out ++ records := by
  induction records generalizing out with
  | nil => simp
  | cons content rest ih =>
    have hnot : content ∉ out := fun hmem =>
      disjoint_of_nodup_append h hmem mem_cons_self
    rw [foldl_cons, addOnce, if_neg hnot, ih _ (by simpa using h)]
    simp

theorem dedupeRecords_of_nodup (h : records.Nodup) : dedupeRecords records = records := by
  exact foldl_addOnce_eq records [] h

theorem mem_foldl_addOnce {records out : List GoString} :
    x ∈ records.foldl addOnce out ↔ x ∈ out ∨ x ∈ records := by
  induction records generalizing out with
  | nil => simp
  | cons content rest ih =>
    rw [foldl_cons, ih, addOnce]
    split_ifs with hmem
    · constructor
      · rintro (h | h)
        · exact .inl h
        · exact .inr (mem_cons_of_mem _ h)
      · rintro (h | h)
        · exact .inl h
        · rcases mem_cons.mp h with rfl | h
          · exact .inl hmem
          · exact .inr h
    · simp [or_assoc]

theorem mem_dedupeRecords :
    x ∈ dedupeRecords records ↔ x ∈ records := by
  rw [show dedupeRecords records = records.foldl addOnce [] from rfl, mem_foldl_addOnce]
  simp

/-! ### The records of a name -/

variable {entries : List Entry}

theorem entryContents_concat (e : Entry) : entryContents today t (entries ++ [e]) =
    entryContents today t entries ++ (entryContent today t e).toList := by
  simp only [entryContents, filterMap_append]
  cases hcontent : entryContent today t e with
  | none => simp [hcontent]
  | some content => simp [hcontent]

/-- What the entries of a name come to, before repetitions are dropped. -/
theorem contentsOf_eq : contentsOf today t entries =
    if t = .CNAME ∨ t = .ALIAS then (entryContents today t entries).take 1
    else if t = .SOA then (entryContents today t entries).getLast?.toList
    else entryContents today t entries := by
  induction entries using List.reverseRecOn with
  | nil => split_ifs <;> rfl
  | append_singleton entries e ih =>
    rw [contentsOf_concat, entryContents_concat, ih]
    cases hcontent : entryContent today t e with
    | none => simp [addContent]
    | some content =>
      simp only [addContent, Option.toList_some]
      split_ifs with hsingle hempty hsoa
      · rw [take_eq_nil_iff] at hempty
        rw [hempty.resolve_left (by decide)]
        rfl
      · have hpos : 1 ≤ (entryContents today t entries).length := by
          rw [take_eq_nil_iff] at hempty
          exact length_pos_iff.mpr fun hnil => hempty (.inr hnil)
        rw [take_append_of_le_length hpos]
      · simp
      · rfl

/-- The records of a name are the wanted ones. -/
theorem dedupeRecords_contentsOf :
    dedupeRecords (contentsOf today t entries) = wantedRecords today t entries := by
  have hshort : ∀ l : List GoString, l.length ≤ 1 → dedupeRecords l = l := fun l hl =>
    dedupeRecords_of_nodup (nodup_of_length_le_one hl)
  rw [contentsOf_eq, wantedRecords]
  split_ifs
  · exact hshort _ (by simp)
  · exact hshort _ (by cases (entryContents today t entries).getLast? <;> simp)
  · rfl

theorem ne_nil_of_mem_wantedRecords (h : x ∈ wantedRecords today t entries) : x ≠ [] := by
  have hmem : x ∈ entryContents today t entries := by
    unfold wantedRecords at h
    split_ifs at h
    · exact mem_of_mem_take h
    · exact mem_of_mem_getLast? (by simpa using h)
    · exact mem_dedupeRecords.mp h
  obtain ⟨e, -, he⟩ := mem_filterMap.mp hmem
  exact entryContent_ne_nil he

theorem wantedRecords_nodup : (wantedRecords today t entries).Nodup := by
  rw [← dedupeRecords_contentsOf]
  exact dedupeRecords_nodup _

/-! ## Changes -/

/-- The entries whose names stand for a qualified name. -/
def entriesAt (U : CaseMap) (zoneName : GoString) (rs : RecordSet) (name : GoString) : List Entry :=
  rs.records.filter fun e => qualify U e.name zoneName = name

/-- Entries of one name spell it alike. -/
def SpelledAlike (U : CaseMap) (zoneName : GoString) (rs : RecordSet) : Prop :=
  ∀ e ∈ rs.records, ∀ e' ∈ rs.records, qualify U e.name zoneName = qualify U e'.name zoneName →
    e.name = e'.name

/-- The entries of a spelling are those of the name. -/
theorem SpelledAlike.entriesAt_eq (h : SpelledAlike U zoneName rs)
    (howner : owner ∈ (GoMap.group (·.name) rs.records).keys) :
    entriesAt U zoneName rs (qualify U owner zoneName) =
      rs.records.filter fun e => e.name = owner := by
  obtain ⟨e, he, rfl⟩ := mem_owners.mp howner
  refine filter_congr fun e' he' => ?_
  rw [decide_eq_decide]
  exact ⟨h e' he' e he, fun heq => by rw [heq]⟩

/-- Raising the serial of a record keeps it a record. -/
theorem keepSOASerialRising_ne_nil {current : ZoneRRset} (hrecords : ∀ y ∈ records, y ≠ [])
    (h : x ∈ keepSOASerialRising records current) : x ≠ [] := by
  simp only [keepSOASerialRising] at h
  split_ifs at h
  · exact hrecords x h
  · obtain ⟨y, hy, rfl⟩ := mem_map.mp h
    split
    · split_ifs
      · exact hrecords y hy
      · exact line_ne_nil _ _ _
    · exact hrecords y hy

theorem length_keepSOASerialRising (records : List GoString) (current : ZoneRRset) :
    (keepSOASerialRising records current).length = records.length := by
  simp only [keepSOASerialRising]
  split_ifs <;> simp

/-- Records that are all different and not empty are sent as they are. -/
theorem sent_records {values : List GoString} (hne : ∀ x ∈ values, x ≠ []) (hnodup : values.Nodup) :
    dedupeRecords (values.filter (· ≠ [])) = values := by
  rw [filter_eq_self.mpr fun x hx => decide_eq_true (hne x hx)]
  exact dedupeRecords_of_nodup hnodup

/-- The values of a write are sent as they are. -/
theorem WrittenValues.sent {current : Option ZoneRRset} {values : List GoString}
    (h : WrittenValues rs current (wantedRecords today rs.recordType entries) values) :
    dedupeRecords (values.filter (· ≠ [])) = values := by
  have hwanted : dedupeRecords ((wantedRecords today rs.recordType entries).filter (· ≠ [])) =
      wantedRecords today rs.recordType entries :=
    sent_records (fun x hx => ne_nil_of_mem_wantedRecords hx) wantedRecords_nodup
  unfold WrittenValues at h
  split at h
  next current =>
    split_ifs at h with hsoa
    · subst h
      refine sent_records (fun x hx => keepSOASerialRising_ne_nil
        (fun y hy => ne_nil_of_mem_wantedRecords hy) hx) (nodup_of_length_le_one ?_)
      rw [length_keepSOASerialRising, hsoa]
      cases hlast : (entryContents today .SOA entries).getLast? <;> simp [wantedRecords, hlast]
    · rw [h]
      exact hwanted
  next =>
    rw [h]
    exact hwanted

/-! ## At most one change for a name -/

/-- The changes that `EnsureRecordSet` sets out to make. -/
def Plan.all (plan : Plan) : List Change := plan.replaces.map (·.2) ++ plan.surplus

theorem replaces_nodup : (ensurePlan U today now zoneName zone rs).replaces.Nodup := by
  have howners : ((GoMap.group (fun e : Entry => e.name) rs.records).keys.insertionSort (· ≤ ·)).Nodup :=
    (perm_insertionSort ..).nodup_iff.mpr (AList.keys_nodup _)
  have hdecisions : (ensurePlan U today now zoneName zone rs).decisions.Nodup :=
    howners.map fun a b h => (Prod.mk.inj h).1
  refine hdecisions.filterMap fun p q r hp hq => ?_
  -- a write determines the owner and the decision that it comes from
  obtain ⟨owner, d⟩ := p
  obtain ⟨owner', d'⟩ := q
  cases d with
  | unbuilt => cases hp
  | current => cases hp
  | replace c =>
    cases d' with
    | unbuilt => cases hq
    | current => cases hq
    | replace c' =>
      obtain ⟨rfl, rfl⟩ := Prod.mk.inj ((Option.some.inj hp).trans (Option.some.inj hq).symm)
      rfl

theorem replace_key (h : (owner, c) ∈ (ensurePlan U today now zoneName zone rs).replaces) :
    c.key = ⟨qualify U owner zoneName, rs.recordType.text⟩ := by
  obtain ⟨built, values, comments, -, -, rfl⟩ := decideOwner_eq_replace (mem_replaces h).2
  rfl

section

variable {replaces : List (GoString × Change)} {deletes : List Change}

/-- What travels together is what was planned. -/
theorem mem_flatMap_pairDeletes (h : c ∈ (pairDeletes replaces deletes).flatMap (·.2)) :
    (∃ p ∈ replaces, p.2 = c) ∨ (c ∈ deletes ∧ ∃ p ∈ replaces, p.2.name = c.name) := by
  obtain ⟨⟨owner, group⟩, hgroup, hmem⟩ := mem_flatMap.mp h
  obtain ⟨rr, hrr, own, rfl, hown⟩ := mem_pairDeletes hgroup
  rcases mem_cons.mp hmem with rfl | hmem
  · exact .inl ⟨_, hrr, rfl⟩
  · exact .inr ⟨(hown c hmem).1, _, hrr, (hown c hmem).2.symm⟩

/-- Pairing takes no change twice: the deletes at a name go with the last change there. -/
theorem pairDeletes_nodup (h : (replaces.map (·.2.key) ++ deletes.map Change.key).Nodup) :
    (((pairDeletes replaces deletes).flatMap (·.2)).map Change.key).Nodup := by
  induction replaces with
  | nil => exact nodup_nil
  | cons first rest ih =>
    obtain ⟨owner, rr⟩ := first
    obtain ⟨hnot, hrest⟩ := nodup_cons.mp h
    have hdeletes : (deletes.map key).Nodup := (nodup_append.mp hrest).2.1
    have hapart : ∀ p ∈ rest, ∀ d ∈ deletes, p.2.key ≠ d.key := fun p hp d hd =>
      (nodup_append.mp hrest).2.2 _ (mem_map_of_mem hp) _ (mem_map_of_mem hd)
    have hrr : ∀ p ∈ rest, p.2.key ≠ rr.key := fun p hp heq =>
      hnot (mem_append_left _ (mem_map.mpr ⟨p, hp, heq⟩))
    have hrr' : ∀ d ∈ deletes, d.key ≠ rr.key := fun d hd heq =>
      hnot (mem_append_right _ (mem_map.mpr ⟨d, hd, heq⟩))
    rw [pairDeletes, flatMap_cons, map_append, map_cons]
    refine nodup_append.mpr ⟨nodup_cons.mpr ⟨fun hmem => ?_, ?_⟩, ih hrest, ?_⟩
    · obtain ⟨d, hd, heq⟩ := mem_map.mp hmem
      split_ifs at hd
      · cases hd
      · exact hrr' d (mem_of_mem_filter hd) heq
    · split_ifs
      · exact nodup_nil
      · exact hdeletes.sublist (filter_sublist.map _)
    · intro key hkey key' hkey' heq
      subst heq
      obtain ⟨c, hc, hckey⟩ := mem_map.mp hkey'
      rcases mem_cons.mp hkey with rfl | hkey
      · rcases mem_flatMap_pairDeletes hc with ⟨p, hp, rfl⟩ | ⟨hd, -⟩
        · exact hrr p hp hckey
        · exact hrr' c hd hckey
      · obtain ⟨d, hd, rfl⟩ := mem_map.mp hkey
        split_ifs at hd with hlast
        · cases hd
        rcases mem_flatMap_pairDeletes hc with ⟨p, hp, rfl⟩ | ⟨-, p, hp, hname⟩
        · exact hapart p hp d (mem_of_mem_filter hd) hckey
        · -- no later change is at the name, so no later delete is either
          refine hlast (any_eq_true.mpr ⟨p, hp, decide_eq_true ?_⟩)
          have hdname : d.name = rr.name := by simpa using of_mem_filter hd
          rw [hname, ← hdname]
          exact congrArg RRKey.name hckey

end

/-- The changes of a request without the clears of comments are those of its patch. -/
theorem SentFor.keys_perm {patch changes : List Change} (h : SentFor U patch changes)
    (hrecords : ∀ c ∈ patch, c.commentsOnly = false) :
    ((changes.filter fun c => !c.commentsOnly).map Change.key).Perm (patch.map Change.key) := by
  have hsorted : ∀ c ∈ sortRRSets patch, c.commentsOnly = false :=
    fun c hc => hrecords c ((sortRRSets_perm patch).mem_iff.mp hc)
  have hfilter : (changes.filter fun c => !c.commentsOnly) = sortRRSets patch := by
    rw [h.eq_flatMap]
    generalize sortRRSets patch = sorted at hsorted
    induction sorted with
    | nil => rfl
    | cons c rest ih =>
      rw [flatMap_cons, filter_append, ih fun d hd => hsorted d (mem_cons_of_mem _ hd)]
      have hc := hsorted c mem_cons_self
      split_ifs
      · simp [hc, commentsOnlyReplace]
      · simp [hc]
  rw [hfilter]
  exact (sortRRSets_perm patch).map _

/-- The changes of a request, where the clear of the comments behind a delete is a part of the
delete. -/
def Sent.recordChanges (r : Sent) : List Change := r.changes.filter fun c => !c.commentsOnly

section Requests

variable {r r' : Sent} {c c' : Change}

theorem mem_all_of_mem_changes
    (h : c ∈ (ensurePlan U today now zoneName zone rs).changes.flatMap (·.2)) :
    c ∈ (ensurePlan U today now zoneName zone rs).all := by
  rcases mem_flatMap_pairDeletes h with ⟨p, hp, rfl⟩ | ⟨hd, -⟩
  · exact mem_append_left _ (mem_map_of_mem hp)
  · exact mem_append_right _ hd

theorem mem_all_of_mem_deletes (h : c ∈ (ensurePlan U today now zoneName zone rs).deletes) :
    c ∈ (ensurePlan U today now zoneName zone rs).all :=
  mem_append_right _ (mem_of_mem_filter ((sortRRSets_perm _).mem_iff.mp h))

theorem recordChange_of_mem_all (h : c ∈ (ensurePlan U today now zoneName zone rs).all) :
    c.commentsOnly = false := by
  rcases mem_append.mp h with h | h
  · obtain ⟨p, hp, rfl⟩ := mem_map.mp h
    exact (ensurePlan_wellTyped.replace p hp).2.1
  · obtain ⟨key, -, rfl⟩ := mem_map.mp h
    rfl

section

variable (hspell : SpelledAlike U zoneName rs)
include hspell

/-- **The RRset that is written for a name holds the contents of all its entries.** -/
theorem replace_records (h : (owner, c) ∈ (ensurePlan U today now zoneName zone rs).replaces) :
    WrittenValues rs (zone.lookup c.key)
      (wantedRecords today rs.recordType (entriesAt U zoneName rs c.name)) c.records := by
  obtain ⟨howner, hdecide⟩ := mem_replaces h
  obtain ⟨built, values, comments, hbuilt, hvalues, rfl⟩ := decideOwner_eq_replace hdecide
  obtain ⟨hgroup, hne⟩ := group_of_mem howner
  obtain ⟨ttl, hspec⟩ : ∃ ttl, buildOwnerRRSet U today zoneName rs.recordType owner
      (rs.records.filter fun e => e.name = owner) = some ⟨qualify U owner zoneName, ttl, _⟩ :=
    buildOwnerRRSet_spec hne fun e he => by simpa using of_mem_filter he
  rw [hgroup, hspec] at hbuilt
  cases hbuilt
  rw [dedupeRecords_contentsOf] at hvalues
  show WrittenValues rs (zone.lookup ⟨qualify U owner zoneName, rs.recordType.text⟩)
    (wantedRecords today rs.recordType (entriesAt U zoneName rs (qualify U owner zoneName)))
    (dedupeRecords (values.filter (· ≠ [])))
  rw [hspell.entriesAt_eq howner]
  rw [hvalues.sent]
  exact hvalues

theorem replaces_keys_nodup :
    ((ensurePlan U today now zoneName zone rs).replaces.map (·.2.key)).Nodup := by
  refine replaces_nodup.map_on ?_
  rintro ⟨owner, c⟩ h ⟨owner', c'⟩ h' hkey
  obtain ⟨howner, hdecide⟩ := mem_replaces h
  obtain ⟨howner', hdecide'⟩ := mem_replaces h'
  have hname : qualify U owner zoneName = qualify U owner' zoneName := by
    have hkey' : c.key = c'.key := hkey
    rw [replace_key h, replace_key h'] at hkey'
    exact congrArg RRKey.name hkey'
  obtain ⟨e, he, rfl⟩ := mem_owners.mp howner
  obtain ⟨e', he', rfl⟩ := mem_owners.mp howner'
  have heq : e.name = e'.name := hspell e he e' he' hname
  rw [← heq, hdecide] at hdecide'
  cases hdecide'
  rw [heq]

/-- **Every RRset is changed once at most.** -/
theorem all_keys_nodup :
    ((ensurePlan U today now zoneName zone rs).all.map Change.key).Nodup := by
  have hsurplus : ((ensurePlan U today now zoneName zone rs).surplus.map key).Nodup := by
    refine surplus_nodup.map_on fun c hc c' hc' hkey => ?_
    obtain ⟨key, -, rfl⟩ := mem_map.mp hc
    obtain ⟨key', -, rfl⟩ := mem_map.mp hc'
    exact congrArg newDeleteRRSet hkey
  rw [Plan.all, map_append, map_map]
  refine nodup_append.mpr ⟨replaces_keys_nodup hspell, hsurplus, ?_⟩
  intro key hkey key' hkey' heq
  subst heq
  obtain ⟨⟨owner, c⟩, hc, rfl⟩ := mem_map.mp hkey
  obtain ⟨d, hd, hdkey⟩ := mem_map.mp hkey'
  obtain ⟨key', -, rfl⟩ := mem_map.mp hd
  have hkeyeq : key' = c.key := hdkey
  subst hkeyeq
  have htyp : c.key.typ = rs.recordType.text := by rw [replace_key hc]
  exact replace_name hc ((mem_surplus_own htyp).mp hd).2

variable (hr : r ∈ (ensureRecordSet U today now server zoneName zone rs).session.sent)
include hr

/-- Every request of `EnsureRecordSet` is for a patch of planned changes, no RRset twice. -/
theorem exists_patch :
    ∃ patch, SentFor U patch r.changes ∧ (patch.map Change.key).Nodup ∧
      ∀ c ∈ patch, c ∈ (ensurePlan U today now zoneName zone rs).all := by
  have hall : ((ensurePlan U today now zoneName zone rs).all.map key).Nodup :=
    all_keys_nodup hspell
  rw [Plan.all, map_append, map_map] at hall
  rcases sent_of_ensureRecordSet hr with ⟨batch, hsub, hfor⟩ | ⟨chunk, hsub, hfor⟩
  · have hsublist : (batch.flatMap (·.2)).Sublist
        ((ensurePlan U today now zoneName zone rs).changes.flatMap (·.2)) :=
      hsub.flatMap _
    exact ⟨_, hfor, (pairDeletes_nodup hall).sublist (hsublist.map _),
      fun c hc => mem_all_of_mem_changes (hsublist.subset hc)⟩
  · refine ⟨chunk, hfor, ?_, fun c hc => mem_all_of_mem_deletes (hsub.subset hc)⟩
    have hdeletes : ((ensurePlan U today now zoneName zone rs).deletes.map key).Nodup := by
      refine ((sortRRSets_perm _).map key).nodup_iff.mpr ?_
      exact (nodup_append.mp hall).2.1.sublist (filter_sublist.map _)
    exact hdeletes.sublist (hsub.map _)

/-- What is sent is what was planned. -/
theorem mem_all_of_sent (hc : c ∈ r.recordChanges) :
    c ∈ (ensurePlan U today now zoneName zone rs).all := by
  obtain ⟨patch, hfor, -, hplanned⟩ := exists_patch hspell hr
  obtain ⟨hmem, hrecords⟩ := mem_filter.mp hc
  rw [hfor.eq_flatMap, mem_flatMap] at hmem
  obtain ⟨d, hd, hmem⟩ := hmem
  have hdplanned := hplanned d ((sortRRSets_perm patch).mem_iff.mp hd)
  split_ifs at hmem
  · rcases mem_cons.mp hmem with rfl | hmem
    · exact hdplanned
    · rw [mem_singleton.mp hmem] at hrecords
      cases hrecords
  · rw [mem_singleton.mp hmem]
    exact hdplanned

end

/-- **One change for a name and type, with the contents of all its entries**, as long as the entries of
a name spell it alike. -/
theorem one_change_per_name (hspell : SpelledAlike U zoneName rs) :
    (∀ r ∈ (ensureRecordSet U today now server zoneName zone rs).session.sent,
      (r.recordChanges.map Change.key).Nodup) ∧
    (∀ r ∈ (ensureRecordSet U today now server zoneName zone rs).session.sent,
      ∀ r' ∈ (ensureRecordSet U today now server zoneName zone rs).session.sent,
      ∀ c ∈ r.recordChanges, ∀ c' ∈ r'.recordChanges, c.key = c'.key → c = c') ∧
    ∀ r ∈ (ensureRecordSet U today now server zoneName zone rs).session.sent,
      ∀ c ∈ r.recordChanges, c.changeType = .replace →
      WrittenValues rs (zone.lookup c.key)
        (wantedRecords today rs.recordType (entriesAt U zoneName rs c.name)) c.records := by
  refine ⟨fun r hr => ?_, fun r hr r' hr' c hc c' hc' hkey => ?_, fun r hr c hc hreplace => ?_⟩
  · obtain ⟨patch, hfor, hnodup, hplanned⟩ := exists_patch hspell hr
    refine (hfor.keys_perm fun c hc => ?_).nodup_iff.mpr hnodup
    exact recordChange_of_mem_all (hplanned c hc)
  · exact inj_on_of_nodup_map (all_keys_nodup hspell) (mem_all_of_sent hspell hr hc)
      (mem_all_of_sent hspell hr' hc') hkey
  · rcases mem_append.mp (mem_all_of_sent hspell hr hc) with h | h
    · obtain ⟨p, hp, rfl⟩ := mem_map.mp h
      exact replace_records hspell hp
    · obtain ⟨key, -, rfl⟩ := mem_map.mp h
      cases hreplace

end Requests

/-- Two addresses of one name, which is spelled alike. -/
def apiTwice : RecordSet :=
  { wwwOnly with records := [{ name := lit "api", a := some (lit "192.0.2.1") },
      { name := lit "api", a := some (lit "192.0.2.2") }] }

/-- The RRset of the name holds both addresses. -/
theorem both_addresses_written : SpelledAlike .ascii (lit "example.com") apiTwice ∧
    ∀ r ∈ (ensureRecordSet .ascii (lit "20260101") 1 failsAfterOne (lit "example.com") ∅
        apiTwice).session.sent,
      (r.recordChanges.map Change.key).Nodup ∧
        ∀ c ∈ r.recordChanges, c.changeType = .replace → c.name = lit "api.example.com." →
          c.records = [lit "192.0.2.1", lit "192.0.2.2"] := by
  have hspell : SpelledAlike .ascii (lit "example.com") apiTwice := by
    unfold SpelledAlike
    decide +kernel
  refine ⟨hspell, fun r hr => ⟨(one_change_per_name hspell).1 r hr, fun c hc hreplace hname => ?_⟩⟩
  have hrecords := (one_change_per_name hspell).2.2 r hr c hc hreplace
  rw [hname] at hrecords
  exact hrecords

/-- The name is spelled in two ways. -/
def apiSpelledTwice : RecordSet :=
  { wwwOnly with records := [{ name := lit "api", a := some (lit "192.0.2.1") },
      { name := lit "API", a := some (lit "192.0.2.2") }] }

/-- Two targets of one name. -/
def twoTargets : RecordSet :=
  { wwwOnly with
    recordType := .CNAME
    records := [{ name := lit "api", cname := some (lit "one.example.net") },
      { name := lit "api", cname := some (lit "two.example.net") }] }

/-- **A name that is spelled in two ways gets two changes**, each with a part of its contents, and a
second target of a CNAME is dropped. -/
theorem two_spellings_two_changes :
    (((ensureRecordSet .ascii (lit "20260101") 1 failsAfterOne (lit "example.com") ∅
        apiSpelledTwice).session.sent.map fun r => r.changes.map fun c => (c.key, c.records)) =
      [[(⟨lit "api.example.com.", lit "A"⟩, [lit "192.0.2.2"]),
        (⟨lit "api.example.com.", lit "A"⟩, [lit "192.0.2.1"])]]) ∧
    ((ensureRecordSet .ascii (lit "20260101") 1 failsAfterOne (lit "example.com") ∅
        twoTargets).session.sent.map fun r => r.changes.map fun c => (c.key, c.records)) =
      [[(⟨lit "api.example.com.", lit "CNAME"⟩, [lit "one.example.net."])]] := by
  constructor <;> decide +kernel

end InternalDNS.Pdns
