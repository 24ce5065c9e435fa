import InternalDNS.PowerDNSRequests

/-! # What the PowerDNS client leaves in a zone

The zone after a call is the zone before it with the requests carried out that PowerDNS did carry out
(`replay`).  An RRset that is not written anew is gone exactly if one of these requests deletes it.
-/
namespace InternalDNS.Pdns

open Go OwnerName List AList

variable {U : CaseMap} {server : Server} {s : Session} {patch changes : List Change} {r : Sent}
  {zone : ZoneContent} {key : RRKey}

/-! ## Replaying requests -/

/-- The zone after the requests. -/
def replay (zone : ZoneContent) (sent : List Sent) : ZoneContent :=
  sent.foldl (fun z r => if r.applied then applyChanges z r.changes else z) zone

theorem replay_concat (sent : List Sent) (r : Sent) : replay zone (sent ++ [r]) =
    if r.applied then applyChanges (replay zone sent) r.changes else replay zone sent := by
  simp [replay]

/-- The session's zone is what its requests made of a zone. -/
def Session.Replays (s : Session) (zone : ZoneContent) : Prop := s.zone = replay zone s.sent

theorem Session.Replays.applyRRSetPatch (h : s.Replays zone) :
    (applyRRSetPatch U server s patch).1.Replays zone := by
  unfold Pdns.applyRRSetPatch
  split_ifs
  · exact h
  · split
    · exact h
    · show (if _ then _ else _) = _
      rw [replay_concat, ← show s.zone = replay zone s.sent from h]

theorem Session.Replays.isolating {rounds : Nat} {pending : List (GoString × List Change)}
    (h : s.Replays zone) : (applyIsolatingRefusals U server rounds s pending).1.Replays zone := by
  induction rounds generalizing s pending with
  | zero => exact h
  | succ rounds ih =>
    have hfirst : ∀ {s' : Session} {e : Option PatchError},
        Pdns.applyRRSetPatch U server s (pending.flatMap (·.2)) = (s', e) → s'.Replays zone := by
      intro s' e heq
      have hnext : (Pdns.applyRRSetPatch U server s (pending.flatMap (·.2))).1.Replays zone :=
        h.applyRRSetPatch
      rw [heq] at hnext
      exact hnext
    rw [applyIsolatingRefusals]
    split_ifs
    · exact h
    split
    next heq => exact hfirst heq
    next heq =>
      simp only
      split_ifs
      · exact hfirst heq
      · exact ih (hfirst heq)

theorem Session.Replays.applyChunks {chunks : List (List (GoString × List Change))}
    (h : s.Replays zone) : (applyChunks U server s chunks).1.Replays zone := by
  induction chunks generalizing s with
  | nil => exact h
  | cons chunk rest ih => exact ih h.isolating

theorem Session.Replays.applyDeletes {chunks : List (List Change)} (h : s.Replays zone) :
    (applyDeletes U server s chunks).Replays zone := by
  induction chunks generalizing s with
  | nil => exact h
  | cons chunk rest ih => exact ih h.applyRRSetPatch

/-! ## One RRset -/

/-- A clear of the comments behind a delete finds nothing. -/
theorem applyChange_clear (c : Change) (hdelete : c.changeType = .delete) :
    applyChange (applyChange zone c) (commentsOnlyReplace c.key) = applyChange zone c := by
  have hgone : (applyChange zone c).lookup c.key = none := by
    rw [applyChange, hdelete]
    exact lookup_erase c.key zone
  conv_lhs => rw [applyChange]
  simp only [commentsOnlyReplace, if_true]
  rw [show (Change.key ⟨c.key.name, c.key.typ, 0, .replace, [], none, true⟩) = c.key from rfl, hgone]

/-- The clears of the comments make no difference to a request. -/
theorem SentFor.applyChanges_eq (h : SentFor U patch changes) (zone : ZoneContent) :
    applyChanges zone changes = applyChanges zone (sortRRSets patch) := by
  rw [h.eq_flatMap]
  generalize sortRRSets patch = sorted
  induction sorted generalizing zone with
  | nil => rfl
  | cons c rest ih =>
    rw [flatMap_cons, applyChanges, foldl_append]
    have hfirst : List.foldl applyChange zone
        (if c.changeType = .delete then [c, commentsOnlyReplace c.key] else [c]) =
        applyChange zone c := by
      split_ifs with hdelete
      · simpa using applyChange_clear c hdelete
      · rfl
    rw [hfirst]
    exact ih (applyChange zone c)

theorem ite_none_or {α : Type} {p q : Prop} [Decidable p] [Decidable q] [Decidable (p ∨ q)]
    (x : Option α) : (if p then none else if q then none else x) = if p ∨ q then none else x := by
  by_cases hp : p <;> by_cases hq : q <;> simp [hp, hq]

/-- One change, to another RRset or a delete. -/
theorem lookup_applyChange {c : Change} (hwrite : c.changeType = .replace → c.key ≠ key) :
    (applyChange zone c).lookup key =
      if c.changeType = .delete ∧ c.key = key then none else zone.lookup key := by
  unfold applyChange
  cases hc : c.changeType with
  | delete =>
    by_cases hkey : c.key = key
    · simp [hkey]
    · simp [hkey, lookup_erase_ne (Ne.symm hkey)]
  | replace =>
    have hkey : key ≠ c.key := Ne.symm (hwrite hc)
    simp only [reduceCtorEq, false_and, if_false]
    split_ifs
    · split
      · exact lookup_insert_ne hkey
      · rfl
    · exact lookup_insert_ne hkey

/-- **An RRset that is not written** is gone after the changes if one of them deletes it, and is as
before if none does. -/
theorem lookup_applyChanges (hwrite : ∀ c ∈ changes, c.changeType = .replace → c.key ≠ key) :
    (applyChanges zone changes).lookup key =
      if ∃ c ∈ changes, c.changeType = .delete ∧ c.key = key then none else zone.lookup key := by
  induction changes generalizing zone with
  | nil => simp [applyChanges]
  | cons c rest ih =>
    have hrest : ∀ c ∈ rest, c.changeType = .replace → c.key ≠ key :=
      fun d hd => hwrite d (mem_cons_of_mem _ hd)
    rw [show applyChanges zone (c :: rest) = applyChanges (applyChange zone c) rest from rfl, ih hrest,
      lookup_applyChange (hwrite c mem_cons_self)]
    rw [ite_none_or]
    refine if_congr ?_ rfl rfl
    rw [exists_mem_cons_iff, or_comm]

/-- The deletes of a request are those of its patch. -/
theorem SentFor.lookup (h : SentFor U patch changes)
    (hwrite : ∀ c ∈ patch, c.changeType = .replace → c.key ≠ key) :
    (applyChanges zone changes).lookup key =
      if ∃ c ∈ patch, c.changeType = .delete ∧ c.key = key then none else zone.lookup key := by
  have hmem : ∀ c, c ∈ sortRRSets patch ↔ c ∈ patch := fun c => (sortRRSets_perm patch).mem_iff
  rw [h.applyChanges_eq, lookup_applyChanges fun c hc => hwrite c ((hmem c).mp hc)]
  simp [hmem]

/-- **The fate of an RRset that no request writes**: it is gone exactly if it was not there, or a
request that was carried out deletes it. -/
theorem lookup_replay {sent : List Sent} (hsent : ∀ r ∈ sent, ∃ patch, SentFor U patch r.changes ∧
      ∀ c ∈ patch, c.changeType = .replace → c.key ≠ key) :
    (replay zone sent).lookup key =
      if ∃ r ∈ sent, r.applied = true ∧ ∃ c ∈ r.changes, c.changeType = .delete ∧ c.key = key then none
      else zone.lookup key := by
  induction sent using List.reverseRecOn with
  | nil => simp [replay]
  | append_singleton sent r ih =>
    have hrest := ih fun r' hr' => hsent r' (mem_append_left _ hr')
    obtain ⟨patch, hfor, hwrite⟩ := hsent r (by simp)
    have hdelete : (∃ c ∈ patch, c.changeType = .delete ∧ c.key = key) ↔
        ∃ c ∈ r.changes, c.changeType = .delete ∧ c.key = key :=
      ⟨fun ⟨c, hc, hd, hk⟩ => ⟨c, hfor.mem_of_patch hc, hd, hk⟩,
        fun ⟨c, hc, hd, hk⟩ => ⟨c, hfor.delete_mem hc hd, hd, hk⟩⟩
    have hsplit : (∃ r' ∈ sent ++ [r], r'.applied = true ∧
          ∃ c ∈ r'.changes, c.changeType = .delete ∧ c.key = key) ↔
        (r.applied = true ∧ ∃ c ∈ r.changes, c.changeType = .delete ∧ c.key = key) ∨
          ∃ r' ∈ sent, r'.applied = true ∧
            ∃ c ∈ r'.changes, c.changeType = .delete ∧ c.key = key := by
      simp only [mem_append, mem_singleton, or_and_right, exists_or, exists_eq_left, or_comm]
    rw [replay_concat]
    by_cases happlied : r.applied = true
    · rw [if_pos happlied, hfor.lookup hwrite, hrest, ite_none_or]
      refine if_congr ?_ rfl rfl
      rw [hsplit, hdelete, and_iff_right happlied]
    · rw [if_neg happlied, hrest]
      refine if_congr ?_ rfl rfl
      rw [hsplit]
      exact ⟨.inr, fun h => h.resolve_left fun h' => happlied h'.1⟩

/-! ## The zone after `EnsureRecordSet` -/

section Ensure

variable {today zoneName : GoString} {now : Int} {rs : RecordSet}

theorem deletes_changeType {chunk : List Change}
    (h : chunk.Sublist (ensurePlan U today now zoneName zone rs).deletes) :
    ∀ c ∈ chunk, c.changeType = .delete := fun c hc =>
  ensurePlan_wellTyped.surplus c (mem_of_mem_filter ((sortRRSets_perm _).mem_iff.mp (h.subset hc)))

/-- **An RRset that the call does not write** is gone after it exactly if it was not there, or a request
that was carried out deletes it. -/
theorem lookup_unwritten
    (hunwritten : ∀ p ∈ (ensurePlan U today now zoneName zone rs).replaces, p.2.key ≠ key) :
    (ensureRecordSet U today now server zoneName zone rs).session.zone.lookup key =
      if ∃ r ∈ (ensureRecordSet U today now server zoneName zone rs).session.sent, r.applied = true ∧
        ∃ c ∈ r.changes, c.changeType = .delete ∧ c.key = key then none else zone.lookup key := by
  have hstart : Session.Replays ⟨zone, []⟩ zone := rfl
  have hreplays : (ensureRecordSet U today now server zoneName zone rs).session.Replays zone :=
    hstart.applyChunks.applyDeletes
  rw [show (ensureRecordSet U today now server zoneName zone rs).session.zone = _ from hreplays]
  refine lookup_replay (U := U) fun r hr => ?_
  rcases sent_of_ensureRecordSet hr with ⟨batch, hsub, hfor⟩ | ⟨chunk, hsub, hfor⟩
  · refine ⟨_, hfor, fun c hc hreplace => ?_⟩
    obtain ⟨⟨owner, group⟩, hgroup, hmem⟩ := mem_flatMap.mp hc
    obtain ⟨rr, hrr, own, rfl, hown⟩ := mem_pairDeletes (hsub.subset hgroup)
    rcases mem_cons.mp hmem with rfl | hmem
    · exact hunwritten _ hrr
    · rw [ensurePlan_wellTyped.surplus c (hown c hmem).1] at hreplace
      cases hreplace
  · refine ⟨chunk, hfor, fun c hc hreplace => ?_⟩
    rw [deletes_changeType hsub c hc] at hreplace
    cases hreplace

end Ensure

end InternalDNS.Pdns
