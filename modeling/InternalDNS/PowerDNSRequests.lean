import InternalDNS.PowerDNSClient

/-! # What the PowerDNS client sends

Every request of `EnsureRecordSet` is made of changes of some owners, each with the deletes that
travel with it, or of deletes that travel alone; refusals and chunks only decide which owners stand in
one request.  From this follows what is never sent: a delete of an RRset that another record set
wrote, and a delete without the new RRset at its name.
-/
namespace InternalDNS.Pdns

open Go OwnerName List

variable {U : CaseMap} {server : Server} {s : Session} {patch changes : List Change} {r : Sent}

/-! ## Requests -/

/-- The changes that are sent for a patch. -/
def SentFor (U : CaseMap) (patch changes : List Change) : Prop :=
  clearCommentsBehindDeletes U (sortRRSets patch) = .ok changes

theorem sortRRSets_perm (patch : List Change) : (sortRRSets patch).Perm patch :=
  perm_insertionSort _ _

/-- The changes of the patch are sent, and a clear of the comments behind each delete. -/
theorem SentFor.eq_flatMap (h : SentFor U patch changes) :
    changes = (sortRRSets patch).flatMap fun c =>
      if c.changeType = .delete then [c, commentsOnlyReplace c.key] else [c] := by
  simp only [SentFor, clearCommentsBehindDeletes] at h
  split at h
  · cases h
  · exact (Except.ok.inj h).symm

theorem SentFor.mem_of_patch (h : SentFor U patch changes) {c : Change} (hc : c ∈ patch) :
    c ∈ changes := by
  rw [h.eq_flatMap, mem_flatMap]
  refine ⟨c, (sortRRSets_perm patch).mem_iff.mpr hc, ?_⟩
  split_ifs
  · exact mem_cons_self
  · exact mem_cons_self

/-- Every delete that is sent is one of the patch. -/
theorem SentFor.delete_mem (h : SentFor U patch changes) {c : Change} (hc : c ∈ changes)
    (hdelete : c.changeType = .delete) : c ∈ patch := by
  rw [h.eq_flatMap, mem_flatMap] at hc
  obtain ⟨d, hd, hc⟩ := hc
  rw [(sortRRSets_perm patch).mem_iff] at hd
  split_ifs at hc
  · rcases mem_cons.mp hc with rfl | hc
    · exact hd
    · rw [mem_singleton.mp hc] at hdelete
      cases hdelete
  · rw [mem_singleton.mp hc]
    exact hd

/-- What `applyRRSetPatch` does: nothing, if there is nothing to send or the patch cannot be built,
or it sends one request and returns the error of the answer. -/
theorem applyRRSetPatch_cases (U : CaseMap) (server : Server) (s : Session) (patch : List Change) :
    patch = [] ∧ applyRRSetPatch U server s patch = (s, none) ∨
    (∃ text, applyRRSetPatch U server s patch = (s, some ⟨text, true, []⟩)) ∨
    ∃ changes zone, SentFor U patch changes ∧ applyRRSetPatch U server s patch =
      (⟨zone, s.sent ++ [⟨changes, (server s.sent.length).applied⟩]⟩,
        (server s.sent.length).error) := by
  unfold applyRRSetPatch
  split_ifs with hnil
  · exact .inl ⟨hnil, rfl⟩
  · split
    next text _ => exact .inr (.inl ⟨_, rfl⟩)
    next changes hchanges => exact .inr (.inr ⟨changes, _, hchanges, rfl⟩)

/-- A patch sends one request at most. -/
theorem sent_of_applyRRSetPatch (h : r ∈ (applyRRSetPatch U server s patch).1.sent) :
    r ∈ s.sent ∨ SentFor U patch r.changes := by
  obtain ⟨-, heq⟩ | ⟨text, heq⟩ | ⟨changes, zone, hfor, heq⟩ := applyRRSetPatch_cases U server s patch
  · rw [heq] at h
    exact .inl h
  · rw [heq] at h
    exact .inl h
  · rw [heq] at h
    rcases mem_append.mp h with h | h
    · exact .inl h
    · rw [mem_singleton.mp h]
      exact .inr hfor

/-- The changes that are sent for some of the owners that are pending. -/
def SentForSome (U : CaseMap) (pending : List (GoString × List Change)) (changes : List Change) :
    Prop :=
  ∃ batch : List (GoString × List Change), batch.Sublist pending ∧
    SentFor U (batch.flatMap (·.2)) changes

/-! ## Refusals -/

section Refusals

/-- A request of `applyIsolatingRefusals`: the changes it is for, as they are sent, and the answer. -/
structure Round where
  batch : List (GoString × List Change)
  changes : List Change
  answer : Answer

def Round.sent (r : Round) : Sent := ⟨r.changes, r.answer.applied⟩

/-- The answer refuses a change: it names one of its RRsets. -/
def Round.Refuses (U : CaseMap) (r : Round) (p : GoString × List Change) : Prop :=
  ∃ e ∈ r.answer.error, refusedIn U p.2 e.refused = true

/-- The requests of a call: each is for some of the changes, and none is for a change that was
refused before. -/
structure Rounds (U : CaseMap) (server : Server) (s s' : Session)
    (pending : List (GoString × List Change)) (rounds : List Round) : Prop where
  sent : s'.sent = s.sent ++ rounds.map Round.sent
  batch : ∀ r ∈ rounds, r.batch.Sublist pending ∧ SentFor U (r.batch.flatMap (·.2)) r.changes
  answer : ∀ k r, rounds[k]? = some r → r.answer = server (s.sent.length + k)
  once : rounds.Pairwise fun a b => ∀ p ∈ b.batch, ¬ a.Refuses U p

variable {s' : Session} {pending kept : List (GoString × List Change)} {rounds : List Round}

theorem Rounds.nil : Rounds U server s s pending [] := ⟨by simp, nofun, nofun, .nil⟩

/-- One request more, before those for the changes that are kept. -/
theorem Rounds.cons {zone : ZoneContent} (hfor : SentFor U (pending.flatMap (·.2)) changes)
    (hkept : kept.Sublist pending)
    (hsafe : ∀ p ∈ kept, ∀ e ∈ (server s.sent.length).error, refusedIn U p.2 e.refused = false)
    (h : Rounds U server ⟨zone, s.sent ++ [⟨changes, (server s.sent.length).applied⟩]⟩ s' kept rounds) :
    Rounds U server s s' pending (⟨pending, changes, server s.sent.length⟩ :: rounds) where
  sent := by
    rw [h.sent, append_assoc]
    rfl
  batch := forall_mem_cons.mpr ⟨⟨Sublist.refl _, hfor⟩, fun r hr =>
    ⟨(h.batch r hr).1.trans hkept, (h.batch r hr).2⟩⟩
  answer
    | 0, _, rfl => rfl
    | k + 1, r, hr => by
      rw [h.answer k r hr, length_append, length_singleton, Nat.add_right_comm, Nat.add_assoc]
  once := by
    refine pairwise_cons.mpr ⟨fun b hb p hp ⟨e, he, hrefused⟩ => ?_, h.once⟩
    rw [hsafe p ((h.batch b hb).1.subset hp) e he] at hrefused
    cases hrefused

/-- The requests of `applyIsolatingRefusals`, and the changes that fail: those in no request that was
carried out.  Every round but the last leaves fewer changes. -/
theorem isolating_rounds (U : CaseMap) (server : Server) (s : Session) {fuel : Nat}
    (hfuel : pending.length ≤ fuel) : ∃ rounds failed,
    Rounds U server s (applyIsolatingRefusals U server fuel s pending).1 pending rounds ∧
    rounds.length ≤ pending.length ∧ failed ⊆ pending ∧
    (applyIsolatingRefusals U server fuel s pending).2.map Prod.fst = failed.map Prod.fst ∧
    ((∀ p ∈ pending, p.2 ≠ []) → (∀ i, (server i).applied = true → (server i).error = none) →
      ∀ p ∈ pending, p ∈ failed ↔ ¬ ∃ r ∈ rounds, p ∈ r.batch ∧ r.answer.applied = true) := by
  induction fuel generalizing s pending with
  | zero =>
    obtain rfl : pending = [] := eq_nil_of_length_eq_zero (Nat.le_zero.mp hfuel)
    exact ⟨[], [], .nil, le_rfl, Subset.refl _, rfl, nofun⟩
  | succ fuel ih =>
    rw [applyIsolatingRefusals]
    split_ifs with hnil
    · subst hnil
      exact ⟨[], [], .nil, le_rfl, Subset.refl _, rfl, nofun⟩
    obtain ⟨hpatch, heq⟩ | ⟨text, heq⟩ | ⟨changes, zone, hfor, heq⟩ :=
      applyRRSetPatch_cases U server s (pending.flatMap (·.2))
    · rw [heq]
      refine ⟨[], [], .nil, Nat.zero_le _, nil_subset _, rfl, fun hsome _ p hp => ?_⟩
      exact absurd (flatMap_eq_nil_iff.mp hpatch p hp) (hsome p hp)
    · rw [heq]
      have hnobody : pending.filter (fun p => refusedIn U p.2 []) = [] := by simp [refusedIn]
      simp only [hnobody, if_true]
      exact ⟨[], pending, .nil, Nat.zero_le _, Subset.refl _, by simp, fun _ _ p hp => by simpa using hp⟩
    rw [heq]
    cases herror : (server s.sent.length).error with
    | none =>
      refine ⟨[_], [], .cons hfor (Sublist.refl _) (by simp [herror]) .nil, length_pos_of_ne_nil hnil,
        nil_subset _, rfl, fun _ _ p hp => iff_of_false not_mem_nil (not_not.mpr ?_)⟩
      exact ⟨_, mem_cons_self, hp, (server _).accepted herror⟩
    | some e =>
      have hrefusal : (∀ i, (server i).applied = true → (server i).error = none) →
          (server s.sent.length).applied ≠ true := by
        intro hatomic happlied
        rw [hatomic _ happlied] at herror
        cases herror
      dsimp only
      split_ifs with hnobody
      · refine ⟨[_], pending, .cons hfor (nil_sublist _) nofun .nil, length_pos_of_ne_nil hnil,
          Subset.refl _, by simp, fun _ hatomic p hp => iff_of_true hp ?_⟩
        simp [hrefusal hatomic]
      · have hsafe : ∀ p ∈ pending.filter fun p => !refusedIn U p.2 e.refused,
            ∀ e ∈ (server s.sent.length).error, refusedIn U p.2 e.refused = false := by
          intro p hp e' he'
          obtain rfl : e = e' := Option.some.inj (herror.symm.trans he')
          simpa using of_mem_filter hp
        have hfewer : (pending.filter fun p => !refusedIn U p.2 e.refused).length < pending.length := by
          rw [filter_eq_nil_iff] at hnobody
          push Not at hnobody
          obtain ⟨p, hp, hrefused⟩ := hnobody
          exact length_filter_lt_length_iff_exists.mpr ⟨p, hp, by simp [hrefused]⟩
        obtain ⟨rounds, failed, hrounds, hcount, hsub, hlabels, hfailed⟩ := ih _
          (Nat.le_of_lt_succ (lt_of_lt_of_le hfewer hfuel))
        refine ⟨_, pending.filter (fun p => refusedIn U p.2 e.refused) ++ failed,
          .cons hfor filter_sublist hsafe hrounds, lt_of_le_of_lt hcount hfewer,
          append_subset.mpr ⟨filter_sublist.subset, Subset.trans hsub filter_sublist.subset⟩,
          by simp [hlabels], fun hsome hatomic p hp => ?_⟩
        rw [exists_mem_cons_iff, or_iff_right fun h => hrefusal hatomic h.2, mem_append, mem_filter]
        by_cases hrefused : refusedIn U p.2 e.refused = true
        · refine iff_of_true (.inl ⟨hp, hrefused⟩) fun ⟨r, hr, hbatch, _⟩ => ?_
          have hkept := of_mem_filter ((hrounds.batch r hr).1.subset hbatch)
          simp [hrefused] at hkept
        · rw [or_iff_right fun h => hrefused h.2]
          exact hfailed (fun p hp => hsome p (mem_of_mem_filter hp)) hatomic p
            (mem_filter.mpr ⟨hp, by simpa using hrefused⟩)

/-- **A refusal is isolated.**  For changes that each have an RRset, under labels that tell them
apart, and any server that carries a patch out or returns an error, the requests are at most as many
as the changes, no change is in a request after one that refused it, and a change has no error exactly
if it was in a request that was carried out. -/
theorem isolating_verdicts (U : CaseMap) (server : Server) (s : Session)
    {changes : List (GoString × List Change)} (hlabels : (changes.map Prod.fst).Nodup)
    (hsome : ∀ p ∈ changes, p.2 ≠ [])
    (hatomic : ∀ i, (server i).applied = true → (server i).error = none) :
    ∃ rounds,
      Rounds U server s (applyIsolatingRefusals U server changes.length s changes).1 changes rounds ∧
      rounds.length ≤ changes.length + 1 ∧ ∀ p ∈ changes,
        (p.1 ∉ (applyIsolatingRefusals U server changes.length s changes).2.map Prod.fst ↔
          ∃ r ∈ rounds, p ∈ r.batch ∧ r.answer.applied = true) := by
  obtain ⟨rounds, failed, hrounds, hcount, hsub, heq, hfailed⟩ :=
    isolating_rounds U server s (le_refl changes.length)
  refine ⟨rounds, hrounds, Nat.le_succ_of_le hcount, fun p hp => ?_⟩
  rw [heq, ← not_iff_not, not_not, ← hfailed hsome hatomic p hp]
  refine ⟨fun hmem => ?_, mem_map_of_mem⟩
  obtain ⟨q, hq, hlabel⟩ := mem_map.mp hmem
  exact inj_on_of_nodup_map hlabels (hsub hq) hp hlabel ▸ hq

/-- A server that refuses the first request because of one RRset. -/
def refusesFirst : Server
  | 0 => ⟨false, some ⟨[], false, [⟨lit "a.", lit "A"⟩]⟩, nofun⟩
  | _ + 1 => ⟨true, none, fun _ => rfl⟩

theorem second_sent_again :
    ∃ rounds : List Round, rounds.length ≤ 3 ∧
      (∃ r ∈ rounds, (lit "b", [newDeleteRRSet ⟨lit "b.", lit "A"⟩]) ∈ r.batch ∧
        r.answer.applied = true) ∧
      ¬ ∃ r ∈ rounds, (lit "a", [newDeleteRRSet ⟨lit "a.", lit "A"⟩]) ∈ r.batch ∧
        r.answer.applied = true := by
  obtain ⟨rounds, -, hcount, hverdict⟩ := isolating_verdicts .ascii refusesFirst ⟨∅, []⟩
    (show ([(lit "a", [newDeleteRRSet ⟨lit "a.", lit "A"⟩]),
      (lit "b", [newDeleteRRSet ⟨lit "b.", lit "A"⟩])].map Prod.fst).Nodup by decide) (by decide)
    (fun | 0 => nofun | _ + 1 => fun _ => rfl)
  exact ⟨rounds, hcount, (hverdict _ (by simp)).mp (by decide),
    mt (hverdict _ (by simp)).mpr (by decide)⟩

end Refusals

/-- **Refusals leave the changes of an owner together**: every request is for some of the owners. -/
theorem sent_of_isolating {pending : List (GoString × List Change)}
    (h : r ∈ (applyIsolatingRefusals U server pending.length s pending).1.sent) :
    r ∈ s.sent ∨ SentForSome U pending r.changes := by
  obtain ⟨rounds, -, hrounds, -⟩ := isolating_rounds U server s (le_refl pending.length)
  rw [hrounds.sent] at h
  refine (mem_append.mp h).imp_right fun h => ?_
  obtain ⟨round, hround, rfl⟩ := mem_map.mp h
  exact ⟨round.batch, hrounds.batch round hround⟩

/-! ## Chunks -/

theorem chunksOf_sublist {α : Type} {size rounds : Nat} {l chunk : List α}
    (h : chunk ∈ chunksOf size rounds l) : chunk.Sublist l := by
  induction rounds generalizing l with
  | zero => cases h
  | succ rounds ih =>
    rw [chunksOf] at h
    split_ifs at h
    · cases h
    · rcases mem_cons.mp h with rfl | h
      · exact take_sublist ..
      · exact (ih h).trans (drop_sublist ..)

theorem chunkRRSets_sublist {α : Type} {l chunk : List α} (h : chunk ∈ chunkRRSets l) :
    chunk.Sublist l := chunksOf_sublist h

theorem sent_of_applyChunks {chunks : List (List (GoString × List Change))}
    (h : r ∈ (applyChunks U server s chunks).1.sent) :
    r ∈ s.sent ∨ ∃ chunk ∈ chunks, SentForSome U chunk r.changes := by
  induction chunks generalizing s with
  | nil => exact .inl h
  | cons chunk rest ih =>
    rcases ih h with hr | ⟨later, hlater, hsent⟩
    · exact (sent_of_isolating hr).imp_right fun hsent => ⟨chunk, mem_cons_self, hsent⟩
    · exact .inr ⟨later, mem_cons_of_mem _ hlater, hsent⟩

variable {chunks : List (List Change)}

theorem sent_of_applyDeletes (h : r ∈ (applyDeletes U server s chunks).sent) :
    r ∈ s.sent ∨ ∃ chunk ∈ chunks, SentFor U chunk r.changes := by
  induction chunks generalizing s with
  | nil => exact .inl h
  | cons chunk rest ih =>
    rcases ih h with hr | ⟨later, hlater, hsent⟩
    · exact (sent_of_applyRRSetPatch hr).imp_right fun hsent => ⟨chunk, mem_cons_self, hsent⟩
    · exact .inr ⟨later, mem_cons_of_mem _ hlater, hsent⟩

theorem sent_of_deleteChunks (h : r ∈ (deleteChunks U server s chunks).1.sent) :
    r ∈ s.sent ∨ ∃ chunk ∈ chunks, SentFor U chunk r.changes := by
  induction chunks generalizing s with
  | nil => exact .inl h
  | cons chunk rest ih =>
    have hfirst : ∀ {s' : Session} {e : Option PatchError},
        applyRRSetPatch U server s chunk = (s', e) → r ∈ s'.sent →
        r ∈ s.sent ∨ ∃ chunk' ∈ chunk :: rest, SentFor U chunk' r.changes := by
      intro s' e heq hr
      have hsent : r ∈ (applyRRSetPatch U server s chunk).1.sent := by rw [heq]; exact hr
      exact (sent_of_applyRRSetPatch hsent).imp_right fun hfor => ⟨chunk, mem_cons_self, hfor⟩
    rw [deleteChunks] at h
    split at h
    next s' e heq => exact hfirst heq h
    next s' heq =>
      rcases ih h with hr | ⟨later, hlater, hsent⟩
      · exact hfirst heq hr
      · exact .inr ⟨later, mem_cons_of_mem _ hlater, hsent⟩

/-! ## The requests of the calls -/

section Calls

variable {today zoneName : GoString} {now : Int} {zone : ZoneContent} {rs : RecordSet} {plan : Plan}
  {owner : GoString} {c : Change}

/-- **Every request of `EnsureRecordSet`** is for the changes of some owners, or for deletes that
travel alone. -/
theorem sent_of_ensureRecordSet
    (h : r ∈ (ensureRecordSet U today now server zoneName zone rs).session.sent) :
    SentForSome U (ensurePlan U today now zoneName zone rs).changes r.changes ∨
      ∃ chunk : List Change, chunk.Sublist (ensurePlan U today now zoneName zone rs).deletes ∧
        SentFor U chunk r.changes := by
  rcases sent_of_applyDeletes h with h | ⟨chunk, hchunk, hfor⟩
  · rcases sent_of_applyChunks h with h | ⟨chunk, hchunk, batch, hsub, hfor⟩
    · cases h
    · exact .inl ⟨batch, hsub.trans (chunkRRSets_sublist hchunk), hfor⟩
  · exact .inr ⟨chunk, chunkRRSets_sublist hchunk, hfor⟩

/-- The changes of an owner: its RRset, and deletes at the same name. -/
theorem mem_pairDeletes {replaces : List (GoString × Change)} {deletes : List Change}
    {group : List Change} (h : (owner, group) ∈ pairDeletes replaces deletes) :
    ∃ rr, (owner, rr) ∈ replaces ∧ ∃ own, group = rr :: own ∧
      ∀ d ∈ own, d ∈ deletes ∧ d.name = rr.name := by
  induction replaces with
  | nil => cases h
  | cons first rest ih =>
    rcases mem_cons.mp h with heq | h
    · obtain ⟨rfl, rfl⟩ := Prod.mk.inj heq
      refine ⟨first.2, mem_cons_self, _, rfl, fun d hd => ?_⟩
      split_ifs at hd
      · cases hd
      · exact ⟨mem_of_mem_filter hd, by simpa using of_mem_filter hd⟩
    · obtain ⟨rr, hrr, hgroup⟩ := ih h
      exact ⟨rr, mem_cons_of_mem _ hrr, hgroup⟩

/-- The values of a write: the contents that were built, of a SOA record with a serial that does not
fall behind the one that is served. -/
def WrittenValues (rs : RecordSet) (current : Option ZoneRRset) (records values : List GoString) :
    Prop :=
  values = match current with
    | some current => if rs.recordType = .SOA then keepSOASerialRising records current else records
    | none => records

/-- What is written for an owner name. -/
theorem decideOwner_eq_replace (h : decideOwner U today now zoneName zone rs owner = .replace c) :
    ∃ built values comments,
      buildOwnerRRSet U today zoneName rs.recordType owner
        (((GoMap.group (·.name) rs.records).lookup owner).getD []) = some built ∧
      WrittenValues rs (zone.lookup ⟨qualify U owner zoneName, rs.recordType.text⟩) built.records
        values ∧
      c = buildReplaceRRSet U rs zoneName owner built.ttl values comments now := by
  unfold decideOwner at h
  cases hbuilt : buildOwnerRRSet U today zoneName rs.recordType owner
      (((GoMap.group (·.name) rs.records).lookup owner).getD []) with
  | none => simp [hbuilt] at h
  | some built =>
    simp only [hbuilt] at h
    cases hcurrent : zone.lookup ⟨qualify U owner zoneName, rs.recordType.text⟩ with
    | none =>
      simp only [hcurrent, Decision.replace.injEq] at h
      exact ⟨built, built.records, [], rfl, rfl, h.symm⟩
    | some current =>
      simp only [hcurrent] at h
      by_cases hmatch : rrsetMatchesObject current rs = true
      · simp [hmatch] at h
      · simp only [hmatch, Bool.false_eq_true, if_false, Decision.replace.injEq] at h
        exact ⟨built, _, _, rfl, rfl, h.symm⟩

theorem mem_replaces (h : (owner, c) ∈ (ensurePlan U today now zoneName zone rs).replaces) :
    owner ∈ (GoMap.group (·.name) rs.records).keys ∧
      decideOwner U today now zoneName zone rs owner = .replace c := by
  obtain ⟨⟨owner', d⟩, hd, hp⟩ := mem_filterMap.mp h
  obtain ⟨owner'', howner, heq⟩ := mem_map.mp hd
  obtain ⟨rfl, rfl⟩ := Prod.mk.inj heq
  cases hdecide : decideOwner U today now zoneName zone rs owner'' with
  | replace c' =>
    simp only [hdecide, Option.some.injEq, Prod.mk.injEq] at hp
    obtain ⟨rfl, rfl⟩ := hp
    exact ⟨(mem_insertionSort _).mp howner, hdecide⟩
  | unbuilt => simp [hdecide] at hp
  | current => simp [hdecide] at hp

/-- The changes of the plan are writes of its own type. -/
structure WellTyped (plan : Plan) (typ : GoString) : Prop where
  replace : ∀ p ∈ plan.replaces, p.2.changeType = .replace ∧ p.2.commentsOnly = false ∧ p.2.typ = typ
  surplus : ∀ c ∈ plan.surplus, c.changeType = .delete

theorem ensurePlan_wellTyped :
    WellTyped (ensurePlan U today now zoneName zone rs) rs.recordType.text := by
  refine ⟨fun p hp => ?_, fun c hc => ?_⟩
  · obtain ⟨built, values, comments, -, -, heq⟩ := decideOwner_eq_replace (mem_replaces hp).2
    rw [heq]
    exact ⟨rfl, rfl, rfl⟩
  · obtain ⟨key, -, rfl⟩ := mem_map.mp hc
    rfl

/-- **A delete of a plan travels with the new RRset at its name**, if there is one. -/
theorem delete_with_replace (htyped : WellTyped plan rs.recordType.text)
    (hsent : SentForSome U plan.changes changes ∨
      ∃ chunk : List Change, chunk.Sublist plan.deletes ∧ SentFor U chunk changes)
    (hc : c ∈ changes) (hdelete : c.changeType = .delete) :
    c ∈ plan.surplus ∧ ((∃ p ∈ plan.replaces, p.2.name = c.name) →
      ∃ p ∈ plan.replaces, p.2.name = c.name ∧ p.2 ∈ changes) := by
  rcases hsent with ⟨batch, hsub, hfor⟩ | ⟨chunk, hsub, hfor⟩
  · obtain ⟨⟨owner, group⟩, hgroup, hmem⟩ := mem_flatMap.mp (hfor.delete_mem hc hdelete)
    obtain ⟨rr, hrr, own, rfl, hown⟩ := mem_pairDeletes (hsub.subset hgroup)
    rcases mem_cons.mp hmem with rfl | hmem
    · have hreplace := (htyped.replace _ hrr).1
      rw [hdelete] at hreplace
      cases hreplace
    · obtain ⟨hsurplus, hname⟩ := hown c hmem
      refine ⟨hsurplus, fun _ => ⟨(owner, rr), hrr, hname.symm, hfor.mem_of_patch ?_⟩⟩
      exact mem_flatMap.mpr ⟨_, hgroup, mem_cons_self⟩
  · have hmem : c ∈ unpairedDeletes plan.replaces plan.surplus :=
      (sortRRSets_perm _).mem_iff.mp (hsub.subset (hfor.delete_mem hc hdelete))
    refine ⟨mem_of_mem_filter hmem, fun ⟨p, hp, hname⟩ => ?_⟩
    have hnone := of_mem_filter hmem
    simp only [Bool.not_eq_true', any_eq_false, decide_eq_true_eq] at hnone
    exact absurd hname (hnone p hp)

/-- The RRsets that a record set wrote. -/
theorem owner_of_ownedSurplus {ownerRef typ : GoString} {wanted : List GoString} {key : RRKey}
    (h : key ∈ ownedSurplus zone ownerRef typ wanted) :
    ∃ rr, zone.lookup key = some rr ∧ rrsetOwnerRef rr = ownerRef := by
  have hp := of_mem_filter h
  rw [Bool.and_eq_true, Option.any_eq_true] at hp
  obtain ⟨⟨rr, hrr, howner⟩, -⟩ := hp
  exact ⟨rr, hrr, of_decide_eq_true howner⟩

end Calls

end InternalDNS.Pdns
