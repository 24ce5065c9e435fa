import InternalDNS.ContextZones
import InternalDNS.Ranking
import InternalDNS.ReservedScopes

/-! # Which associations are accepted

`reconcileAssociations` goes through the zone associations of a namespace in the order of their names.
An association is refused if its references are not current, if its zone shadows a reserved subtree,
or if its apex is owned by another zone of the context already.  Those that are left over compete for
the 256 zones that a context may have: `overZoneLimit` ranks the zones, with the managed zone of the
context first, then those that are accepted already, and refuses the rest.

A pass starts from nothing but the accepted conditions of the pass before.  The zone limit respects
them, and the apex does not: `accepted_after_creation_iff` says that an accepted association stays
accepted when another one is created, unless the new one has the first name of its apex.
-/
namespace InternalDNS.Controlplane

open Go Platform List Ranking

/-- What the `Accepted` condition of an association says. -/
inductive Verdict where
  | accepted
  | invalidReference
  | reservedScope
  | apexConflict
  | zoneLimitExceeded
  deriving DecidableEq

/-- The reason of the condition. -/
def Verdict.reason : Verdict → GoString
  | .accepted => lit "Accepted"
  | .invalidReference => lit "InvalidReference"
  | .reservedScope => lit "ReservedScope"
  | .apexConflict => lit "ApexConflict"
  | .zoneLimitExceeded => lit "ZoneLimitExceeded"

/-- The `Accepted` condition. -/
structure AcceptedCondition where
  verdict : Verdict
  observedGeneration : Nat
  lastTransitionTime : Time

/-- `v1alpha1.DNSZoneAssociation`, with what its references resolve to. -/
structure Association where
  name : GoString
  generation : Nat
  created : Time
  deleting : Bool
  zone : DNSZone
  resolver : ResolverContext
  /-- `pinReferences` has found both references to be what they were. -/
  referencesCurrent : Bool
  /-- The context controls the association. -/
  managed : Bool
  condition : Option AcceptedCondition

namespace Association

/-- `controlplane.associationAccepted`. -/
def accepted (a : Association) : Bool :=
  !a.deleting && a.condition.any fun c => c.verdict = .accepted && c.observedGeneration = a.generation

/-- The time since when it is accepted. -/
def since (a : Association) : Time := a.condition.elim 0 AcceptedCondition.lastTransitionTime

/-- `setCondition`: the time changes only with the status. -/
def setCondition (now : Time) (a : Association) (verdict : Verdict) : Association :=
  let unchanged := a.condition.filter fun c =>
    decide (c.verdict = .accepted) = decide (verdict = .accepted)
  { a with
    condition := some ⟨verdict, a.generation, unchanged.elim now AcceptedCondition.lastTransitionTime⟩ }

end Association

variable (E : Externals) (regs : List DNSRegistration)

/-- The owners of the apexes, by context and apex. -/
abbrev ApexOwners := GoMap (GoString × GoString) GoString

/-- The key under which an association claims its apex. -/
def Association.apexKey (a : Association) : GoString × GoString :=
  (a.resolver.uid, canonicalName E.cases a.zone.domainName)

/-- The association passes the checks that do not depend on others. -/
def Association.current (a : Association) : Bool :=
  !a.deleting && a.referencesCurrent && !shadowsContext E a.zone a.resolver regs

/-- One association of the first loop: the owners after it, and its verdict.  If that is `accepted`
the zone limit is still to be applied. -/
def judge (owners : ApexOwners) (a : Association) : ApexOwners × Verdict :=
  if a.deleting || !a.referencesCurrent then (owners, .invalidReference)
  else if shadowsContext E a.zone a.resolver regs then (owners, .reservedScope)
  else if (owners.lookup (a.apexKey E)).any fun old => old ≠ [] && old ≠ a.zone.uid then
    (owners, .apexConflict)
  else (owners.insert (a.apexKey E) a.zone.uid, .accepted)

/-- The first loop. -/
def judgeAll : ApexOwners → List Association → List (Association × Verdict)
  | _, [] => []
  | owners, a :: items =>
    let (next, verdict) := judge E regs owners a
    (a, verdict) :: judgeAll next items

/-! ## The zone limit -/

/-- `maxZonesPerResolverContext`. -/
def maxZonesPerResolverContext : Nat := 256

/-- `zoneRank`. -/
structure ZoneRank where
  uid : GoString
  managed : Bool
  accepted : Bool
  since : Time
  created : Time
  name : GoString

/-- The rank of a zone after one more of its associations. -/
def ZoneRank.add (rank : ZoneRank) (a : Association) : ZoneRank where
  uid := rank.uid
  managed := rank.managed || a.managed
  accepted := rank.accepted || a.accepted
  since := if a.accepted ∧ (rank.accepted = false ∨ a.since < rank.since) then a.since else rank.since
  created := if a.created < rank.created then a.created else rank.created
  name := if a.name < rank.name then a.name else rank.name

/-- The rank of a zone that the associations `list` attach. -/
def rankOf (list : List Association) (uid : GoString) : ZoneRank :=
  let own := list.filter (·.zone.uid = uid)
  own.foldl ZoneRank.add
    ⟨uid, false, false, 0, (own.head?.map Association.created).getD 0,
      (own.head?.map Association.name).getD []⟩

/-- The order of `overZoneLimit`. -/
def ZoneRank.before (a b : ZoneRank) : Bool :=
  if a.managed ≠ b.managed then a.managed
  else if a.accepted ≠ b.accepted then a.accepted
  else if a.accepted && a.since ≠ b.since then a.since < b.since
  else if a.created ≠ b.created then a.created < b.created
  else if a.name ≠ b.name then a.name < b.name
  else a.uid < b.uid

/-- Not behind the other. -/
def ZoneRank.le (a b : ZoneRank) : Prop := b.before a = false

instance : DecidableRel ZoneRank.le := fun a b => inferInstanceAs (Decidable (b.before a = false))

/-- The zones of the associations, ranked. -/
def zoneRanks (list : List Association) : List ZoneRank :=
  (list.map (·.zone.uid)).dedup.map (rankOf list)

/-- `controlplane.overZoneLimit`: the association, of the candidates of one context, is refused. -/
def overZoneLimit (list : List Association) (a : Association) : Bool :=
  (Ranking.drop ZoneRank.le maxZonesPerResolverContext (zoneRanks list)).any (·.uid = a.zone.uid)

/-! ## A pass -/

/-- The candidates of a context. -/
def candidates (judged : List (Association × Verdict)) (contextUID : GoString) : List Association :=
  (judged.filter fun j => j.2 = .accepted ∧ j.1.resolver.uid = contextUID).map Prod.fst

/-- The verdict after the zone limit. -/
def limited (judged : List (Association × Verdict)) (j : Association × Verdict) : Verdict :=
  if j.2 = .accepted ∧ overZoneLimit (candidates judged j.1.resolver.uid) j.1 then .zoneLimitExceeded
  else j.2

/-- `controlplane.reconcileAssociations`: the associations with their new conditions. -/
def reconcileAssociations (now : Time) (items : List Association) : List Association :=
  let judged := judgeAll E regs ∅ (items.insertionSort fun a b => a.name ≤ b.name)
  judged.map fun j => j.1.setCondition now (limited judged j)

/-! ## The apex -/

variable {E regs} {a : Association} {items list : List Association} {b : ZoneRank}

/-- The association passes all checks but the zone limit. -/
def Association.Owns (E : Externals) (regs : List DNSRegistration) (items : List Association)
    (a : Association) : Prop :=
  Ranking.Wins (Association.current E regs) (Association.apexKey E) (·.zone.uid) items a

/-- The owners are those of the associations so far. -/
def OwnersOf (E : Externals) (regs : List DNSRegistration) (done : List Association)
    (owners : ApexOwners) : Prop :=
  ∀ k, owners.lookup k = (Ranking.first (Association.current E regs) (Association.apexKey E) k
    done).map (·.zone.uid)

open Association

theorem current_of_not_refused (hreference : ¬ (a.deleting || !a.referencesCurrent) = true)
    (hshadows : ¬ shadowsContext E a.zone a.resolver regs = true) : a.current E regs = true := by
  simp only [Bool.or_eq_true, Bool.not_eq_true', not_or, Bool.not_eq_true, Bool.not_eq_false] at hreference
  simp [current, hreference.1, hreference.2, hshadows]

theorem judge_of_not_current (owners : ApexOwners) (h : a.current E regs = false) :
    (judge E regs owners a).1 = owners ∧ (judge E regs owners a).2 ≠ .accepted := by
  unfold judge
  split_ifs with hreference hshadows hconflict
  · exact ⟨rfl, nofun⟩
  · exact ⟨rfl, nofun⟩
  · exact ⟨rfl, nofun⟩
  · rw [current_of_not_refused hreference hshadows] at h
    cases h

theorem judge_of_current {owners : ApexOwners} (h : a.current E regs = true) :
    judge E regs owners a =
      if (owners.lookup (a.apexKey E)).any fun old => old ≠ [] && old ≠ a.zone.uid then
        (owners, .apexConflict)
      else (owners.insert (a.apexKey E) a.zone.uid, .accepted) := by
  simp only [current, Bool.and_eq_true, Bool.not_eq_true'] at h
  unfold judge
  rw [if_neg (by simp [h.1.1, h.1.2]), if_neg (by simp [h.2])]

/-- **One association.** -/
theorem judge_spec {done : List Association} {owners : ApexOwners}
    (howners : OwnersOf E regs done owners) (huids : ∀ x ∈ done, x.zone.uid ≠ []) :
    OwnersOf E regs (done ++ [a]) (judge E regs owners a).1 ∧
      ((judge E regs owners a).2 = .accepted ↔ a.Owns E regs (done ++ [a])) := by
  cases hcurrent : a.current E regs with
  | false =>
    obtain ⟨hsame, hrefused⟩ := judge_of_not_current owners hcurrent
    refine ⟨fun k => ?_, iff_of_false hrefused fun howns => ?_⟩
    · rw [hsame, howners k, first_append]
      simp [first, hcurrent]
    · rw [howns.1] at hcurrent
      cases hcurrent
  | true =>
    have hfirst : ∀ k, first (current E regs) (apexKey E) k
        (done ++ [a]) = (first (current E regs) (apexKey E) k done).or
          (if a.apexKey E = k then some a else none) := by
      intro k
      by_cases hk : a.apexKey E = k <;> simp [first, hcurrent, hk]
    have hinsert : ∀ k, (owners.insert (a.apexKey E) a.zone.uid).lookup k =
        if a.apexKey E = k then some a.zone.uid else owners.lookup k := by
      intro k
      split_ifs with hk
      · rw [← hk, AList.lookup_insert]
      · exact AList.lookup_insert_ne (Ne.symm hk)
    rw [judge_of_current hcurrent, howners]
    unfold Association.Owns Ranking.Wins
    cases hold : first (current E regs) (apexKey E) (a.apexKey E)
        done with
    | none =>
      refine ⟨fun k => ?_, by simp [hfirst, hold, hcurrent]⟩
      simp only [Option.map_none, Option.any_none, Bool.false_eq_true, if_false, hinsert, hfirst]
      split_ifs with hk
      · rw [← hk, hold]
        rfl
      · rw [howners, Option.or_none]
    | some f =>
      obtain ⟨hmem, -, hkey⟩ := mem_of_first hold
      have huid := huids f hmem
      by_cases hsame : f.zone.uid = a.zone.uid
      · refine ⟨fun k => ?_, by simp [hfirst, hold, hcurrent, hsame]⟩
        simp only [Option.map_some, Option.any_some, hsame, ne_eq, not_true_eq_false, decide_false,
          Bool.and_false, Bool.false_eq_true, if_false, hinsert, hfirst]
        split_ifs with hk
        · rw [← hk, hold, Option.some_or, Option.map_some, hsame]
        · rw [howners, Option.or_none]
      · refine ⟨fun k => ?_, by simp [hfirst, hold, hcurrent, hsame, huid]⟩
        simp only [Option.map_some, Option.any_some, ne_eq, huid, hsame, not_false_eq_true, decide_true,
          Bool.and_self, if_true, hfirst]
        rw [howners]
        split_ifs with hk
        · rw [← hk, hold, Option.some_or]
        · rw [Option.or_none]

/-- **The first loop.**  What is left over are the associations whose apex belongs to their zone. -/
theorem judgeAll_spec (E : Externals) (regs : List DNSRegistration)
    (huids : ∀ x ∈ items, x.zone.uid ≠ []) :
    (judgeAll E regs ∅ items).map Prod.fst = items ∧
      ∀ j ∈ judgeAll E regs ∅ items, (j.2 = .accepted ↔ j.1.Owns E regs items) := by
  suffices main : ∀ (rest done : List Association) (owners : ApexOwners), items = done ++ rest →
      OwnersOf E regs done owners → (judgeAll E regs owners rest).map Prod.fst = rest ∧
        ∀ j ∈ judgeAll E regs owners rest, (j.2 = .accepted ↔ j.1.Owns E regs items) from
    main items [] ∅ rfl fun k => rfl
  intro rest
  induction rest with
  | nil =>
    intro done owners _ _
    exact ⟨rfl, fun j hj => absurd hj not_mem_nil⟩
  | cons a rest ih =>
    intro done owners hitems howners
    obtain ⟨hnext, hverdict⟩ := judge_spec howners (a := a)
      fun x hx => huids x (by rw [hitems]; exact mem_append_left _ hx)
    have hsplit : items = done ++ [a] ++ rest := by rw [hitems, append_assoc, singleton_append]
    obtain ⟨hmap, hrest⟩ := ih (done ++ [a]) _ hsplit hnext
    have hcons : judgeAll E regs owners (a :: rest) =
        (a, (judge E regs owners a).2) :: judgeAll E regs (judge E regs owners a).1 rest := rfl
    rw [hcons]
    refine ⟨by rw [map_cons, hmap], forall_mem_cons.mpr ⟨hverdict.trans ?_, hrest⟩⟩
    rw [hsplit]
    exact (wins_append_iff (by simp)).symm

/-! ## Ranks -/

/-- The key that ranks are compared by. -/
def ZoneRank.key (r : ZoneRank) :
    Bool ×ₗ (Bool ×ₗ (Time ×ₗ (Time ×ₗ (GoString ×ₗ GoString)))) :=
  toLex (!r.managed, toLex (!r.accepted, toLex (if r.accepted then r.since else 0,
    toLex (r.created, toLex (r.name, r.uid)))))

theorem ZoneRank.before_iff {a b : ZoneRank} : a.before b = true ↔ a.key < b.key := by
  obtain ⟨au, am, aa, as, ac, an⟩ := a
  obtain ⟨bu, bm, ba, bs, bc, bn⟩ := b
  simp only [before, key, Prod.Lex.toLex_lt_toLex]
  cases am <;> cases bm <;> cases aa <;> cases ba <;> simp [lt_iff_le_and_ne] <;> grind

theorem ZoneRank.le_iff {a b : ZoneRank} : a.le b ↔ a.key ≤ b.key := by
  rw [ZoneRank.le, ← not_lt, ← ZoneRank.before_iff, Bool.not_eq_true]

instance : Std.Total ZoneRank.le where
  total a b := by
    rw [ZoneRank.le_iff, ZoneRank.le_iff]
    exact le_total _ _

instance : IsTrans ZoneRank ZoneRank.le where
  trans a b c hab hbc := by
    rw [ZoneRank.le_iff] at hab hbc ⊢
    exact hab.trans hbc

/-- A managed zone is only behind managed ones. -/
theorem ZoneRank.le.managed {a b : ZoneRank} (h : a.le b) (hb : b.managed = true) : a.managed = true := by
  by_contra ha
  simp [ZoneRank.le, before, hb, ha] at h

/-- An accepted zone is only behind accepted ones, and behind managed ones if it is not managed. -/
theorem ZoneRank.le.accepted {a b : ZoneRank} (h : a.le b) (hb : b.accepted = true) :
    a.accepted = true ∨ (a.managed = true ∧ b.managed = false) := by
  by_contra hnot
  rw [not_or, not_and_or] at hnot
  obtain ⟨ha, hmanaged⟩ := hnot
  cases ham : a.managed <;> cases hbm : b.managed <;>
    simp_all [ZoneRank.le, before]

theorem rankOf_spec (list : List Association) (uid : GoString) : (rankOf list uid).uid = uid ∧
    ((rankOf list uid).managed = true ↔ ∃ a ∈ list, a.zone.uid = uid ∧ a.managed = true) ∧
    ((rankOf list uid).accepted = true ↔ ∃ a ∈ list, a.zone.uid = uid ∧ a.accepted = true) := by
  have hown : ∀ P : Association → Prop, (∃ a ∈ list.filter (·.zone.uid = uid), P a) ↔
      ∃ a ∈ list, a.zone.uid = uid ∧ P a := by
    intro P
    simp [and_assoc]
  rw [← hown, ← hown]
  refine foldl_invariant (P := fun (done : List Association) (rank : ZoneRank) => rank.uid = uid ∧
    (rank.managed = true ↔ ∃ a ∈ done, a.managed = true) ∧
    (rank.accepted = true ↔ ∃ a ∈ done, a.accepted = true)) ⟨rfl, by simp, by simp⟩ ?_
  intro done a rest rank _ ih
  exact ⟨ih.1, by simp [ZoneRank.add, ih.2.1, or_and_right, exists_or],
    by simp [ZoneRank.add, ih.2.2, or_and_right, exists_or]⟩

theorem mem_zoneRanks {rank : ZoneRank} :
    rank ∈ zoneRanks list ↔ ∃ a ∈ list, rankOf list a.zone.uid = rank := by
  simp [zoneRanks]

theorem nodup_zoneRanks (list : List Association) : (zoneRanks list).Nodup := by
  refine List.Nodup.map (fun u v h => ?_) (nodup_dedup _)
  rw [← (rankOf_spec list u).1, ← (rankOf_spec list v).1, h]

/-- The zone has lost its place. -/
theorem overZoneLimit_iff :
    overZoneLimit list a = true ↔ rankOf list a.zone.uid ∈
      Ranking.drop ZoneRank.le maxZonesPerResolverContext (zoneRanks list) := by
  rw [overZoneLimit, any_eq_true]
  constructor
  · rintro ⟨rank, hrank, huid⟩
    obtain ⟨x, hx, rfl⟩ := mem_zoneRanks.mp (mem_keep_or_mem_drop.mpr (.inr hrank))
    rw [decide_eq_true_eq, (rankOf_spec _ _).1] at huid
    exact huid ▸ hrank
  · exact fun h => ⟨_, h, by simp [(rankOf_spec list a.zone.uid).1]⟩

/-- The zones that have a place. -/
theorem mem_map_uid_keep {uid : GoString} :
    uid ∈ (keep ZoneRank.le maxZonesPerResolverContext (zoneRanks list)).map ZoneRank.uid ↔
      rankOf list uid ∈ keep ZoneRank.le maxZonesPerResolverContext (zoneRanks list) := by
  refine mem_map.trans ⟨?_, fun h => ⟨_, h, (rankOf_spec _ _).1⟩⟩
  rintro ⟨rank, hrank, rfl⟩
  obtain ⟨a, -, rfl⟩ := mem_zoneRanks.mp (mem_keep_or_mem_drop.mpr (.inl hrank))
  rwa [(rankOf_spec _ _).1]

theorem nodup_map_uid_keep (list : List Association) :
    ((keep ZoneRank.le maxZonesPerResolverContext (zoneRanks list)).map ZoneRank.uid).Nodup := by
  have hnodup : ((zoneRanks list).map ZoneRank.uid).Nodup := by
    have huid : ZoneRank.uid ∘ rankOf list = id := funext fun uid => (rankOf_spec list uid).1
    rw [zoneRanks, map_map, huid, map_id]
    exact nodup_dedup _
  exact (((perm_insertionSort _ _).map _).nodup_iff.mpr hnodup).sublist ((take_sublist _ _).map _)

/-- A zone has a place or has lost it. -/
theorem not_overZoneLimit_iff (ha : a ∈ list) : overZoneLimit list a = false ↔
    rankOf list a.zone.uid ∈ keep ZoneRank.le maxZonesPerResolverContext (zoneRanks list) := by
  rw [← Bool.not_eq_true, overZoneLimit_iff]
  refine ⟨fun hnot => ?_, disjoint_keep_drop (nodup_zoneRanks list)⟩
  exact (mem_keep_or_mem_drop.mp (mem_zoneRanks.mpr ⟨a, ha, rfl⟩)).resolve_right hnot

/-! ## One pass -/

/-- The candidates of a context. -/
def winners (E : Externals) (regs : List DNSRegistration) (items : List Association)
    (contextUID : GoString) : List Association :=
  candidates (judgeAll E regs ∅ items) contextUID

theorem mem_winners (huids : ∀ x ∈ items, x.zone.uid ≠ []) {contextUID : GoString} :
    a ∈ winners E regs items contextUID ↔
      (a ∈ items ∧ a.Owns E regs items) ∧ a.resolver.uid = contextUID := by
  obtain ⟨hmap, hverdict⟩ := judgeAll_spec E regs huids
  constructor
  · intro h
    obtain ⟨j, hj, rfl⟩ := mem_map.mp h
    obtain ⟨hj, hcandidate⟩ := mem_filter.mp hj
    obtain ⟨haccepted, hcontext⟩ := of_decide_eq_true hcandidate
    exact ⟨⟨hmap ▸ mem_map_of_mem hj, (hverdict j hj).mp haccepted⟩, hcontext⟩
  · rintro ⟨⟨ha, howns⟩, hcontext⟩
    rw [← hmap] at ha
    obtain ⟨j, hj, rfl⟩ := mem_map.mp ha
    exact mem_map_of_mem (mem_filter.mpr ⟨hj, decide_eq_true ⟨(hverdict j hj).mpr howns, hcontext⟩⟩)

theorem accepted_setCondition {now : Time} {verdict : Verdict} :
    (a.setCondition now verdict).accepted = true ↔ a.deleting = false ∧ verdict = .accepted := by
  simp [setCondition, accepted]

/-- The associations in the order of their names. -/
def byName (items : List Association) : List Association :=
  items.insertionSort fun a b => a.name ≤ b.name

theorem mem_byName : a ∈ byName items ↔ a ∈ items :=
  mem_insertionSort _

theorem pairwise_byName (items : List Association) :
    (byName items).Pairwise fun y z => y.name ≤ z.name := by
  have htotal : Std.Total fun y z : Association => y.name ≤ z.name := ⟨fun y z => le_total _ _⟩
  have htrans : IsTrans Association fun y z => y.name ≤ z.name := ⟨fun _ _ _ => le_trans⟩
  exact pairwise_insertionSort _ _

section Pass

variable {now : Time} {items : List Association}

/-- What a pass has found out about the associations, in the order of their names. -/
def judged (E : Externals) (regs : List DNSRegistration) (items : List Association) :
    List (Association × Verdict) := judgeAll E regs ∅ (byName items)

/-- What a pass writes for an association. -/
def written (E : Externals) (regs : List DNSRegistration) (now : Time) (items : List Association)
    (j : Association × Verdict) : Association :=
  j.1.setCondition now (limited (judged E regs items) j)

theorem mem_reconcileAssociations {x : Association} : x ∈ reconcileAssociations E regs now items ↔
      ∃ j ∈ judged E regs items, written E regs now items j = x := mem_map

/-- What is known of the associations after a pass. -/
structure Settled (E : Externals) (regs : List DNSRegistration) (out : List Association) : Prop where
  owns : ∀ x ∈ out, x.accepted = true → x.Owns E regs out
  /-- A context has no more zones than it may have. -/
  bounded : ∀ contextUID (uids : List GoString), uids.Nodup →
    (∀ uid ∈ uids, ∃ x ∈ out, x.accepted = true ∧ x.resolver.uid = contextUID ∧ x.zone.uid = uid) →
    uids.length ≤ maxZonesPerResolverContext
  /-- If a managed zone has no place, only managed zones have one. -/
  managed : ∀ x ∈ out, ∀ y ∈ out, x.resolver.uid = y.resolver.uid → x.accepted = true →
    y.Owns E regs out → y.managed = true → y.accepted = false →
    ∃ z ∈ out, z.Owns E regs out ∧ z.resolver.uid = x.resolver.uid ∧ z.zone.uid = x.zone.uid ∧
      z.managed = true

/-- The zones that a pass has accepted in a context. -/
def acceptedZones (E : Externals) (regs : List DNSRegistration) (now : Time) (items : List Association)
    (contextUID : GoString) : List GoString :=
  (((reconcileAssociations E regs now items).filter fun x =>
    x.accepted && x.resolver.uid = contextUID).map (·.zone.uid)).dedup

section

variable (huids : ∀ x ∈ items, x.zone.uid ≠ [])
include huids

theorem map_fst_judged (E : Externals) (regs : List DNSRegistration) :
    (judged E regs items).map Prod.fst = byName items :=
  (judgeAll_spec E regs fun x hx => huids x (mem_byName.mp hx)).1

/-- **What is accepted** owns its apex and has kept its place. -/
theorem accepted_written_iff {j : Association × Verdict} (hj : j ∈ judged E regs items) :
    (written E regs now items j).accepted = true ↔
      j.1.Owns E regs (byName items) ∧
        overZoneLimit (winners E regs (byName items) j.1.resolver.uid) j.1 = false := by
  have hverdict := (judgeAll_spec E regs fun x hx => huids x (mem_byName.mp hx)).2 j hj
  have hlimited : limited (judged E regs items) j = .accepted ↔ j.1.Owns E regs (byName items) ∧
      overZoneLimit (winners E regs (byName items) j.1.resolver.uid) j.1 = false := by
    rw [← hverdict, winners, ← judged]
    unfold limited
    split_ifs with h
    · simp [h.2]
    · simp only [not_and, Bool.not_eq_true] at h
      exact ⟨fun haccepted => ⟨haccepted, h haccepted⟩, fun h => h.1⟩
  rw [written, accepted_setCondition, hlimited]
  refine and_iff_right_of_imp fun h => ?_
  have hcurrent := h.1.1
  simp only [current, Bool.and_eq_true, Bool.not_eq_true'] at hcurrent
  exact hcurrent.1.1

/-- A pass does not change who owns an apex. -/
theorem owns_written_iff {j : Association × Verdict} :
    (written E regs now items j).Owns E regs (reconcileAssociations E regs now items) ↔
      j.1.Owns E regs (byName items) := by
  have hout : (written E regs now items j).Owns E regs (reconcileAssociations E regs now items) ↔
      Ranking.Wins (fun k => k.1.current E regs) (fun k => k.1.apexKey E) (fun k => k.1.zone.uid)
        (judged E regs items) j := wins_map
  have hin : j.1.Owns E regs ((judged E regs items).map Prod.fst) ↔
      Ranking.Wins (fun k => k.1.current E regs) (fun k => k.1.apexKey E) (fun k => k.1.zone.uid)
        (judged E regs items) j := wins_map
  rw [map_fst_judged huids E regs] at hin
  exact hout.trans hin.symm

theorem map_name_reconcileAssociations :
    (reconcileAssociations E regs now items).map name =
      (byName items).map name := by
  rw [← map_fst_judged huids E regs]
  unfold reconcileAssociations
  rw [map_map, map_map]
  rfl

theorem pairwise_reconcileAssociations :
    (reconcileAssociations E regs now items).Pairwise fun y z => y.name ≤ z.name := by
  refine pairwise_map.mp ?_
  rw [map_name_reconcileAssociations huids]
  exact pairwise_map.mpr (pairwise_byName items)

/-- A pass looks at all associations. -/
theorem mem_judged (E : Externals) (regs : List DNSRegistration) :
    (∃ j ∈ judged E regs items, j.1 = a) ↔ a ∈ items := by
  rw [← mem_byName, ← map_fst_judged huids E regs, mem_map]

/-- An association is accepted by a pass exactly if it owns its apex and keeps its place. -/
theorem exists_accepted_iff {x : Association} (hnames : (items.map name).Nodup) (hx : x ∈ items) :
    (∃ y ∈ reconcileAssociations E regs now items, y.name = x.name ∧ y.accepted = true) ↔
      x.Owns E regs (byName items) ∧
        overZoneLimit (winners E regs (byName items) x.resolver.uid) x = false := by
  constructor
  · rintro ⟨y, hy, hname, haccepted⟩
    obtain ⟨j, hj, rfl⟩ := mem_reconcileAssociations.mp hy
    obtain rfl : j.1 = x := inj_on_of_nodup_map hnames ((mem_judged huids E regs).mp ⟨j, hj, rfl⟩) hx hname
    exact (accepted_written_iff huids hj).mp haccepted
  · intro h
    obtain ⟨j, hj, rfl⟩ := (mem_judged huids E regs).mpr hx
    exact ⟨_, mem_reconcileAssociations.mpr ⟨j, hj, rfl⟩, rfl, (accepted_written_iff huids hj).mpr h⟩

theorem mem_winners_iff {contextUID : GoString} : a ∈ winners E regs (byName items) contextUID ↔
    ∃ j ∈ judged E regs items, j.1 = a ∧ a.Owns E regs (byName items) ∧ a.resolver.uid = contextUID := by
  rw [mem_winners fun x hx => huids x (mem_byName.mp hx), mem_byName, ← mem_judged huids E regs]
  grind

/-- **The accepted zones of a context** are those that have kept their place. -/
theorem mem_acceptedZones {contextUID uid : GoString} :
    uid ∈ acceptedZones E regs now items contextUID ↔
      rankOf (winners E regs (byName items) contextUID) uid ∈ keep ZoneRank.le
        maxZonesPerResolverContext (zoneRanks (winners E regs (byName items) contextUID)) := by
  simp only [acceptedZones, mem_dedup, mem_map, mem_filter, Bool.and_eq_true, decide_eq_true_eq]
  constructor
  · rintro ⟨x, ⟨hx, haccepted, rfl⟩, rfl⟩
    obtain ⟨j, hj, rfl⟩ := mem_reconcileAssociations.mp hx
    obtain ⟨howns, hlimit⟩ := (accepted_written_iff huids hj).mp haccepted
    exact (not_overZoneLimit_iff ((mem_winners_iff huids).mpr ⟨j, hj, rfl, howns, rfl⟩)).mp hlimit
  · intro hrank
    obtain ⟨a, ha, heq⟩ := mem_zoneRanks.mp (mem_keep_or_mem_drop.mpr (.inl hrank))
    obtain rfl : a.zone.uid = uid :=
      (rankOf_spec _ _).1.symm.trans ((congrArg _ heq).trans (rankOf_spec _ _).1)
    obtain ⟨j, hj, rfl, howns, rfl⟩ := (mem_winners_iff huids).mp ha
    exact ⟨_, ⟨mem_reconcileAssociations.mpr ⟨j, hj, rfl⟩, (accepted_written_iff huids hj).mpr
      ⟨howns, (not_overZoneLimit_iff ha).mpr hrank⟩, rfl⟩, rfl⟩

/-- What has a place outranks what has lost it. -/
theorem le_of_refused {contextUID uid : GoString} (ha : a ∈ winners E regs (byName items) contextUID)
    (hnot : a.zone.uid ∉ acceptedZones E regs now items contextUID)
    (huid : uid ∈ acceptedZones E regs now items contextUID) :
    (rankOf (winners E regs (byName items) contextUID) uid).le
      (rankOf (winners E regs (byName items) contextUID) a.zone.uid) := by
  rw [mem_acceptedZones huids] at hnot huid
  rw [← not_overZoneLimit_iff ha, Bool.not_eq_false, overZoneLimit_iff] at hnot
  exact rel_of_mem_keep_of_mem_drop huid hnot

theorem settled_reconcileAssociations : Settled E regs (reconcileAssociations E regs now items) := by
  have haccepted : ∀ {x}, x ∈ reconcileAssociations E regs now items → x.accepted = true →
      x.zone.uid ∈ acceptedZones E regs now items x.resolver.uid := by
    intro x hx haccepted
    simpa [acceptedZones] using ⟨x, ⟨hx, haccepted, rfl⟩, rfl⟩
  constructor
  · intro x hx haccepted
    obtain ⟨j, hj, rfl⟩ := mem_reconcileAssociations.mp hx
    exact (owns_written_iff huids).mpr ((accepted_written_iff huids hj).mp haccepted).1
  · intro contextUID uids hnodup hall
    have hsub : uids ⊆ (keep ZoneRank.le maxZonesPerResolverContext
        (zoneRanks (winners E regs (byName items) contextUID))).map ZoneRank.uid := by
      intro uid huid
      obtain ⟨x, hx, hx', rfl, rfl⟩ := hall uid huid
      exact mem_map_uid_keep.mpr ((mem_acceptedZones huids).mp (haccepted hx hx'))
    have hle := (subperm_of_subset hnodup hsub).length_le
    rw [length_map] at hle
    exact hle.trans length_keep_le
  · intro x hx y hy hcontext hx' howns hmanaged hrefused
    obtain ⟨k, hk, rfl⟩ := mem_reconcileAssociations.mp hy
    have howns' := (owns_written_iff huids).mp howns
    have hmem : k.1 ∈ winners E regs (byName items) x.resolver.uid :=
      (mem_winners_iff huids).mpr ⟨k, hk, rfl, howns', hcontext.symm⟩
    have hnot : k.1.zone.uid ∉ acceptedZones E regs now items x.resolver.uid := by
      rw [mem_acceptedZones huids, ← not_overZoneLimit_iff hmem]
      intro hkept
      rw [(accepted_written_iff huids hk).mpr ⟨howns', (hcontext : _ = k.1.resolver.uid) ▸ hkept⟩] at hrefused
      cases hrefused
    have hrank := (le_of_refused huids hmem hnot (haccepted hx hx')).managed
      ((rankOf_spec _ _).2.1.mpr ⟨k.1, hmem, rfl, hmanaged⟩)
    obtain ⟨z, hz, hzone, hzmanaged⟩ := (rankOf_spec _ _).2.1.mp hrank
    obtain ⟨i, hi, rfl, hzowns, hzcontext⟩ := (mem_winners_iff huids).mp hz
    exact ⟨_, mem_reconcileAssociations.mpr ⟨i, hi, rfl⟩, (owns_written_iff huids).mpr hzowns,
      hzcontext, hzone, hzmanaged⟩

/-- **The zone limit.**  A context has accepted zones up to the limit, or all that are eligible; no two
of them have the same apex; the zone that the context controls is kept; and an eligible zone that was
accepted before is refused only if every kept zone is controlled by the context or was accepted
before. -/
theorem accepted_zones (contextUID : GoString) :
    (acceptedZones E regs now items contextUID).length = min maxZonesPerResolverContext
      ((winners E regs (byName items) contextUID).map (·.zone.uid)).dedup.length ∧
    (∀ x ∈ reconcileAssociations E regs now items, ∀ y ∈ reconcileAssociations E regs now items,
      x.accepted = true → y.accepted = true → x.apexKey E = y.apexKey E → x.zone.uid = y.zone.uid) ∧
    (∀ a ∈ winners E regs (byName items) contextUID, a.managed = true →
      (∀ b ∈ winners E regs (byName items) contextUID, b.managed = true → b.zone.uid = a.zone.uid) →
      a.zone.uid ∈ acceptedZones E regs now items contextUID) ∧
    ∀ a ∈ winners E regs (byName items) contextUID, a.accepted = true →
      a.zone.uid ∉ acceptedZones E regs now items contextUID →
      ∀ uid ∈ acceptedZones E regs now items contextUID,
        ∃ b ∈ winners E regs (byName items) contextUID, b.zone.uid = uid ∧
          (b.managed = true ∨ b.accepted = true) := by
  have hlength : (acceptedZones E regs now items contextUID).length = min maxZonesPerResolverContext
      ((winners E regs (byName items) contextUID).map (·.zone.uid)).dedup.length := by
    have hperm : acceptedZones E regs now items contextUID ~ _ :=
      (perm_ext_iff_of_nodup (nodup_dedup _) (nodup_map_uid_keep _)).mpr fun _ =>
        (mem_acceptedZones huids).trans mem_map_uid_keep.symm
    rw [hperm.length_eq, length_map, keep, length_take, length_insertionSort, zoneRanks, length_map]
  refine ⟨hlength, fun x hx y hy hx' hy' hkey => ?_, fun a ha hmanaged hown => ?_,
    fun a ha haccepted hnot uid huid => ?_⟩
  · have hsettled : Settled E regs (reconcileAssociations E regs now items) :=
      settled_reconcileAssociations huids
    exact (hsettled.owns x hx hx').value_eq (hsettled.owns y hy hy') hx hkey
  · by_contra hnot
    obtain ⟨uid, huid⟩ : ∃ uid, uid ∈ acceptedZones E regs now items contextUID := by
      refine exists_mem_of_length_pos ?_
      rw [hlength]
      exact lt_min (by decide) (length_pos_of_mem (mem_dedup.mpr (mem_map_of_mem ha)))
    obtain ⟨b, hb, hzone, hb'⟩ := (rankOf_spec _ _).2.1.mp ((le_of_refused huids ha hnot huid).managed
      ((rankOf_spec _ _).2.1.mpr ⟨a, ha, rfl, hmanaged⟩))
    exact hnot (hown b hb hb' ▸ hzone ▸ huid)
  · obtain hold | ⟨hmanaged, -⟩ := (le_of_refused huids ha hnot huid).accepted
      ((rankOf_spec _ _).2.2.mpr ⟨a, ha, rfl, haccepted⟩)
    · obtain ⟨b, hb, hzone, hb'⟩ := (rankOf_spec _ _).2.2.mp hold
      exact ⟨b, hb, hzone, .inr hb'⟩
    · obtain ⟨b, hb, hzone, hb'⟩ := (rankOf_spec _ _).2.1.mp hmanaged
      exact ⟨b, hb, hzone, .inl hb'⟩

end

end Pass

/-! ## The zones of a context

What is accepted is what `ContextZones` starts from.
-/

/-- What the zones of a context are computed from. -/
def Association.toZoneAssociation (E : Externals) (regs : List DNSRegistration) (a : Association) :
    ZoneAssociation := ⟨a.resolver.uid, a.zone, a.current E regs⟩

/-- The first loop decides as `apexOwners` does. -/
theorem foldl_claimApex (items : List Association) (owners : ApexOwners) (acc : List ZoneAssociation) :
    ((items.map (toZoneAssociation E regs)).foldl (claimApex E) (owners, acc)).2 =
      acc ++ ((judgeAll E regs owners items).filter (·.2 = .accepted)).map
        fun j => j.1.toZoneAssociation E regs := by
  induction items generalizing owners acc with
  | nil => simp [judgeAll]
  | cons a items ih =>
    have hcons : judgeAll E regs owners (a :: items) =
        (a, (judge E regs owners a).2) :: judgeAll E regs (judge E regs owners a).1 items := rfl
    rw [map_cons, foldl_cons, hcons]
    cases hcurrent : a.current E regs with
    | false =>
      obtain ⟨howners, hverdict⟩ := judge_of_not_current owners hcurrent
      have hclaim : claimApex E (owners, acc) (a.toZoneAssociation E regs) = (owners, acc) := by
        simp [claimApex, toZoneAssociation, hcurrent]
      rw [hclaim, ih, howners, filter_cons_of_neg (by simpa using hverdict)]
    | true =>
      have hclaim : claimApex E (owners, acc) (a.toZoneAssociation E regs) =
          if (owners.lookup (a.apexKey E)).any fun old => old ≠ [] && old ≠ a.zone.uid then (owners, acc)
          else (owners.insert (a.apexKey E) a.zone.uid, acc ++ [a.toZoneAssociation E regs]) := by
        unfold claimApex
        rw [if_neg (by simp [toZoneAssociation, hcurrent])]
        rfl
      rw [hclaim, judge_of_current hcurrent]
      split_ifs with hconflict
      · rw [ih, filter_cons_of_neg (by simp)]
      · rw [ih, filter_cons_of_pos (by simp), map_cons, append_assoc, singleton_append]

section Creation

variable {items out l₁ l₂ : List Association} {b x : Association} {now later : Time}

/-- An association that is created among others: its name is new, and its zone is not the managed one
of its context.  UIDs name zones. -/
structure Joins (items : List Association) (b : Association) : Prop where
  uids : ∀ y ∈ b :: items, y.zone.uid ≠ []
  names : ((b :: items).map Association.name).Nodup
  zones : ∀ y ∈ b :: items, ∀ z ∈ b :: items, y.zone.uid = z.zone.uid →
    y.zone.domainName = z.zone.domainName
  unmanaged : ∀ y ∈ b :: items, y.resolver.uid = b.resolver.uid → y.zone.uid = b.zone.uid →
    y.managed = false
  fresh : b.condition = none

theorem Joins.perm {items' : List Association} (h : Joins items b) (hperm : items'.Perm items) :
    Joins items' b := by
  have hmem : ∀ y, y ∈ b :: items' ↔ y ∈ b :: items := fun y => (hperm.cons b).mem_iff
  exact ⟨fun y hy => h.uids y ((hmem y).mp hy), ((hperm.cons b).map _).nodup_iff.mpr h.names,
    fun y hy z hz => h.zones y ((hmem y).mp hy) z ((hmem z).mp hz),
    fun y hy => h.unmanaged y ((hmem y).mp hy), h.fresh⟩

/-- A pass changes nothing but conditions. -/
theorem Joins.reconciled (h : Joins items b) : Joins (reconcileAssociations E regs now items) b := by
  have huids : ∀ y ∈ items, y.zone.uid ≠ [] := fun y hy => h.uids y (mem_cons_of_mem _ hy)
  have hsorted : Joins ((judged E regs items).map Prod.fst) b := by
    rw [map_fst_judged huids E regs]
    exact h.perm (perm_insertionSort _ _)
  have hfrom : ∀ y ∈ b :: reconcileAssociations E regs now items,
      ∃ z ∈ b :: (judged E regs items).map Prod.fst, y.zone = z.zone ∧ y.resolver = z.resolver ∧
        y.managed = z.managed := by
    refine forall_mem_cons.mpr ⟨⟨b, mem_cons_self, rfl, rfl, rfl⟩, fun y hy => ?_⟩
    obtain ⟨j, hj, rfl⟩ := mem_reconcileAssociations.mp hy
    exact ⟨j.1, mem_cons_of_mem _ (mem_map_of_mem hj), rfl, rfl, rfl⟩
  refine ⟨fun y hy => ?_, ?_, fun y hy z hz => ?_, fun y hy => ?_, h.fresh⟩
  · obtain ⟨y', hy', hzone, -⟩ := hfrom y hy
    exact hzone ▸ hsorted.uids y' hy'
  · have hnames := hsorted.names
    rw [map_cons, map_fst_judged huids E regs] at hnames
    rwa [map_cons, map_name_reconcileAssociations huids]
  · obtain ⟨y', hy', hzone, -⟩ := hfrom y hy
    obtain ⟨z', hz', hzone', -⟩ := hfrom z hz
    rw [hzone, hzone']
    exact hsorted.zones y' hy' z' hz'
  · obtain ⟨y', hy', hzone, hresolver, hmanaged⟩ := hfrom y hy
    rw [hzone, hresolver, hmanaged]
    exact hsorted.unmanaged y' hy'

/-- Where the new association stands in the next pass. -/
theorem exists_split (h : Joins out b) (hsorted : out.Pairwise fun y z => y.name ≤ z.name) :
    ∃ l₁ l₂, out = l₁ ++ l₂ ∧ byName (b :: out) = l₁ ++ b :: l₂ ∧ (∀ y ∈ l₁, y.name < b.name) ∧
      ∀ y ∈ l₂, b.name < y.name := by
  have hne : ∀ y ∈ out, b.name ≠ y.name := fun y hy heq =>
    (nodup_cons.mp h.names).1 (heq ▸ mem_map_of_mem hy)
  have hinsert : byName (b :: out) = out.orderedInsert (fun y z => y.name ≤ z.name) b := by
    rw [byName, insertionSort_cons, hsorted.insertionSort_eq]
  rw [orderedInsert_eq_take_drop] at hinsert
  have hpairwise := pairwise_byName (b :: out)
  have hout := (takeWhile_append_dropWhile (p := fun y => decide ¬ b.name ≤ y.name) (l := out)).symm
  refine ⟨_, _, hout, hinsert, fun y hy => ?_, fun y hy => ?_⟩
  · exact not_le.mp (by simpa using mem_takeWhile_imp hy)
  · rw [hinsert] at hpairwise
    have hle := (pairwise_cons.mp (pairwise_append.mp hpairwise).2.1).1 y hy
    refine lt_of_le_of_ne hle (hne y ?_)
    exact (dropWhile_sublist _).subset hy

/-- The new association is the first of the apex of `x`, and attaches another zone. -/
def TakesApex (E : Externals) (regs : List DNSRegistration) (items : List Association)
    (b x : Association) : Prop :=
  (b.current E regs = true ∧ b.apexKey E = x.apexKey E) ∧ b.zone.uid ≠ x.zone.uid ∧
    ∀ y ∈ items, y.current E regs = true → y.apexKey E = x.apexKey E → b.name < y.name

/-- An insertion is the new association and the others. -/
theorem mem_insert_iff {y : Association} : y ∈ l₁ ++ b :: l₂ ↔ y ∈ b :: (l₁ ++ l₂) :=
  perm_middle.mem_iff

section Settled

variable (hsettled : Settled E regs (l₁ ++ l₂)) (hx : x ∈ l₁ ++ l₂)
  (haccepted : x.accepted = true)
include hsettled hx haccepted

/-- The apex of an accepted association after a creation. -/
theorem owns_insert_iff (hbefore : ∀ y ∈ l₁, y.name < b.name) (hafter : ∀ y ∈ l₂, b.name < y.name) :
    x.Owns E regs (l₁ ++ b :: l₂) ↔ ¬ TakesApex E regs (l₁ ++ l₂) b x := by
  refine (wins_insert_iff (hsettled.owns x hx haccepted)).trans (not_congr ?_)
  rw [first_eq_none_iff]
  constructor
  · rintro ⟨hnone, hb, hzone⟩
    refine ⟨hb, hzone, fun y hy hcurrent hkey => ?_⟩
    rcases mem_append.mp hy with hy | hy
    · exact absurd ⟨hcurrent, hkey⟩ (hnone y hy)
    · exact hafter y hy
  · rintro ⟨hb, hzone, hfirst⟩
    refine ⟨fun y hy hcurrent => ?_, hb, hzone⟩
    exact lt_asymm (hbefore y hy) (hfirst y (mem_append_left _ hy) hcurrent.1 hcurrent.2)

variable (h : Joins (l₁ ++ l₂) b) (howns : x.Owns E regs (l₁ ++ b :: l₂))
include h howns

/-- **A managed zone that is back.**  If a managed zone without a place competes after the creation,
every zone of the context that has a place is managed. -/
theorem managed_of_managed {d : Association}
    (hd : d ∈ winners E regs (l₁ ++ b :: l₂) x.resolver.uid) (hmanaged : d.managed = true)
    (hrefused : d.accepted = false) :
    (rankOf (winners E regs (l₁ ++ b :: l₂) x.resolver.uid) x.zone.uid).managed = true := by
  have huids : ∀ y ∈ l₁ ++ b :: l₂, y.zone.uid ≠ [] := fun y hy => h.uids y (mem_insert_iff.mp hy)
  obtain ⟨⟨hdmem, hdowns⟩, hdcontext⟩ := (mem_winners huids).mp hd
  have hother : ¬ (d.resolver.uid = b.resolver.uid ∧ d.zone.uid = b.zone.uid) := by
    rintro ⟨hresolver, hzone⟩
    rw [h.unmanaged d (mem_insert_iff.mp hdmem) hresolver hzone] at hmanaged
    cases hmanaged
  have hdold : d ∈ l₁ ++ l₂ := by
    refine (mem_cons.mp (mem_insert_iff.mp hdmem)).resolve_left ?_
    rintro rfl
    exact hother ⟨rfl, rfl⟩
  have hdowns' : d.Owns E regs (l₁ ++ l₂) := Ranking.Wins.of_insert hdowns fun ⟨⟨_, hkey⟩, hzone⟩ =>
    hother ⟨(congrArg Prod.fst hkey).symm, hzone.symm⟩
  obtain ⟨z, hz, hzowns, hzcontext, hzzone, hzmanaged⟩ :=
    hsettled.managed x hx d hdold hdcontext.symm haccepted hdowns' hmanaged hrefused
  have hkey : z.apexKey E = x.apexKey E := by
    rw [apexKey, apexKey, hzcontext,
      h.zones z (mem_cons_of_mem _ hz) x (mem_cons_of_mem _ hx) hzzone]
  have hzowns' : z.Owns E regs (l₁ ++ b :: l₂) := by
    have hfirst := (wins_insert_iff (hsettled.owns x hx haccepted)).mp howns
    refine (wins_insert_iff hzowns).mpr ?_
    rwa [hkey, hzzone]
  refine (rankOf_spec _ _).2.1.mpr ⟨z, (mem_winners huids).mpr ⟨⟨?_, hzowns'⟩, hzcontext⟩, hzzone,
    hzmanaged⟩
  exact mem_insert_iff.mpr (mem_cons_of_mem _ hz)

/-- **The zone limit after a creation.**  An accepted association that owns its apex still keeps its
place. -/
theorem keepsPlace_of_settled :
    overZoneLimit (winners E regs (l₁ ++ b :: l₂) x.resolver.uid) x = false := by
  have huids : ∀ y ∈ l₁ ++ b :: l₂, y.zone.uid ≠ [] := fun y hy => h.uids y (mem_insert_iff.mp hy)
  by_contra hover
  rw [Bool.not_eq_false, overZoneLimit_iff] at hover
  set list := winners E regs (l₁ ++ b :: l₂) x.resolver.uid with hlist
  have hxmem : x ∈ list :=
    (mem_winners huids).mpr ⟨⟨mem_insert_iff.mpr (mem_cons_of_mem _ hx), howns⟩, rfl⟩
  have hxrank : (rankOf list x.zone.uid).accepted = true :=
    (rankOf_spec _ _).2.2.mpr ⟨x, hxmem, rfl, haccepted⟩
  -- every zone that has a place was accepted before
  have hbefore : ∀ uid ∈ (keep ZoneRank.le maxZonesPerResolverContext (zoneRanks list)).map ZoneRank.uid,
      ∃ y ∈ l₁ ++ l₂, y.accepted = true ∧ y.resolver.uid = x.resolver.uid ∧ y.zone.uid = uid := by
    intro uid huid
    have hle := rel_of_mem_keep_of_mem_drop (mem_map_uid_keep.mp huid) hover
    have hold : (rankOf list uid).accepted = true := by
      by_contra hnot
      obtain ⟨hmanaged, hxmanaged⟩ := (hle.accepted hxrank).resolve_left hnot
      obtain ⟨d, hd, hdzone, hdmanaged⟩ := (rankOf_spec _ _).2.1.mp hmanaged
      have hdrefused : d.accepted = false := by
        by_contra hdaccepted
        exact hnot ((rankOf_spec _ _).2.2.mpr ⟨d, hd, hdzone, by simpa using hdaccepted⟩)
      rw [managed_of_managed hsettled hx haccepted h howns hd hdmanaged hdrefused] at hxmanaged
      cases hxmanaged
    obtain ⟨y, hy, hyzone, hyaccepted⟩ := (rankOf_spec _ _).2.2.mp hold
    obtain ⟨⟨hymem, -⟩, hycontext⟩ := (mem_winners huids).mp hy
    rcases mem_cons.mp (mem_insert_iff.mp hymem) with rfl | hymem
    · simp [accepted, h.fresh] at hyaccepted
    · exact ⟨y, hymem, hyaccepted, hycontext, hyzone⟩
  -- so there would be one zone too many
  have hother : x.zone.uid ∉ (keep ZoneRank.le maxZonesPerResolverContext (zoneRanks list)).map
      ZoneRank.uid := fun hmem =>
    disjoint_keep_drop (nodup_zoneRanks list) (mem_map_uid_keep.mp hmem) hover
  have hmany := hsettled.bounded x.resolver.uid _ (nodup_cons.mpr ⟨hother, nodup_map_uid_keep list⟩)
    (forall_mem_cons.mpr ⟨⟨x, hx, haccepted, rfl, rfl⟩, hbefore⟩)
  rw [length_cons, length_map, length_keep_of_mem_drop hover] at hmany
  omega

end Settled

/-- It makes no difference whether the apex is taken before or after a pass. -/
theorem takesApex_reconciled (huids : ∀ y ∈ items, y.zone.uid ≠ []) :
    TakesApex E regs (reconcileAssociations E regs now items) b x ↔ TakesApex E regs items b x := by
  refine and_congr_right fun _ => and_congr_right fun _ => ⟨fun h y hy => ?_, fun h y hy => ?_⟩
  · obtain ⟨j, hj, rfl⟩ := (mem_judged huids E regs).mpr hy
    exact h (written E regs now items j) (mem_reconcileAssociations.mpr ⟨j, hj, rfl⟩)
  · obtain ⟨j, hj, rfl⟩ := mem_reconcileAssociations.mp hy
    exact h j.1 ((mem_judged huids E regs).mp ⟨j, hj, rfl⟩)

theorem accepted_iff_of_settled (hsettled : Settled E regs out)
    (hsorted : out.Pairwise fun y z => y.name ≤ z.name) (h : Joins out b) (hx : x ∈ out)
    (haccepted : x.accepted = true) :
    (∃ y ∈ reconcileAssociations E regs later (b :: out), y.name = x.name ∧ y.accepted = true) ↔
      ¬ TakesApex E regs out b x := by
  rw [exists_accepted_iff h.uids h.names (mem_cons_of_mem _ hx)]
  obtain ⟨l₁, l₂, rfl, hsplit, hbefore, hafter⟩ := exists_split h hsorted
  have howns := owns_insert_iff hsettled hx haccepted hbefore hafter
  rw [hsplit, howns]
  exact and_iff_left_of_imp fun hfree =>
    keepsPlace_of_settled hsettled hx haccepted h (howns.mpr hfree)

/-- **When an accepted association stays accepted.**  After a pass that has accepted `x`, another
association is created, not of the managed zone of its context, and nothing else changes.  The next
pass accepts `x` again, unless the new association attaches another zone of the same apex to the
context and its name comes before the names of all associations that attach such a zone. -/
theorem accepted_after_creation_iff (h : Joins items b)
    (hx : x ∈ reconcileAssociations E regs now items) (haccepted : x.accepted = true) :
    (∃ y ∈ reconcileAssociations E regs later (b :: reconcileAssociations E regs now items),
        y.name = x.name ∧ y.accepted = true) ↔
      ¬ TakesApex E regs items b x := by
  have huids : ∀ y ∈ items, y.zone.uid ≠ [] := fun y hy => h.uids y (mem_cons_of_mem _ hy)
  rw [accepted_iff_of_settled (settled_reconcileAssociations huids)
    (pairwise_reconcileAssociations huids) h.reconciled hx haccepted, takesApex_reconciled huids]

/-- A private zone of the first project. -/
def plainZone (name domainName : GoString) (h : isPlain domainName = true) : DNSZone :=
  ⟨name, lit "zone-" ++ name, 1, true, none, domainName, h⟩

/-- An association of a zone with the network of the first project. -/
def associate (name : GoString) (zone : DNSZone) : Association where
  name := name
  generation := 1
  created := 1
  deleting := false
  zone := zone
  resolver := ⟨lit "context-1", false, [], []⟩
  referencesCurrent := true
  managed := false
  condition := none

/-- The associations of a tenant: the zone `corp.internal` is attached to its network. -/
def attached : List Association :=
  [associate (lit "corp") (plainZone (lit "corp") (lit "corp.internal") (by decide))]

/-- An association of another zone with the same name. -/
def rival (name : GoString) : Association :=
  associate name (plainZone (lit "new") (lit "corp.internal") (by decide))

/-- The one zone of the tenant is accepted. -/
theorem attached_within_limit : (∀ x ∈ attached, x.zone.uid ≠ []) ∧
    (acceptedZones .reference [] 1 attached (lit "context-1")).length = 1 :=
  ⟨by decide, (accepted_zones (by decide) _).1.trans (by decide +kernel)⟩

/-- A zone of the same apex that is attached under a later name changes nothing. -/
theorem attached_stays : ∃ x ∈ reconcileAssociations .reference [] 1 attached, x.accepted = true ∧
    ∃ y ∈ reconcileAssociations .reference [] 2
        (rival (lit "new") :: reconcileAssociations .reference [] 1 attached),
      y.name = x.name ∧ y.accepted = true := by
  have hjoins : Joins attached (rival (lit "new")) :=
    ⟨by decide, by decide, by decide, by decide, rfl⟩
  have hpass : ∃ x ∈ reconcileAssociations .reference [] 1 attached, x.accepted = true := by
    decide +kernel
  obtain ⟨x, hx, haccepted⟩ := hpass
  refine ⟨x, hx, haccepted, (accepted_after_creation_iff hjoins hx haccepted).mpr ?_⟩
  rintro ⟨⟨-, hkey⟩, -, hfirst⟩
  have hsame : (rival (lit "new")).apexKey .reference = (associate (lit "corp")
      (plainZone (lit "corp") (lit "corp.internal") (by decide))).apexKey .reference := rfl
  exact absurd (hfirst _ mem_cons_self (by decide) (hsame.symm.trans hkey)) (by decide)

/-- **An accepted association that is displaced**: a zone of the same apex is attached under a name
that comes first. -/
theorem attached_displaced :
    (∃ x ∈ reconcileAssociations .reference [] 1 attached, x.name = lit "corp" ∧ x.accepted = true) ∧
    ¬ ∃ y ∈ reconcileAssociations .reference [] 2
        (rival (lit "a") :: reconcileAssociations .reference [] 1 attached),
      y.name = lit "corp" ∧ y.accepted = true := by
  decide +kernel

end Creation

end InternalDNS.Controlplane
