import InternalDNS.Compiler

/-! # The wire plan

`wirePlan` turns the compiler's plan into the wire contract that agents read, with absolute owner
names, and validates it.  What it does to a single RRset is computed by `wireRRSetOf`; the results
here reduce statements about the wire plan to the entries that the compiler published.
-/
namespace InternalDNS.Controlplane

open Go List

variable (E : Externals) {key : OwnershipKey} {entries : List Entry} (plan : PublicationPlan)

/-- The wire record of an entry.  The fence of a contributed record is the plan's. -/
def wireRecordOf (rt : RRType) (entry : RecordEntry) (uid : Option GoString) :
    RRRecord :=
  let fence := uid.bind fun uid => plan.contributions.find? (·.uid = uid)
  { content := entry.render rt
    contributionUID := uid.getD []
    generation := (fence.map ContributionFence.generation).getD 0
    sequence := (fence.map ContributionFence.sequence).getD 0
    eligible := true }

/-- The records of an RRset with the contributions they come from. -/
def attributed (set : PublicationRRSet) : List (RecordEntry × Option GoString) :=
  set.records.zipIdx.map fun (entry, i) => (entry, set.contributionUIDs[i]?)

/-- The wire RRset. -/
def wireRRSetOf (set : PublicationRRSet) : RRSet :=
  { name := absoluteOwner E.cases set.name plan.zoneApex
    type := set.recordType.text
    ttl := set.ttlSeconds.toNat
    records := (attributed set).map fun a => wireRecordOf plan set.recordType a.1 a.2 }

/-- One RRset of `WirePlan`. -/
def wireRRSet (set : PublicationRRSet) : Except GoString RRSet := do
  failIf (set.ttlSeconds < 0) (lit "negative RRset TTL")
  forEach (fun entry => do
    let _ ← recordContent set.recordType entry
    .ok ()) set.records
  .ok (wireRRSetOf E plan set)

/-- The wire plan before it is validated. -/
def wirePlanOf (rrsets : List RRSet) : InternalDNS.PublicationPlan where
  zoneUID := plan.zoneUID
  apex := plan.zoneApex
  registrations := plan.registrations
  observationFences := (plan.contributions.map fun f =>
    (⟨f.uid, f.generation, f.sequence, f.retired, f.sourceName⟩ : ObservationFence)).insertionSort
      fun a b => a.contributionUID ≤ b.contributionUID
  owners := ((plan.owners.map fun owner =>
    absoluteOwner E.cases owner.name plan.zoneApex).dedup).insertionSort (· ≤ ·)
  rrsets := rrsets

/-- `controlplane.WirePlan`. -/
def wirePlan : Except GoString InternalDNS.PublicationPlan := do
  let rrsets ← collect (wireRRSet E plan) plan.rrsets
  (wirePlanOf E plan rrsets).validate E
  .ok (wirePlanOf E plan rrsets)

/-- What is published for the inputs: the wire plan of the compiled plan. -/
def publishedPlan (input : CompileInput) : Option InternalDNS.PublicationPlan :=
  match compile E input with
  | some (.ok result) => (wirePlan E result.plan).toOption
  | _ => none

variable {E} {plan : PublicationPlan}

theorem publishedPlan_eq_some {input : CompileInput} {w : InternalDNS.PublicationPlan} :
    publishedPlan E input = some w ↔
      ∃ result, compile E input = some (.ok result) ∧ wirePlan E result.plan = .ok w := by
  unfold publishedPlan
  split
  · rename_i result hresult
    cases h : wirePlan E result.plan <;> simp [Except.toOption, hresult, h]
  · rename_i hnone
    refine ⟨by simp, ?_⟩
    rintro ⟨result, h, -⟩
    exact absurd h (hnone result)

theorem wireRRSet_eq_ok {set : PublicationRRSet} {rr : RRSet} (h : wireRRSet E plan set = .ok rr) :
    rr = wireRRSetOf E plan set := by
  simp only [wireRRSet, Except.bind_eq_ok] at h
  obtain ⟨-, -, -, -, h⟩ := h
  exact (Except.ok.inj h).symm

/-- The wire plan carries the compiler's RRsets one by one. -/
theorem wirePlan_eq_ok {w : InternalDNS.PublicationPlan} (h : wirePlan E plan = .ok w) :
    w = wirePlanOf E plan (plan.rrsets.map (wireRRSetOf E plan)) ∧ w.Valid E := by
  simp only [wirePlan, Except.bind_eq_ok] at h
  obtain ⟨rrsets, hcollect, _, hvalid, hout⟩ := h
  obtain rfl := eq_map_of_collect (fun _ _ => wireRRSet_eq_ok) hcollect
  cases hout
  exact ⟨rfl, PublicationPlan.validate_eq_ok.mp hvalid⟩

/-! ## The entries of an RRset -/

/-- The pairs of two lists of equal length, read off by position. -/
theorem zipIdx_map_getElem {α β : Type} (pairs : List (α × β)) :
    ((pairs.map Prod.fst).zipIdx.map fun (a, i) => (a, (pairs.map Prod.snd)[i]?)) =
      pairs.map fun p => (p.1, some p.2) := by
  refine ext_getElem (by simp) fun i h1 h2 => ?_
  simp at h1
  simp [h1]

/-- Entries that all have a contribution, as pairs. -/
theorem zip_uids (h : ∀ e ∈ entries, e.uid.isSome) :
    (entries.filterMap Entry.uid).length = entries.length ∧
      ((entries.map Entry.record).zip (entries.filterMap Entry.uid)).map
        (fun p => (p.1, some p.2)) = entries.map fun e => (e.record, e.uid) := by
  induction entries with
  | nil => exact ⟨rfl, rfl⟩
  | cons e entries ih =>
    obtain ⟨he, hrest⟩ := forall_mem_cons.mp h
    obtain ⟨uid, huid⟩ := Option.isSome_iff_exists.mp he
    obtain ⟨hlength, hzip⟩ := ih hrest
    rw [filterMap_cons_some huid]
    simp [hlength, hzip, huid]

/-- All entries of a key come from contributions: every record keeps its contribution. -/
theorem attributed_contributed (h : ∀ e ∈ entries, e.uid.isSome) :
    (attributed (publicationRRSet key entries)).Perm (entries.map fun e => (e.record, e.uid)) := by
  obtain ⟨hlength, hzip⟩ := zip_uids h
  simp only [attributed, publicationRRSet, sortAggregate, hlength, length_map, ne_eq,
    not_true_eq_false, if_false]
  rw [zipIdx_map_getElem, ← hzip]
  exact (perm_insertionSort _ _).map _

/-- No entry of a key comes from a contribution: no record has one. -/
theorem attributed_static (h : ∀ e ∈ entries, e.uid = none) :
    (attributed (publicationRRSet key entries)).Perm (entries.map fun e => (e.record, e.uid)) := by
  have huids : entries.filterMap Entry.uid = [] :=
    filterMap_eq_nil_iff.mpr h
  have hpairs : entries.map (fun e => (e.record, e.uid)) =
      (entries.map Entry.record).map fun record => (record, none) := by
    rw [map_map]
    exact map_congr_left fun e he => by simp [h e he]
  rw [hpairs]
  by_cases hnil : entries = []
  · subst hnil
    exact List.Perm.refl _
  have hdiffer : ¬ 0 = entries.length := (length_pos_iff.mpr hnil).ne
  have hfst (l : List RecordEntry) : (l.zipIdx.map fun x => (x.1, (none : Option GoString))) =
      l.map fun record => (record, none) := by
    rw [← Function.comp_def (fun record : RecordEntry => (record, (none : Option GoString))),
      ← map_map, zipIdx_map_fst]
  simp only [attributed, publicationRRSet, sortAggregate, huids, length_nil, length_map,
    ne_eq, hdiffer, not_false_eq_true, if_true, List.getElem?_nil]
  rw [hfst]
  exact (perm_insertionSort _ _).map _

end InternalDNS.Controlplane
