import InternalDNS.Wire

/-! # The status mirror

Where a federation hub places an object in several member clusters, each member reports the
publication in its regions, and the status mirror merges these reports into the object of the
project.  The object is `Published` if every region that has an entry has published its current
generation, and if no more members were placed than regions have reported.

The last of these counts regions where members are meant.  `mirror_sound_iff` says for which reports
the count can be trusted.
-/
namespace InternalDNS.PrivateReplication

open Go List AList

/-- `v1alpha1.DNSRegionPublicationStatus`. -/
structure RegionStatus where
  region : GoString
  observedGeneration : Int
  writerEpoch : Int
  revision : Int
  published : Bool
  programmed : Bool
  available : Bool
  deriving DecidableEq

/-- One item of `status.aggregatedStatus`: the `status.regions` of the copy in a member cluster. -/
structure MemberReport where
  clusterName : GoString
  regions : List RegionStatus

/-- The hub's `ResourceBinding`: where the object is placed, and what the members report. -/
structure ResourceBinding where
  clusters : List GoString
  aggregatedStatus : List MemberReport

/-- The `Published` condition. -/
structure PublishedCondition where
  status : Bool
  reason : GoString
  message : GoString
  observedGeneration : Int
  lastTransitionTime : Time
  deriving DecidableEq

/-- What the mirror reads and writes of an object's status. -/
structure ProjectStatus where
  regions : List RegionStatus
  published : Option PublishedCondition
  deriving DecidableEq

/-! ## Merging -/

/-- `privatereplication.newer`. -/
def newer (a b : RegionStatus) : Bool :=
  if a.observedGeneration ≠ b.observedGeneration then a.observedGeneration > b.observedGeneration
  else if a.writerEpoch ≠ b.writerEpoch then a.writerEpoch > b.writerEpoch
  else a.revision ≥ b.revision

/-- One entry of a member. -/
def mergeEntry (byRegion : GoMap GoString RegionStatus) (e : RegionStatus) :
    GoMap GoString RegionStatus :=
  if (byRegion.lookup e.region).any (newer · e) then byRegion else byRegion.insert e.region e

/-- All entries that members report. -/
def ResourceBinding.reported (rb : ResourceBinding) : List RegionStatus :=
  rb.aggregatedStatus.flatMap MemberReport.regions

/-- `privatereplication.regionEntries`. -/
def regionEntries (rb : ResourceBinding) : List RegionStatus :=
  ((rb.reported.foldl mergeEntry ∅).entries.map Sigma.snd).insertionSort fun a b => a.region ≤ b.region

/-- The first entry of the region is replaced. -/
def replaceRegion (entry : RegionStatus) : List RegionStatus → List RegionStatus
  | [] => []
  | e :: entries =>
    if e.region = entry.region then entry :: entries else e :: replaceRegion entry entries

/-- `projectstatus.SetRegion`. -/
def setRegion (entries : List RegionStatus) (entry : RegionStatus) : List RegionStatus :=
  if entries.any (·.region = entry.region) then replaceRegion entry entries
  else (entries ++ [entry]).insertionSort fun a b => a.region ≤ b.region

/-- The entry has published the generation. -/
def RegionStatus.publishes (generation : Int) (e : RegionStatus) : Bool :=
  e.observedGeneration = generation && e.published

/-- `projectstatus.PendingRegions`. -/
def pendingRegions (entries : List RegionStatus) (expected : List GoString) (generation : Int) :
    List GoString :=
  (expected.filter fun region => !entries.any fun e => e.region = region && e.publishes generation).insertionSort
    (· ≤ ·)

/-- `projectstatus.PublishedInRegions`. -/
def publishedInRegions (old : Option PublishedCondition) (pending : List GoString) (generation : Int)
    (now : Time) : PublishedCondition :=
  let complete : Bool := pending = []
  { status := complete
    reason := if complete then lit "Published" else lit "PendingReplicaVerification"
    message := if complete then lit "required serving replicas verified the publication"
      else lit "publication awaits required replica verification in " ++ List.intercalate (lit ", ") pending
    observedGeneration := generation
    lastTransitionTime := (old.filter (·.status = complete)).elim now
      PublishedCondition.lastTransitionTime }

/-- `privatereplication.applyRegions`: the new status. -/
def applyRegions (status : ProjectStatus) (generation : Int) (entries : List RegionStatus)
    (placed : Nat) (now : Time) : ProjectStatus :=
  let regions := entries.foldl setRegion status.regions
  let pending := pendingRegions regions (regions.map RegionStatus.region) generation
  let missing := placed - entries.length
  let pending := if missing > 0 then pending ++ [itoa missing ++ lit " more"] else pending
  ⟨regions, some (publishedInRegions status.published pending generation now)⟩

/-- `StatusMirror.mirror`: what is written, if anything is. -/
def mirror (rb : ResourceBinding) (generation : Int) (status : ProjectStatus) (now : Time) :
    Option ProjectStatus :=
  let entries := regionEntries rb
  if entries = [] then none
  else
    let after := applyRegions status generation entries rb.clusters.length now
    if after = status then none else some after

/-! ## What the merge keeps -/

/-- What entries are compared by. -/
def RegionStatus.order (e : RegionStatus) : Int ×ₗ (Int ×ₗ Int) :=
  toLex (e.observedGeneration, toLex (e.writerEpoch, e.revision))

open RegionStatus

theorem newer_iff {a b : RegionStatus} : newer a b = true ↔ b.order ≤ a.order := by
  simp only [newer, order, Prod.Lex.toLex_le_toLex]
  split_ifs with h1 h2 <;> simp <;> omega

/-- The newest entry of each region. -/
structure Newest (done : List RegionStatus) (byRegion : GoMap GoString RegionStatus) : Prop where
  reported : ∀ region e, byRegion.lookup region = some e → e ∈ done ∧ e.region = region
  newest : ∀ e ∈ done, ∃ e', byRegion.lookup e.region = some e' ∧ newer e' e = true

theorem newest_foldl (reported : List RegionStatus) :
    Newest reported (reported.foldl mergeEntry ∅) := by
  refine foldl_invariant
    (P := fun done (m : GoMap GoString RegionStatus) => Newest done m) ⟨?_, nofun⟩ ?_
  · intro region e he
    simp at he
  · intro done e rest m _ ih
    unfold mergeEntry
    split_ifs with hold
    · obtain ⟨prev, hprev, hnewer⟩ := (Option.any_eq_true ..).mp hold
      refine ⟨fun region x hx => ?_, forall_mem_concat ih.newest ⟨prev, hprev, hnewer⟩⟩
      obtain ⟨hmem, hregion⟩ := ih.reported region x hx
      exact ⟨mem_append_left _ hmem, hregion⟩
    · refine ⟨fun region x hx => ?_, fun x hx => ?_⟩
      · rcases GoMap.of_lookup_insert hx with ⟨rfl, rfl⟩ | hx
        · exact ⟨by simp, rfl⟩
        · obtain ⟨hmem, hregion⟩ := ih.reported region x hx
          exact ⟨mem_append_left _ hmem, hregion⟩
      · by_cases hregion : x.region = e.region
        · refine ⟨e, by rw [hregion, lookup_insert], ?_⟩
          rcases mem_append.mp hx with hx | hx
          · -- the entry that is replaced was the newest so far
            obtain ⟨prev, hprev, hnewer⟩ := ih.newest x hx
            rw [hregion] at hprev
            rw [hprev, Option.any_some, newer_iff, not_le] at hold
            exact newer_iff.mpr ((newer_iff.mp hnewer).trans hold.le)
          · obtain rfl := mem_singleton.mp hx
            exact newer_iff.mpr le_rfl
        · rw [lookup_insert_ne hregion]
          rcases mem_append.mp hx with hx | hx
          · exact ih.newest x hx
          · exact absurd (congrArg region (mem_singleton.mp hx)) hregion

/-- The entries are sorted out of the map. -/
theorem mem_regionEntries {rb : ResourceBinding} {e : RegionStatus} : e ∈ regionEntries rb ↔
    (rb.reported.foldl mergeEntry ∅).lookup e.region = some e := by
  rw [regionEntries, mem_insertionSort]
  exact GoMap.mem_values fun region e h => ((newest_foldl rb.reported).reported region e h).2

/-- Of every region that is reported there is the newest entry. -/
theorem exists_newest {rb : ResourceBinding} {e : RegionStatus} (he : e ∈ rb.reported) :
    ∃ e' ∈ regionEntries rb, e'.region = e.region ∧ newer e' e = true := by
  obtain ⟨e', hlookup, hnewer⟩ := (newest_foldl rb.reported).newest e he
  have hregion := ((newest_foldl rb.reported).reported _ _ hlookup).2
  exact ⟨e', mem_regionEntries.mpr (by rwa [hregion]), hregion, hnewer⟩

/-- The regions that are reported, each once. -/
def ResourceBinding.regions (rb : ResourceBinding) : List GoString :=
  (rb.reported.map RegionStatus.region).dedup

/-- There is one entry for each region that is reported. -/
theorem regions_regionEntries (rb : ResourceBinding) :
    ((regionEntries rb).map region).Perm rb.regions := by
  have hnewest := newest_foldl rb.reported
  have hnodup : ((regionEntries rb).map region).Nodup := by
    refine (((perm_insertionSort _ _).map _).nodup_iff).mpr (GoMap.nodup_map_values ?_)
    exact fun region e h => (hnewest.reported region e h).2
  refine (perm_ext_iff_of_nodup hnodup (nodup_dedup _)).mpr fun region => ?_
  rw [mem_dedup, mem_map, mem_map]
  constructor
  · rintro ⟨e, he, rfl⟩
    exact ⟨e, (hnewest.reported _ _ (mem_regionEntries.mp he)).1, rfl⟩
  · rintro ⟨e, he, rfl⟩
    obtain ⟨e', he', hregion, -⟩ := exists_newest he
    exact ⟨e', he', hregion⟩

theorem length_regionEntries (rb : ResourceBinding) :
    (regionEntries rb).length = rb.regions.length := by
  rw [← (regions_regionEntries rb).length_eq, length_map]

/-! ## The merged status -/

theorem map_region_replaceRegion (entry : RegionStatus) (entries : List RegionStatus) :
    (replaceRegion entry entries).map region = entries.map region := by
  induction entries with
  | nil => rfl
  | cons e entries ih =>
    rw [replaceRegion]
    split_ifs with h
    · rw [map_cons, map_cons, h]
    · rw [map_cons, map_cons, ih]

theorem mem_replaceRegion {entry e : RegionStatus} {entries : List RegionStatus} :
    (e.region ≠ entry.region → (e ∈ replaceRegion entry entries ↔ e ∈ entries)) ∧
      (entries.any (·.region = entry.region) = true → entry ∈ replaceRegion entry entries) := by
  induction entries with
  | nil => simp [replaceRegion]
  | cons x entries ih =>
    rw [replaceRegion]
    split_ifs with h
    · refine ⟨fun hne => ?_, fun _ => mem_cons_self⟩
      have hx : e ≠ x := fun heq => hne (heq ▸ h)
      have hentry : e ≠ entry := fun heq => hne (heq ▸ rfl)
      simp [hx, hentry]
    · refine ⟨fun hne => ?_, fun hany => ?_⟩
      · rw [mem_cons, mem_cons, ih.1 hne]
      · rw [any_cons, Bool.or_eq_true, decide_eq_true_eq] at hany
        exact mem_cons_of_mem _ (ih.2 (hany.resolve_left h))

/-- What an entry does to the status. -/
theorem setRegion_spec (entries : List RegionStatus) (entry : RegionStatus) :
    entry ∈ setRegion entries entry ∧
      (∀ e, e.region ≠ entry.region → (e ∈ setRegion entries entry ↔ e ∈ entries)) ∧
      ((entries.map region).Nodup →
        ((setRegion entries entry).map region).Nodup) := by
  unfold setRegion
  split_ifs with h
  · refine ⟨(mem_replaceRegion (e := entry)).2 h, fun e => mem_replaceRegion.1, fun hnodup => ?_⟩
    rwa [map_region_replaceRegion]
  · refine ⟨by simp, fun e hne => ?_, fun hnodup => ?_⟩
    · have hentry : e ≠ entry := fun heq => hne (heq ▸ rfl)
      simp [hentry]
    · rw [((perm_insertionSort _ _).map _).nodup_iff, map_append]
      refine hnodup.append (nodup_singleton _) fun region hregion hsame => h ?_
      obtain ⟨e, he, rfl⟩ := mem_map.mp hregion
      exact any_eq_true.mpr ⟨e, he, by simpa using hsame⟩

/-- **The merged regions**: every reporting region has its entry, the others keep theirs. -/
theorem foldl_setRegion_spec {entries : List RegionStatus}
    (hentries : (entries.map region).Nodup) (old : List RegionStatus) :
    (∀ e ∈ entries, e ∈ entries.foldl setRegion old) ∧
      (∀ e, e.region ∉ entries.map region →
        (e ∈ entries.foldl setRegion old ↔ e ∈ old)) ∧
      ((old.map region).Nodup →
        ((entries.foldl setRegion old).map region).Nodup) := by
  induction entries generalizing old with
  | nil => exact ⟨nofun, fun _ _ => Iff.rfl, id⟩
  | cons x entries ih =>
    rw [map_cons, nodup_cons] at hentries
    obtain ⟨hin, hkeep, hnodup⟩ := ih hentries.2 (setRegion old x)
    obtain ⟨hset, hother, hset'⟩ := setRegion_spec old x
    rw [foldl_cons]
    refine ⟨forall_mem_cons.mpr ⟨(hkeep x hentries.1).mpr hset, hin⟩, fun e he => ?_,
      fun hold => hnodup (hset' hold)⟩
    rw [map_cons, mem_cons, not_or] at he
    rw [hkeep e he.2, hother e he.1]

/-! ## Published -/

theorem pendingRegions_eq_nil {entries : List RegionStatus} {expected : List GoString}
    {generation : Int} : pendingRegions entries expected generation = [] ↔
      ∀ region ∈ expected, ∃ e ∈ entries, e.region = region ∧ e.publishes generation = true := by
  have hsorted : ∀ l : List GoString, l.insertionSort (· ≤ ·) = [] ↔ l = [] := fun l => by
    rw [← length_eq_zero_iff, length_insertionSort, length_eq_zero_iff]
  rw [pendingRegions, hsorted, filter_eq_nil_iff]
  simp

/-- The placed member has reported an entry. -/
def ResourceBinding.Reports (rb : ResourceBinding) (cluster : GoString) : Prop :=
  ∃ m ∈ rb.aggregatedStatus, m.clusterName = cluster ∧ m.regions ≠ []

section Published

variable {rb : ResourceBinding} {generation : Int} {status out : ProjectStatus} {now : Time}

/-- The status that the mirror has written says that the object is published. -/
def ProjectStatus.IsPublished (s : ProjectStatus) : Prop := s.published.any (·.status) = true

instance : DecidablePred ProjectStatus.IsPublished := fun _ => inferInstanceAs (Decidable (_ = true))

/-- What is written. -/
theorem mirror_eq_some (hmirror : mirror rb generation status now = some out) :
    out = applyRegions status generation (regionEntries rb) rb.clusters.length now := by
  unfold mirror at hmirror
  dsimp only at hmirror
  split_ifs at hmirror
  exact (Option.some.inj hmirror).symm

/-- **When the mirror sets `Published`.** -/
theorem isPublished_iff (hmirror : mirror rb generation status now = some out) :
    out.IsPublished ↔ rb.clusters.length ≤ rb.regions.length ∧
      ∀ e ∈ out.regions, ∃ e' ∈ out.regions, e'.region = e.region ∧ e'.publishes generation = true := by
  have hpending : pendingRegions out.regions (out.regions.map region) generation = [] ↔
      ∀ e ∈ out.regions, ∃ e' ∈ out.regions, e'.region = e.region ∧ e'.publishes generation = true :=
    pendingRegions_eq_nil.trans forall_mem_map
  rw [← hpending, ← length_regionEntries]
  obtain rfl := mirror_eq_some hmirror
  by_cases hmissing : rb.clusters.length - (regionEntries rb).length > 0
  · simp only [ProjectStatus.IsPublished, applyRegions, publishedInRegions, hmissing, if_true,
      Option.any_some, decide_eq_true_eq, append_eq_nil_iff, cons_ne_nil, and_false,
      false_iff, not_and]
    omega
  · simp only [ProjectStatus.IsPublished, applyRegions, publishedInRegions, hmissing, if_false,
      Option.any_some, decide_eq_true_eq]
    refine (and_iff_right ?_).symm
    omega

/-- What `Published` is to mean: every placed member has reported, of every region that was reported
the newest entry is there, and all entries have published the generation. -/
structure Sound (rb : ResourceBinding) (generation : Int) (out : ProjectStatus) : Prop where
  reports : ∀ cluster ∈ rb.clusters, rb.Reports cluster
  newest : ∀ e ∈ rb.reported, ∃ e' ∈ out.regions, e'.region = e.region ∧ newer e' e = true
  publishes : ∀ e ∈ out.regions, e.publishes generation = true

theorem nodup_regionEntries (rb : ResourceBinding) :
    ((regionEntries rb).map region).Nodup :=
  (regions_regionEntries rb).nodup_iff.mpr (nodup_dedup _)

/-- All but the count is as it is meant to be. -/
theorem sound_of_isPublished (hstatus : (status.regions.map region).Nodup)
    (hmirror : mirror rb generation status now = some out) (hpublished : out.IsPublished)
    (hreports : ∀ cluster ∈ rb.clusters, rb.Reports cluster) : Sound rb generation out := by
  have hout : out.regions = (regionEntries rb).foldl setRegion status.regions := by
    rw [mirror_eq_some hmirror]
    rfl
  obtain ⟨hin, -, hnodup⟩ := foldl_setRegion_spec (nodup_regionEntries rb) status.regions
  rw [← hout] at hin hnodup
  refine ⟨hreports, fun e he => ?_, fun e he => ?_⟩
  · obtain ⟨e', he', hsame⟩ := exists_newest he
    exact ⟨e', hin e' he', hsame⟩
  · obtain ⟨e', he', hregion, hpublishes⟩ := ((isPublished_iff hmirror).mp hpublished).2 e he
    obtain rfl := inj_on_of_nodup_map (hnodup hstatus) he' he hregion
    exact hpublishes

/-- The same members report on the same regions. -/
structure SameShape (rb rb' : ResourceBinding) : Prop where
  clusters : rb'.clusters = rb.clusters
  reports : rb'.aggregatedStatus.map (fun m => (m.clusterName, m.regions.map RegionStatus.region)) =
    rb.aggregatedStatus.map fun m => (m.clusterName, m.regions.map RegionStatus.region)

theorem SameShape.regions {rb' : ResourceBinding} (h : SameShape rb rb') : rb'.regions = rb.regions := by
  have hnames : ∀ x : ResourceBinding, x.reported.map region =
      (x.aggregatedStatus.map fun m => (m.clusterName, m.regions.map region)).flatMap
        Prod.snd := by
    intro x
    rw [ResourceBinding.reported, map_flatMap, flatMap_map]
  rw [ResourceBinding.regions, ResourceBinding.regions, hnames, hnames, h.reports]

theorem SameShape.reports_iff {rb' : ResourceBinding} (h : SameShape rb rb') (cluster : GoString) :
    rb'.Reports cluster ↔ rb.Reports cluster := by
  have hshape : ∀ x : ResourceBinding, x.Reports cluster ↔ ∃ m ∈ x.aggregatedStatus.map
      (fun m => (m.clusterName, m.regions.map region)), m.1 = cluster ∧ m.2 ≠ [] := by
    intro x
    simp [ResourceBinding.Reports]
  rw [hshape, hshape, h.reports]

/-- The entry, with its region verified at generation 1. -/
def verified (e : RegionStatus) : RegionStatus := ⟨e.region, 1, 1, 1, true, true, true⟩

/-- Everything that is reported is verified. -/
def ResourceBinding.allVerified (rb : ResourceBinding) : ResourceBinding :=
  ⟨rb.clusters, rb.aggregatedStatus.map fun m => ⟨m.clusterName, m.regions.map verified⟩⟩

theorem sameShape_allVerified (rb : ResourceBinding) : SameShape rb rb.allVerified :=
  ⟨rfl, by simp [ResourceBinding.allVerified, verified, Function.comp_def]⟩

theorem publishes_of_mem_allVerified (rb : ResourceBinding) {e : RegionStatus} (h : e ∈ rb.allVerified.reported) :
    e.publishes 1 = true := by
  simp only [ResourceBinding.reported, ResourceBinding.allVerified, mem_flatMap, mem_map] at h
  obtain ⟨_, ⟨m, -, rfl⟩, he⟩ := h
  obtain ⟨x, -, rfl⟩ := mem_map.mp he
  rfl

/-- If enough regions are reported, and all of them are verified, the object is published. -/
theorem allVerified_isPublished (hsome : rb.regions ≠ [])
    (hcount : rb.clusters.length ≤ rb.regions.length) :
    ∃ out, mirror rb.allVerified 1 ⟨[], none⟩ 1 = some out ∧ out.IsPublished := by
  have hshape := sameShape_allVerified rb
  have hentries : regionEntries rb.allVerified ≠ [] := by
    rw [← length_pos_iff, length_regionEntries, hshape.regions]
    exact length_pos_iff.mpr hsome
  have hmirror : mirror rb.allVerified 1 ⟨[], none⟩ 1 = some (applyRegions ⟨[], none⟩ 1
      (regionEntries rb.allVerified) rb.allVerified.clusters.length 1) := by
    unfold mirror
    rw [if_neg hentries]
    exact if_neg (by simp [applyRegions])
  refine ⟨_, hmirror, (isPublished_iff hmirror).mpr ⟨by rwa [hshape.regions], fun e he => ?_⟩⟩
  refine ⟨e, he, rfl, publishes_of_mem_allVerified rb ?_⟩
  obtain ⟨hin, hkeep, hnodup⟩ := foldl_setRegion_spec (nodup_regionEntries rb.allVerified) []
  have hregion : e.region ∈ (regionEntries rb.allVerified).map region := by
    by_contra hnot
    cases (hkeep e hnot).mp he
  obtain ⟨e', he', heq⟩ := mem_map.mp hregion
  obtain rfl := inj_on_of_nodup_map (hnodup .nil) (hin e' he') he heq
  exact ((newest_foldl _).reported _ _ (mem_regionEntries.mp he')).1

/-- **When the count can be trusted.**  For given placements and given regions that the members
report, `Published` means what it is to mean, whatever the entries say, exactly if the regions that
are reported are fewer than the placed members whenever one of these is silent. -/
theorem mirror_sound_iff (rb : ResourceBinding) :
    (∀ (rb' : ResourceBinding) (generation : Int) (status out : ProjectStatus) (now : Time),
        SameShape rb rb' → (status.regions.map RegionStatus.region).Nodup →
        mirror rb' generation status now = some out → out.IsPublished → Sound rb' generation out) ↔
      ∀ cluster ∈ rb.clusters, ¬ rb.Reports cluster → rb.regions.length < rb.clusters.length := by
  constructor
  · intro hsound cluster hcluster hsilent
    by_contra hcount
    rw [not_lt] at hcount
    have hsome : rb.regions ≠ [] := by
      rw [← length_pos_iff]
      exact Nat.lt_of_lt_of_le (length_pos_of_mem hcluster) hcount
    obtain ⟨out, hmirror, hpublished⟩ := allVerified_isPublished hsome hcount
    have hshape := sameShape_allVerified rb
    have hreports := (hsound _ 1 ⟨[], none⟩ out 1 hshape .nil hmirror hpublished).reports cluster hcluster
    exact hsilent ((hshape.reports_iff cluster).mp hreports)
  · intro hcount rb' generation status out now hshape hstatus hmirror hpublished
    refine sound_of_isPublished hstatus hmirror hpublished fun cluster hcluster => ?_
    have hlength := ((isPublished_iff hmirror).mp hpublished).1
    rw [hshape.regions, hshape.clusters] at hlength
    rw [hshape.clusters] at hcluster
    by_contra hsilent
    rw [hshape.reports_iff] at hsilent
    exact absurd (hcount cluster hcluster hsilent) (not_lt.mpr hlength)

/-- An entry of a region that is verified at generation 2. -/
def verifiedIn (region : GoString) : RegionStatus := ⟨region, 2, 1, 1, true, true, true⟩

/-- The hub has placed the object in two members.  One of them reports two regions, the other has not
reported yet, and the mirror sets `Published`. -/
theorem published_without_a_member : ∃ out,
    mirror ⟨[lit "east", lit "west"], [⟨lit "east", [verifiedIn (lit "us-east-1"),
      verifiedIn (lit "us-east-2")]⟩]⟩ 2 ⟨[], none⟩ 1 = some out ∧ out.IsPublished ∧
    ¬ ResourceBinding.Reports ⟨[lit "east", lit "west"], [⟨lit "east",
      [verifiedIn (lit "us-east-1"), verifiedIn (lit "us-east-2")]⟩]⟩ (lit "west") := by
  refine ⟨_, rfl, by decide +kernel, ?_⟩
  rintro ⟨m, hm, hcluster, -⟩
  obtain rfl := mem_singleton.mp hm
  exact absurd hcluster (by decide)

end Published

end InternalDNS.PrivateReplication
