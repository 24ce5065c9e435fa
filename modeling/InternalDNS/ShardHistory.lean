import InternalDNS.ShardPlanner

/-! # The snapshots of a shard

A plan is made from the snapshot that was committed last and from bindings that were listed after
that.  `Carried` relates the committed snapshots to the stored bindings: every view shows an earlier
state of its binding, and a binding that a snapshot has dropped is being deleted.  `Planned` says what
a plan is when it is committed, and `History` what the sequence of all committed snapshots is like.
-/
namespace InternalDNS

open Go List ResolverBinding.Stays

/-- The number of a snapshot: first its epoch, then its revision. -/
def ServingSnapshot.number (s : ServingSnapshot) : Nat ×ₗ Nat :=
  toLex (s.configurationEpoch, s.configurationRevision)

/-- The UIDs of the bindings of a snapshot. -/
def ServingSnapshot.uids (s : ServingSnapshot) : List GoString := s.bindings.map Binding.bindingUID

theorem ServingSnapshot.mem_uids {s : ServingSnapshot} {b : Binding} (h : b ∈ s.bindings) :
    b.bindingUID ∈ s.uids := mem_map_of_mem h

namespace Platform

variable {E : Externals} {region shard : GoString} {writes : BindingWrites}
  {commits : List ServingSnapshot}

/-! ## Names -/

theorem outboxName_eq (region shard : GoString) (epoch revision : Nat) :
    outboxName E region shard epoch revision =
      (lit "dns-serving-" ++ E.opaqueToken (region ++ '/' :: shard) ++ lit "-e" ++ itoa epoch) ++
        '-' :: 'r' :: itoa revision :=
  append_assoc _ (lit "-r") _

theorem snapshotName_ne_nil (s : ServingSnapshot) : snapshotName E s ≠ [] := by
  rw [snapshotName, outboxName_eq]
  exact append_ne_nil_of_right_ne_nil _ (cons_ne_nil _ _)

theorem revision_of_snapshotName {s s' : ServingSnapshot} (hregion : s.region = s'.region)
    (hshard : s.shard = s'.shard) (h : snapshotName E s = snapshotName E s') :
    s.configurationRevision = s'.configurationRevision := by
  rw [snapshotName, snapshotName, hregion, hshard, outboxName_eq, outboxName_eq] at h
  exact (append_numbers_inj h).2

/-! ## Committed snapshots and stored bindings -/

/-- Writers that keep bindings in their place. -/
structure BindingWrites.Lawful (E : Externals) (writes : BindingWrites) : Prop where
  born : ∀ o, writes.born o → o.Labelled E
  stays : ∀ a b, writes.changes a b → a.Stays b
  labelled : ∀ a b, a.Labelled E → writes.changes a b → b.Labelled E

theorem BindingWrites.admitted_lawful : (BindingWrites.admitted E).Lawful E :=
  ⟨fun _ h => h, fun _ _ h => h.1, fun _ _ _ h => h.2⟩

/-- What the committed snapshots say about the stored bindings. -/
structure Carried (writes : BindingWrites) (region shard : GoString) (commits : List ServingSnapshot)
    (store : ResolverBindings) : Prop where
  known : ∀ s ∈ commits, ∀ b ∈ s.bindings, b.bindingUID ∈ store.issued
  placed : ∀ s ∈ commits, ∀ b ∈ s.bindings, ∀ o ∈ store.objects, o.uid = b.bindingUID →
    o.spec.region = region ∧ o.spec.shard = shard
  forms : ∀ s ∈ commits, ∀ b ∈ s.bindings, ∀ o ∈ store.objects, o.uid = b.bindingUID →
    ∃ o₀, FormOf o₀ b ∧ Relation.ReflTransGen writes.changes o₀ o
  /-- A binding that the last snapshot does not have any more is being deleted. -/
  gone : ∀ s ∈ commits, ∀ uid ∈ s.uids, (∀ last ∈ commits.getLast?, uid ∉ last.uids) →
    ∀ o ∈ store.objects, o.uid = uid → o.deleting = true

theorem Carried.nil (store : ResolverBindings) : Carried writes region shard [] store :=
  ⟨nofun, nofun, nofun, nofun⟩

/-- What is carried stays so while bindings are written. -/
theorem Carried.later {store store' : ResolverBindings} (hwrites : writes.Lawful E)
    (h : Carried writes region shard commits store) (hlater : store.Later writes.changes store') :
    Carried writes region shard commits store' := by
  refine ⟨fun s hs b hb => hlater.issued _ (h.known s hs b hb), fun s hs b hb o ho huid => ?_,
    fun s hs b hb o ho huid => ?_, fun s hs uid huid hlast o ho heq => ?_⟩
  · obtain ⟨o₀, ho₀, huid₀, hrun⟩ := hlater.earlier o ho (huid ▸ h.known s hs b hb)
    have hstays := of_run hwrites.stays hrun
    rw [hstays.region, hstays.shard]
    exact h.placed s hs b hb o₀ ho₀ (huid₀.trans huid)
  · obtain ⟨o₀, ho₀, huid₀, hrun⟩ := hlater.earlier o ho (huid ▸ h.known s hs b hb)
    obtain ⟨o₁, hform, hrun₁⟩ := h.forms s hs b hb o₀ ho₀ (huid₀.trans huid)
    exact ⟨o₁, hform, hrun₁.trans hrun⟩
  · obtain ⟨b, hb, rfl⟩ := mem_map.mp huid
    obtain ⟨o₀, ho₀, huid₀, hrun⟩ := hlater.earlier o ho (heq ▸ h.known s hs b hb)
    exact (of_run hwrites.stays hrun).deleting
      (h.gone s hs _ huid hlast o₀ ho₀ (huid₀.trans heq))

/-- The snapshot that was committed last, or the empty one. -/
def lastOf (commits : List ServingSnapshot) : ServingSnapshot := commits.getLast?.getD emptySnapshot

theorem mem_of_mem_lastOf {b : Binding} (h : b ∈ (lastOf commits).bindings) :
    lastOf commits ∈ commits.getLast? := by
  unfold lastOf at h ⊢
  cases hlast : commits.getLast? with
  | none =>
    rw [hlast] at h
    cases h
  | some last => rfl

theorem lastOf_mem {b : Binding} (h : b ∈ (lastOf commits).bindings) : lastOf commits ∈ commits :=
  mem_of_getLast? (mem_of_mem_lastOf h)

theorem lastOf_eq {last : ServingSnapshot} (h : last ∈ commits.getLast?) :
    lastOf commits = last := by
  rw [lastOf, h, Option.getD_some]

/-- What the sequence of all committed snapshots is like. -/
structure History (writes : BindingWrites) (commits : List ServingSnapshot) : Prop where
  /-- Two views of a binding show it at an earlier and at a later time. -/
  forms : commits.Pairwise fun s t => ∀ b ∈ s.bindings, ∀ c ∈ t.bindings,
    b.bindingUID = c.bindingUID → ∃ o₀ o₁, FormOf o₀ b ∧ FormOf o₁ c ∧
      Relation.ReflTransGen writes.changes o₀ o₁
  /-- A binding that was dropped never comes back. -/
  gone : ∀ s t u, [s, t, u].Sublist commits → ∀ uid ∈ s.uids, uid ∉ t.uids → uid ∉ u.uids

theorem History.nil : History writes [] := ⟨.nil, nofun⟩

/-- A part of a history is one. -/
theorem History.sublist {commits offered : List ServingSnapshot} (h : History writes commits)
    (hsub : offered.Sublist commits) : History writes offered :=
  ⟨h.forms.sublist hsub, fun s t u hstu => h.gone s t u (hstu.trans hsub)⟩

/-! ## A plan that is committed -/

section Commit

variable {c : PlannerConfig} {commits : List ServingSnapshot} {seen store : ResolverBindings}
  {s : ServingSnapshot}

/-- A plan was made from the bindings that were `seen`, and the stored bindings are a later state of
them. -/
structure Planned (E : Externals) (writes : BindingWrites) (region shard : GoString)
    (commits : List ServingSnapshot) (seen : ResolverBindings) (s : ServingSnapshot) : Prop where
  labelled : ∀ o ∈ seen.objects, o.Labelled E
  carried : Carried writes region shard commits seen
  follows : ∃ c : PlannerConfig, c.region = region ∧ c.shard = shard ∧
    Follows E c (lastOf commits).bindings seen.objects s.bindings

theorem selects_iff {o : ResolverBinding} (hlabelled : o.Labelled E) (hregion : c.region = region)
    (hshard : c.shard = shard) : selects E c o = true ↔
      (o.spec.region = region ∧ o.spec.shard = shard) ∧ o.deleting = false := by
  subst hregion hshard
  unfold selects
  rw [hlabelled.1, hlabelled.2]
  constructor
  · intro h
    simpa using (Bool.and_eq_true_iff.mp h).2
  · rintro ⟨⟨h1, h2⟩, h3⟩
    simp [h1, h2, h3]

namespace Planned

/-- Each view of the plan, and the stored binding it is of. -/
theorem view (h : Planned E writes region shard commits seen s) {b : Binding} (hb : b ∈ s.bindings) :
    ∃ o ∈ seen.objects, b.bindingUID = o.uid ∧ (o.spec.region = region ∧ o.spec.shard = shard) ∧
      o.deleting = false ∧ (FormOf o b ∨ b ∈ (lastOf commits).bindings) := by
  obtain ⟨c, hregion, hshard, hfollows⟩ := h.follows
  obtain ⟨o, ho, hsel, huid, hform⟩ := hfollows.forms b hb
  obtain ⟨hplaced, hlive⟩ := (selects_iff (h.labelled o ho) hregion hshard).mp hsel
  exact ⟨o, ho, huid, hplaced, hlive, hform⟩

section

variable (hwrites : writes.Lawful E) (h : Planned E writes region shard commits seen s)
  (hlater : seen.Later writes.changes store)
include hwrites h hlater

/-- **No binding of the last snapshot is dropped unless it is being deleted.** -/
theorem kept {uid : GoString} (huid : uid ∈ (lastOf commits).uids) {o : ResolverBinding}
    (ho : o ∈ store.objects) (heq : o.uid = uid) (hlive : o.deleting = false) :
    uid ∈ s.uids := by
  obtain ⟨c, hregion, hshard, hfollows⟩ := h.follows
  obtain ⟨b, hb, rfl⟩ := mem_map.mp huid
  have hlast := lastOf_mem hb
  obtain ⟨o₀, ho₀, huid₀, hrun⟩ := hlater.earlier o ho (heq ▸ h.carried.known _ hlast b hb)
  have hstays := of_run hwrites.stays hrun
  have hlive₀ : o₀.deleting = false := by
    by_contra hdeleting
    rw [Bool.not_eq_false] at hdeleting
    rw [hstays.deleting hdeleting] at hlive
    cases hlive
  have hplaced := h.carried.placed _ hlast b hb o₀ ho₀ (huid₀.trans heq)
  obtain ⟨b', hb', huid'⟩ := hfollows.kept o₀ ho₀
    ((selects_iff (h.labelled o₀ ho₀) hregion hshard).mpr ⟨hplaced, hlive₀⟩)
    ⟨b, hb, (huid₀.trans heq).symm⟩
  exact mem_map.mpr ⟨b', hb', huid'.trans (huid₀.trans heq)⟩

/-- The stored bindings after the commit. -/
theorem carried_concat :
    Carried writes region shard (commits ++ [s]) store := by
  have hstore := h.carried.later hwrites hlater
  have hsplit : ∀ t ∈ commits ++ [s], t ∈ commits ∨ t = s := by simp
  -- a stored binding that the plan shows is a later state of the one the plan was made from
  have hview : ∀ b ∈ s.bindings, ∀ o ∈ store.objects, o.uid = b.bindingUID → ∃ o₀ ∈ seen.objects,
      (o₀.spec.region = region ∧ o₀.spec.shard = shard) ∧ Relation.ReflTransGen writes.changes o₀ o ∧
      (FormOf o₀ b ∨ b ∈ (lastOf commits).bindings) := by
    intro b hb o ho huid
    obtain ⟨o₀, ho₀, huid₀, hplaced, -, hform⟩ := h.view hb
    obtain ⟨o₁, ho₁, huid₁, hrun⟩ := hlater.earlier o ho
      ((huid.trans huid₀).symm ▸ seen.known o₀ ho₀)
    obtain rfl := seen.eq_of_uid ho₁ ho₀ (huid₁.trans (huid.trans huid₀))
    exact ⟨o₁, ho₁, hplaced, hrun, hform⟩
  refine ⟨fun t ht b hb => ?_, fun t ht b hb o ho huid => ?_, fun t ht b hb o ho huid => ?_,
    fun t ht uid huid hlast o ho heq => ?_⟩
  · rcases hsplit t ht with ht | rfl
    · exact hstore.known t ht b hb
    · obtain ⟨o, ho, huid, -⟩ := h.view hb
      exact huid ▸ hlater.issued _ (seen.known o ho)
  · rcases hsplit t ht with ht | rfl
    · exact hstore.placed t ht b hb o ho huid
    · obtain ⟨o₀, -, hplaced, hrun, -⟩ := hview b hb o ho huid
      have hstays := of_run hwrites.stays hrun
      rwa [hstays.region, hstays.shard]
  · rcases hsplit t ht with ht | rfl
    · exact hstore.forms t ht b hb o ho huid
    · obtain ⟨o₀, -, -, hrun, hform | hlast⟩ := hview b hb o ho huid
      · exact ⟨o₀, hform, hrun⟩
      · exact hstore.forms _ (lastOf_mem hlast) b hlast o ho huid
  · have hdropped : uid ∉ s.uids := hlast s (by simp)
    rcases hsplit t ht with ht | rfl
    · by_cases hcarried : uid ∈ (lastOf commits).uids
      · by_contra hlive
        exact hdropped (h.kept hwrites hlater hcarried ho heq (Bool.eq_false_of_not_eq_true hlive))
      · refine hstore.gone t ht uid huid (fun last hl => ?_) o ho heq
        rwa [← lastOf_eq hl]
    · exact absurd huid hdropped

end

/-- **The history after the commit.** -/
theorem history_concat (h : Planned E writes region shard commits seen s)
    (hhistory : History writes commits) (huids : ∀ t ∈ commits, t.uids.Nodup) :
    History writes (commits ++ [s]) := by
  refine ⟨pairwise_append.mpr ⟨hhistory.forms, pairwise_singleton .., ?_⟩, ?_⟩
  · intro t ht u hu b hb c hc heq
    obtain rfl := mem_singleton.mp hu
    obtain ⟨o, ho, huid, -, -, hform | hlast⟩ := h.view hc
    · obtain ⟨o₀, hform₀, hrun⟩ := h.carried.forms t ht b hb o ho (huid.symm.trans heq.symm)
      exact ⟨o₀, o, hform₀, hform, hrun⟩
    · -- the plan has fallen back to the form of the last snapshot
      obtain ⟨init, hcommits⟩ := List.getLast?_eq_some_iff.mp (mem_of_mem_lastOf hlast)
      have hpairs := hhistory.forms
      rw [hcommits, pairwise_append] at hpairs
      rw [hcommits] at ht
      rcases mem_append.mp ht with ht | ht
      · exact hpairs.2.2 t ht _ (mem_singleton_self _) b hb c hlast heq
      · rw [mem_singleton.mp ht] at hb
        obtain rfl := inj_on_of_nodup_map (huids _ (lastOf_mem hlast)) hb hlast heq
        obtain ⟨o₀, hform₀, -⟩ := h.carried.forms _ (lastOf_mem hlast) b hb o ho huid.symm
        exact ⟨o₀, o₀, hform₀, hform₀, .refl⟩
  · intro x t u hsub uid hx ht hu
    rcases sublist_concat_cases hsub with hsub | ⟨l, hl, hpair⟩
    · exact hhistory.gone x t u hsub uid hx ht hu
    · replace hl : [x, t] ++ [u] = l ++ [s] := hl
      obtain ⟨rfl, hus⟩ := append_inj' hl rfl
      obtain rfl := singleton_inj.mp hus
      obtain ⟨c, hc, rfl⟩ := mem_map.mp hu
      obtain ⟨o, ho, huid, -, hlive, -⟩ := h.view hc
      refine absurd (h.carried.gone x (hpair.subset (by simp)) _ hx (fun last hlast hmem => ?_) o ho
        huid.symm) (by simp [hlive])
      -- otherwise the binding would have come back before
      obtain ⟨init, rfl⟩ := List.getLast?_eq_some_iff.mp hlast
      rcases sublist_concat_cases hpair with hpair | ⟨l, hl, -⟩
      · exact hhistory.gone x t last (hpair.append_right [last]) _ hx ht hmem
      · replace hl : [x] ++ [t] = l ++ [last] := hl
        obtain ⟨-, htl⟩ := append_inj' hl rfl
        exact ht (singleton_inj.mp htl ▸ hmem)

end Planned

end Commit

end Platform

end InternalDNS
