import InternalDNS.Agent

/-! # The order of checkpoints

Fences only have a meaning as thresholds: a checkpoint may replace another one if every fence it
holds is at least as high.  `Checkpoint.Below` is that order.  A set of publications is covered by
a disk if every observation that its plans rest on is already recorded there, so that no restart
can accept an older observation of the same contribution.

The module ends with what `commitContributionFences` does to the fences of an accepted plan: they
grow, and afterwards they cover it.
-/
namespace InternalDNS

open Go Option

/-- The order of publications of one zone. -/
def Fence.key (f : Fence) : Nat ×ₗ Nat := toLex (f.epoch, f.revision)

/-- The order of observations of one contribution. -/
def ContributionFence.key (f : ContributionFence) : Nat ×ₗ Nat := toLex (f.generation, f.sequence)

/-- `g` may follow `f`: it is not older, and what was retired stays retired. -/
structure ContributionFence.Below (f g : ContributionFence) : Prop where
  key : f.key ≤ g.key
  retired : f.retired = true → g.retired = true

theorem ContributionFence.Below.refl (f : ContributionFence) : f.Below f := ⟨le_rfl, id⟩

theorem ContributionFence.Below.trans (f g h : ContributionFence) (hfg : f.Below g)
    (hgh : g.Below h) : f.Below h :=
  ⟨hfg.key.trans hgh.key, hgh.retired ∘ hfg.retired⟩

/-- The publications of `m` are followed by those of `n`. -/
abbrev PublicationsGrow : GoMap GoString PublicationState → GoMap GoString PublicationState → Prop :=
  GoMap.Grows fun p q => p.fence.key ≤ q.fence.key

/-- The contribution fences of `m` are followed by those of `n`. -/
abbrev FencesGrow : GoMap GoString ContributionFence → GoMap GoString ContributionFence → Prop :=
  GoMap.Grows ContributionFence.Below

/-- **No fence of `c` is lost or lowered in `d`.** -/
structure Checkpoint.Below (c d : Checkpoint) : Prop where
  publications : PublicationsGrow c.publications d.publications
  contributions : FencesGrow c.contributionFences d.contributionFences

theorem PublicationsGrow.refl (m : GoMap GoString PublicationState) : PublicationsGrow m m :=
  GoMap.Grows.refl (fun p => le_refl p.fence.key) m

theorem FencesGrow.refl (m : GoMap GoString ContributionFence) : FencesGrow m m :=
  GoMap.Grows.refl ContributionFence.Below.refl m

theorem FencesGrow.trans {l m n : GoMap GoString ContributionFence} (hlm : FencesGrow l m)
    (hmn : FencesGrow m n) : FencesGrow l n :=
  GoMap.Grows.trans ContributionFence.Below.trans hlm hmn

theorem PublicationsGrow.trans {l m n : GoMap GoString PublicationState}
    (hlm : PublicationsGrow l m) (hmn : PublicationsGrow m n) : PublicationsGrow l n :=
  GoMap.Grows.trans (fun p q r (hpq : p.fence.key ≤ q.fence.key) (hqr : q.fence.key ≤ r.fence.key) =>
    hpq.trans hqr) hlm hmn

theorem Checkpoint.Below.trans {b c d : Checkpoint} (hbc : b.Below c) (hcd : c.Below d) :
    b.Below d :=
  ⟨hbc.publications.trans hcd.publications, hbc.contributions.trans hcd.contributions⟩

/-- Checkpoints with the same fences. -/
theorem Checkpoint.Below.of_eq {c d : Checkpoint} (hp : c.publications = d.publications)
    (hf : c.contributionFences = d.contributionFences) : c.Below d :=
  ⟨hp ▸ .refl _, hf ▸ .refl _⟩

/-! ## Coverage -/

/-- The fence that an observation becomes. -/
def ObservationFence.fence (o : ObservationFence) : ContributionFence :=
  ⟨o.generation, o.sequence, o.retired⟩

/-- The fences have reached every observation of the plan. -/
def PublicationPlan.CoveredBy (plan : PublicationPlan) (fences : GoMap GoString ContributionFence) :
    Prop :=
  ∀ o ∈ plan.observationFences, ∃ f, fences.lookup o.contributionUID = some f ∧ o.fence.Below f

theorem PublicationPlan.CoveredBy.grow {plan : PublicationPlan}
    {m n : GoMap GoString ContributionFence} (h : plan.CoveredBy m) (hmn : FencesGrow m n) :
    plan.CoveredBy n := by
  intro o ho
  obtain ⟨f, hf, hof⟩ := h o ho
  obtain ⟨g, hg, hfg⟩ := hmn _ f hf
  exact ⟨g, hg, .trans _ _ _ hof hfg⟩

theorem emptyPlan_coveredBy (fences : GoMap GoString ContributionFence) :
    emptyPlan.CoveredBy fences := fun o ho => absurd ho (by simp [emptyPlan])

/-- The contribution fences on a disk. -/
def fencesOn (disk : Option Checkpoint) : GoMap GoString ContributionFence :=
  disk.elim ∅ Checkpoint.contributionFences

/-- **Every observation behind the publications is on the disk.** -/
def Covered (source : GoMap GoString PublicationState) (disk : Option Checkpoint) : Prop :=
  ∀ uid p, source.lookup uid = some p → p.plan.CoveredBy (fencesOn disk)

theorem Covered.grow {source : GoMap GoString PublicationState} {disk disk' : Option Checkpoint}
    (h : Covered source disk) (hd : FencesGrow (fencesOn disk) (fencesOn disk')) :
    Covered source disk' := fun uid p hp => (h uid p hp).grow hd

/-! ## Committing the observations of a plan -/

section Commit

variable {fences : GoMap GoString ContributionFence}

/-- A fence that an observation may follow, but does not change, is the observation itself. -/
theorem ContributionFence.Below.eq_of_kept {f : ContributionFence} {o : ObservationFence}
    (h : f.Below o.fence) (hkeep : ¬ (compare o.generation o.sequence f.generation f.sequence > 0 ∨
      (compare o.generation o.sequence f.generation f.sequence = 0 ∧ o.retired ∧ ¬ f.retired))) :
    f = o.fence := by
  obtain ⟨hnew, hrevive⟩ := not_or.mp hkeep
  have hkey : f.key = o.fence.key := h.key.eq_of_not_lt fun hlt => hnew (compare_pos_iff.mpr hlt)
  obtain ⟨hg, hs⟩ : f.generation = o.generation ∧ f.sequence = o.sequence :=
    Prod.ext_iff.mp (toLex.injective hkey)
  have hretired : f.retired = o.retired := by
    rw [compare_eq_zero_iff, not_and] at hrevive
    exact Bool.eq_iff_iff.mpr ⟨h.retired, fun ho => by_contra fun hf =>
      hrevive ⟨hg.symm, hs.symm⟩ ⟨ho, hf⟩⟩
  obtain ⟨g, n, r⟩ := f
  exact congr (congr (congrArg _ hg) hs) hretired

/-- An observation that may follow its fence becomes the fence. -/
theorem lookup_commitContributionFence {o : ObservationFence} (hpos : o.generation ≠ 0)
    (h : ∀ f, fences.lookup o.contributionUID = some f → f.Below o.fence) (uid : GoString) :
    (commitContributionFence fences o).lookup uid =
      if uid = o.contributionUID then some o.fence else fences.lookup uid := by
  unfold commitContributionFence
  dsimp only
  split
  · split
    case isTrue huid => rw [huid, AList.lookup_insert, ObservationFence.fence]
    case isFalse huid => exact AList.lookup_insert_ne huid
  · rename_i hkeep
    split
    case isFalse => rfl
    case isTrue huid =>
      subst huid
      match hf : fences.lookup o.contributionUID with
      | some f =>
        rw [hf, getD_some] at hkeep
        exact congrArg some ((h f hf).eq_of_kept hkeep)
      | none =>
        -- An observation without a fence is newer than the zero fence.
        rw [hf, getD_none] at hkeep
        refine absurd (.inl (compare_pos_iff.mpr ?_)) hkeep
        exact Prod.Lex.toLex_lt_toLex.mpr (.inl (Nat.pos_of_ne_zero hpos))

/-- Observations of different contributions that may all follow their fences: the fences grow, and
reach every observation. -/
theorem foldl_commitContributionFence {os : List ObservationFence}
    (hnodup : (os.map ObservationFence.contributionUID).Nodup) (hpos : ∀ o ∈ os, o.generation ≠ 0)
    (h : ∀ o ∈ os, ∀ f, fences.lookup o.contributionUID = some f → f.Below o.fence) :
    FencesGrow fences (os.foldl commitContributionFence fences) ∧
      ∀ o ∈ os, ∃ f, (os.foldl commitContributionFence fences).lookup o.contributionUID = some f ∧
        o.fence.Below f := by
  induction os generalizing fences with
  | nil => exact ⟨.refl _, fun o ho => absurd ho (List.not_mem_nil)⟩
  | cons o os ih =>
    rw [List.map_cons, List.nodup_cons] at hnodup
    have hlookup := lookup_commitContributionFence (hpos o (by simp)) (h o (by simp))
    have hfirst : FencesGrow fences (commitContributionFence fences o) := by
      intro uid f hf
      rw [hlookup]
      split
      case isTrue huid => exact ⟨_, rfl, h o (by simp) f (huid ▸ hf)⟩
      case isFalse => exact ⟨f, hf, .refl f⟩
    obtain ⟨hgrow, hreach⟩ := ih hnodup.2 (fun x hx => hpos x (by simp [hx])) (by
      intro x hx f hf
      have hne : x.contributionUID ≠ o.contributionUID := fun heq =>
        hnodup.1 (heq ▸ List.mem_map_of_mem hx)
      rw [hlookup, if_neg hne] at hf
      exact h x (by simp [hx]) f hf)
    refine ⟨hfirst.trans hgrow, fun x hx => ?_⟩
    rcases List.mem_cons.mp hx with rfl | hx
    · exact hgrow _ _ ((hlookup _).trans (if_pos rfl))
    · exact hreach x hx

/-- What an accepted plan must not do to the fences, in terms of their order. -/
theorem validateContributionFences_eq_ok {c : Checkpoint} {plan : PublicationPlan} :
    c.validateContributionFences plan = .ok () ↔
      ∀ o ∈ plan.observationFences, ∀ f, c.contributionFences.lookup o.contributionUID = some f →
        f.Below o.fence := by
  simp only [Checkpoint.validateContributionFences, forEach_eq_ok, Except.bind_eq_ok, failIf_eq_ok,
    exists_const]
  refine forall₂_congr fun o _ => ?_
  cases c.contributionFences.lookup o.contributionUID with
  | none => simp
  | some f =>
    have hkey : ¬ compare o.generation o.sequence f.generation f.sequence < 0 ↔
        f.key ≤ o.fence.key := compare_neg_iff.not.trans not_lt
    simp only [any_some, decide_eq_true_eq, hkey, some.injEq, forall_eq']
    constructor
    · rintro ⟨hretired, hle⟩
      exact ⟨hle, by simpa [ObservationFence.fence] using hretired⟩
    · rintro ⟨hle, hretired⟩
      exact ⟨by simpa [ObservationFence.fence] using hretired, hle⟩

/-- **The fences of an accepted plan.**  They only grow, and cover the plan. -/
theorem commitContributionFences_spec {E : Externals} {c : Checkpoint} {plan : PublicationPlan}
    (hvalid : plan.Valid E) (haccept : c.validateContributionFences plan = .ok ()) :
    FencesGrow c.contributionFences (c.commitContributionFences plan).contributionFences ∧
      plan.CoveredBy (c.commitContributionFences plan).contributionFences :=
  foldl_commitContributionFence (hvalid.observationsSorted.imp ne_of_lt)
    (fun o ho => (hvalid.observations o ho).2.1) (validateContributionFences_eq_ok.mp haccept)

end Commit

/-- A recorded fence was there before, or comes from the plan. -/
theorem lookup_commitContributionFences {c : Checkpoint} {plan : PublicationPlan}
    {uid : GoString} {f : ContributionFence}
    (h : (c.commitContributionFences plan).contributionFences.lookup uid = some f) :
    c.contributionFences.lookup uid = some f ∨
      ∃ o ∈ plan.observationFences, o.contributionUID = uid ∧ o.fence = f := by
  revert h
  refine foldl_invariant (P := fun (done : List ObservationFence)
      (m : GoMap GoString ContributionFence) =>
    m.lookup uid = some f → c.contributionFences.lookup uid = some f ∨
      ∃ o ∈ done, o.contributionUID = uid ∧ o.fence = f) .inl ?_
  intro done o rest m _ ih h
  have hdone : c.contributionFences.lookup uid = some f ∨
      (∃ o' ∈ done, o'.contributionUID = uid ∧ o'.fence = f) → c.contributionFences.lookup uid = some f ∨
      ∃ o' ∈ done ++ [o], o'.contributionUID = uid ∧ o'.fence = f :=
    Or.imp_right fun ⟨o', ho', h⟩ => ⟨o', List.mem_append_left _ ho', h⟩
  unfold commitContributionFence at h
  dsimp only at h
  split_ifs at h
  · rcases GoMap.of_lookup_insert h with ⟨rfl, rfl⟩ | h
    · exact .inr ⟨o, by simp, rfl, rfl⟩
    · exact hdone (ih h)
  · exact hdone (ih h)

end InternalDNS
