import InternalDNS.CompilerClaims

/-! # The fences of a plan

A plan carries a fence for every contribution that any plan of the zone has ever observed.  The
compiler starts from the fences of the previous plan, retires those whose contribution is gone, and
moves the fence of a contribution forward when it observes a newer generation or a deletion.  What
becomes of one fence is `fenceAfter`; that no fence falls (`fences_dominate`) and that an accepted
contribution has a live fence (`accepted_fence`) are read off it.
-/
namespace InternalDNS.Controlplane

open Go List AList ContributionFence

variable {E : Externals} {input : CompileInput} {uid : GoString} {f : ContributionFence}
  {registered : Registered} {c : DNSRecordContribution}

/-! ## The previous plan -/

/-- The fences that the compiler reads from the previous plan. -/
def CompileInput.previousContributions (input : CompileInput) : List ContributionFence :=
  input.previous.elim [] PublicationPlan.contributions

theorem lookup_previousFences (h : (previousFences input).lookup uid = some f) :
    f ∈ input.previousContributions ∧ f.uid = uid := by
  obtain ⟨x, hx, huid, rfl⟩ := GoMap.lookup_fill h
  exact ⟨hx, huid⟩

/-- With one fence for each contribution, nothing of the previous plan is lost. -/
theorem lookup_previousFences_of_mem
    (hnodup : (input.previousContributions.map ContributionFence.uid).Nodup)
    (hf : f ∈ input.previousContributions) : (previousFences input).lookup f.uid = some f :=
  (GoMap.lookup_fill_iff hnodup).mpr ⟨f, hf, rfl, rfl⟩

/-! ## What becomes of a fence -/

/-- The contribution is observed: its registration is accepted and it is not stale. -/
def Observed (input : CompileInput) (registered : Registered) (c : DNSRecordContribution) : Prop :=
  (registered.regs.lookup c.registrationRef.uid).isSome ∧
    validateContribution c (registered.regs.lookup c.registrationRef.uid)
      ((previousFences input).lookup c.uid) = []

/-- The fences after one contribution. -/
theorem contribute_fences {rejected : GoMap GoString GoString} {st : Contributed} :
    ((contribute E input rejected registered st c).fences = st.fences ∧
        ¬ Observed input registered c) ∨
      (Observed input registered c ∧ (contribute E input rejected registered st c).fences =
        moveFence ((previousFences input).lookup c.uid) c st.fences) := by
  unfold contribute
  dsimp only
  split
  · rename_i reg hreg hcurrent
    refine .inr ⟨⟨by simp [hreg], hcurrent⟩, ?_⟩
    split_ifs <;> rfl
  · rename_i hnot
    refine .inl ⟨rfl, fun ⟨hsome, hcurrent⟩ => ?_⟩
    obtain ⟨reg, hreg⟩ := Option.isSome_iff_exists.mp hsome
    exact hnot reg hreg hcurrent

/-- The fence is not moved by an unchanged generation, unless the contribution is being deleted. -/
def Moves (previous : Option ContributionFence) (c : DNSRecordContribution) : Prop :=
  ¬ ((previous.any fun f => f.uid ≠ [] && c.generation ≤ f.generation) ∧ ¬ c.deleted)

theorem lookup_moveFence {previous : Option ContributionFence}
    {fences : GoMap GoString ContributionFence} (uid : GoString) :
    ((moveFence previous c fences).lookup uid = fences.lookup uid ∧
        (uid = c.uid → ¬ Moves previous c)) ∨
      (uid = c.uid ∧ Moves previous c ∧
        (moveFence previous c fences).lookup uid = some (currentFence c)) := by
  unfold moveFence
  split_ifs with hkeep
  · exact .inl ⟨rfl, fun _ hmoves => hmoves hkeep⟩
  · by_cases huid : uid = c.uid
    · exact .inr ⟨huid, hkeep, huid ▸ lookup_insert _⟩
    · exact .inl ⟨lookup_insert_ne huid, fun h => absurd h huid⟩

/-- **What becomes of a fence**: it is carried over, unless an observed contribution moves it. -/
theorem lookup_fences (hnodup : (input.contributions.map DNSRecordContribution.uid).Nodup)
    (rejected : GoMap GoString GoString) (registered : Registered) (uid : GoString) :
    ((contributeAll E input rejected registered).fences.lookup uid = (carriedFences input).lookup uid ∧
        ∀ c ∈ input.contributions, c.uid = uid → Observed input registered c →
          ¬ Moves ((previousFences input).lookup c.uid) c) ∨
      ∃ c ∈ input.contributions, c.uid = uid ∧ Observed input registered c ∧
        Moves ((previousFences input).lookup c.uid) c ∧
        (contributeAll E input rejected registered).fences.lookup uid = some (currentFence c) := by
  refine foldl_invariant (P := fun done (st : Contributed) =>
    (st.fences.lookup uid = (carriedFences input).lookup uid ∧
      ∀ c ∈ done, c.uid = uid → Observed input registered c →
        ¬ Moves ((previousFences input).lookup c.uid) c) ∨
    ∃ c ∈ done, c.uid = uid ∧ Observed input registered c ∧
      Moves ((previousFences input).lookup c.uid) c ∧ st.fences.lookup uid = some (currentFence c))
    (.inl ⟨rfl, nofun⟩) ?_
  intro done c rest st hsplit ih
  have hnew := not_mem_map_of_nodup hnodup hsplit
  have hstep : ((contribute E input rejected registered st c).fences.lookup uid = st.fences.lookup uid ∧
      (c.uid = uid → Observed input registered c → ¬ Moves ((previousFences input).lookup c.uid) c)) ∨
      (c.uid = uid ∧ Observed input registered c ∧ Moves ((previousFences input).lookup c.uid) c ∧
        (contribute E input rejected registered st c).fences.lookup uid = some (currentFence c)) := by
    rcases contribute_fences (E := E) with ⟨hsame, hnot⟩ | ⟨hobserved, hmove⟩
    · exact .inl ⟨by rw [hsame], fun _ h => absurd h hnot⟩
    · rw [hmove]
      rcases lookup_moveFence uid with ⟨hsame, hstay⟩ | ⟨huid, hmoves, hnext⟩
      · exact .inl ⟨hsame, fun huid _ => hstay huid.symm⟩
      · exact .inr ⟨huid.symm, hobserved, hmoves, hnext⟩
  rcases hstep with ⟨hsame, hstay⟩ | ⟨huid, hobserved, hmoves, hnext⟩
  · rw [hsame]
    rcases ih with ⟨hcarried, hdone⟩ | ⟨d, hd, hrest⟩
    · exact .inl ⟨hcarried, forall_mem_concat hdone hstay⟩
    · exact .inr ⟨d, mem_append_left _ hd, hrest⟩
  · exact .inr ⟨c, by simp, huid, hobserved, hmoves, hnext⟩

/-! ## Fences only rise -/

theorem lookup_carriedFences (uid : GoString) :
    (carriedFences input).lookup uid = ((previousFences input).lookup uid).map fun f =>
      if input.contributions.any (·.uid = f.uid) then f else { f with retired := true } :=
  GoMap.lookup_mapValues ..

/-- `g` is the same fence, not lower than `f` and not brought back. -/
structure ContributionFence.Below (f g : ContributionFence) : Prop where
  uid : g.uid = f.uid
  generation : f.generation ≤ g.generation
  retired : f.retired = true → g.retired = true

theorem ContributionFence.Below.refl (f : ContributionFence) : f.Below f := ⟨rfl, le_rfl, id⟩

/-- What an observed contribution says about its fence in the previous plan. -/
theorem Observed.previous (h : Observed input registered c) :
    1 ≤ c.generation ∧ ∀ f, (previousFences input).lookup c.uid = some f → f.retired = false ∧
      (f.uid ≠ [] → f.generation ≤ c.generation) := by
  obtain ⟨-, h⟩ := h
  unfold validateContribution at h
  split at h
  · exact absurd h (by decide)
  split at h
  · exact absurd h (by decide)
  rename_i hretired
  split at h
  · exact absurd h (by decide)
  rename_i hgeneration
  split at h
  · exact absurd h (by decide)
  rename_i hstale
  refine ⟨not_lt.mp hgeneration, fun f hf => ?_⟩
  rw [hf] at hretired hstale
  simpa using And.intro hretired hstale

section

variable (hnodup : (input.contributions.map DNSRecordContribution.uid).Nodup)
include hnodup

section

variable (rejected : GoMap GoString GoString)

/-- **No fence of the previous plan is dropped, lowered or brought back.** -/
theorem fence_dominates (registered : Registered) (huid : uid ≠ [])
    (hf : (previousFences input).lookup uid = some f) :
    ∃ g, (contributeAll E input rejected registered).fences.lookup uid = some g ∧ f.Below g := by
  have hfuid := (lookup_previousFences hf).2
  rcases lookup_fences (E := E) hnodup rejected registered uid with ⟨hcarried, -⟩ | hmoved
  · rw [hcarried, lookup_carriedFences, hf]
    refine ⟨_, rfl, ?_⟩
    dsimp only
    split_ifs
    · exact .refl f
    · exact ⟨rfl, le_rfl, fun _ => rfl⟩
  · obtain ⟨c, -, rfl, hobserved, -, hnext⟩ := hmoved
    obtain ⟨-, hprevious⟩ := hobserved.previous
    obtain ⟨hretired, hgeneration⟩ := hprevious f hf
    exact ⟨_, hnext, hfuid.symm, hgeneration (hfuid ▸ huid), by simp [hretired]⟩

/-- The fence of an accepted contribution is live. -/
theorem accepted_fence {reg : DNSRegistration} (h : ContributionAccepted E input registered c reg) :
    ∃ g, (contributeAll E input rejected registered).fences.lookup c.uid = some g ∧
      g.retired = false := by
  have hobserved : Observed input registered c :=
    ⟨by simp [h.registration], by rw [h.registration]; exact h.current⟩
  rcases lookup_fences (E := E) hnodup rejected registered c.uid with ⟨hcarried, hstay⟩ | hmoved
  · -- the fence stays because the previous plan has the generation already
    have hseen := hstay c h.mem rfl hobserved
    simp only [Moves, not_not, Option.any_eq_true] at hseen
    obtain ⟨⟨f, hf, -⟩, -⟩ := hseen
    have hpresent : input.contributions.any (·.uid = f.uid) = true :=
      any_eq_true.mpr ⟨c, h.mem, decide_eq_true (lookup_previousFences hf).2.symm⟩
    rw [hcarried, lookup_carriedFences, hf]
    exact ⟨f, by simp only [Option.map_some, hpresent, if_true], (hobserved.previous.2 f hf).1⟩
  · obtain ⟨d, hd, huid, -, -, hnext⟩ := hmoved
    obtain rfl := inj_on_of_nodup_map hnodup hd h.mem huid
    exact ⟨_, hnext, h.live⟩

/-- Where the fences of a plan come from. -/
theorem fence_origin (registered : Registered) {g : ContributionFence}
    (hg : (contributeAll E input rejected registered).fences.lookup uid = some g) :
    g.uid = uid ∧ ((∃ f ∈ input.previousContributions, f.uid = uid ∧ g.generation = f.generation ∧
        g.sequence = f.sequence) ∨
      ∃ c ∈ input.contributions, c.uid = uid ∧ 1 ≤ c.generation ∧ g.generation = c.generation ∧
        g.sequence = c.generation) := by
  rcases lookup_fences (E := E) hnodup rejected registered uid with ⟨hcarried, -⟩ | hmoved
  · rw [hcarried, lookup_carriedFences, Option.map_eq_some_iff] at hg
    obtain ⟨f, hf, rfl⟩ := hg
    obtain ⟨hmem, huid⟩ := lookup_previousFences hf
    split_ifs
    · exact ⟨huid, .inl ⟨f, hmem, huid, rfl, rfl⟩⟩
    · exact ⟨huid, .inl ⟨f, hmem, huid, rfl, rfl⟩⟩
  · obtain ⟨c, hc, huid, hobserved, -, hnext⟩ := hmoved
    obtain rfl := Option.mem_unique hnext hg
    exact ⟨huid, .inr ⟨c, hc, huid, hobserved.previous.1, rfl, rfl⟩⟩

end

end

/-! ## The fences of the plan -/

section Plan

variable {rejected : GoMap GoString GoString}

/-- The fences that one round collects. -/
def roundFences (E : Externals) (input : CompileInput) (rejected : GoMap GoString GoString) :
    GoMap GoString ContributionFence :=
  (contributeAll E input rejected (registerAll E input (collectStaticClaims E input rejected))).fences

section

variable (hnodup : (input.contributions.map DNSRecordContribution.uid).Nodup)
include hnodup

theorem mem_plan_contributions
    {f : ContributionFence} : f ∈ (compilePlan E input rejected).plan.contributions ↔
      (roundFences E input rejected).lookup f.uid = some f := by
  simp only [compilePlan, mem_insertionSort]
  exact GoMap.mem_values fun _ _ h => (fence_origin hnodup rejected _ h).1

/-- The plan has one fence for each contribution. -/
theorem plan_contributions_sorted
 (rejected : GoMap GoString GoString) :
    ((compilePlan E input rejected).plan.contributions.map ContributionFence.uid).Pairwise (· < ·) := by
  refine sorted_by_key uid ?_
  exact GoMap.nodup_map_values fun _ _ h => (fence_origin hnodup rejected _ h).1

end

end Plan

end InternalDNS.Controlplane
