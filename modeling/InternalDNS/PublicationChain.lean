import InternalDNS.AgentSafety
import InternalDNS.CompilerFences
import InternalDNS.NameOwnership
import InternalDNS.PublisherSafety

/-! # A chain of publications and the agents that follow it

Every publication of a zone is compiled with the plan of the active one as its previous plan, and
the agents check two things the compiler knows nothing of: that no contribution goes back behind the
fence the agent has recorded for it, and that a newer revision was not compiled from a base older
than the applied one.  An agent may have seen any of the earlier publications, in any order and with
any failures in between.

The first part shows that the fences of a chain only rise.  The second part gives the limit that an
agent stays under as long as it is only offered publications up to a given one; under that limit
both checks pass.
-/
namespace InternalDNS.Controlplane

open Go List ManifestSpec

variable {E : Externals} {zoneUID : GoString}

/-! ## Chains -/

/-- A committed publication with its wire plan; the withdrawal of a zone has none. -/
abbrev Committed := ManifestSpec (Option InternalDNS.PublicationPlan)

/-- The plan that `Reconciler.loadPrevious` makes of the active publication. -/
def previousPlan (wire : InternalDNS.PublicationPlan) : PublicationPlan where
  zoneUID := wire.zoneUID
  zoneApex := wire.apex
  contributions := wire.observationFences.map fun f =>
    ⟨f.contributionUID, f.generation, f.sequence, f.retired, f.sourceName⟩
  registrations := wire.registrations
  owners := []
  rrsets := []

/-- `Reconciler.loadPrevious`. -/
def loadPrevious (active : Option Committed) : Option PublicationPlan :=
  (active.bind ManifestSpec.rest).map previousPlan

/-- The publications of a zone in the order of their commits.  The previous revisions and numbers
are those that the writers give them; a zone that is being deleted is never published again. -/
inductive Chain (E : Externals) (zoneUID : GoString) : List Committed → Prop
  | nil : Chain E zoneUID []
  | publish {chain : List Committed} {m : Committed} (input : CompileInput)
      (wire : InternalDNS.PublicationPlan) (hchain : Chain E zoneUID chain)
      (hlive : ∀ l ∈ chain.getLast?, l.rest.isSome) (hapi : input.FromAPI)
      (hprevious : input.previous = loadPrevious chain.getLast?)
      (hwire : publishedPlan E input = some wire) (hplan : m.rest = some wire)
      (hzone : m.zoneUID = zoneUID) (hsucceeds : Succeeds chain.getLast? m) :
    Chain E zoneUID (chain ++ [m])
  | withdraw {chain : List Committed} {m : Committed} (hchain : Chain E zoneUID chain)
      (hplan : m.rest = none) (hzone : m.zoneUID = zoneUID) (hsucceeds : Succeeds chain.getLast? m) :
    Chain E zoneUID (chain ++ [m])

/-! ## Fences rise -/

/-- Every fence of `w` is in `v`, not lower and not brought back. -/
def Dominated (w v : InternalDNS.PublicationPlan) : Prop :=
  ∀ o ∈ w.observationFences, ∃ o' ∈ v.observationFences, o'.contributionUID = o.contributionUID ∧
    o.generation ≤ o'.generation ∧ o.sequence ≤ o'.sequence ∧ (o.retired = true → o'.retired = true)

theorem Dominated.trans {u v w : InternalDNS.PublicationPlan} (huv : Dominated u v)
    (hvw : Dominated v w) : Dominated u w := by
  intro o ho
  obtain ⟨o', ho', huid, hgeneration, hsequence, hretired⟩ := huv o ho
  obtain ⟨o'', ho'', huid', hgeneration', hsequence', hretired'⟩ := hvw o' ho'
  exact ⟨o'', ho'', huid'.trans huid, hgeneration.trans hgeneration', hsequence.trans hsequence',
    hretired' ∘ hretired⟩

/-- What a wire plan of a chain is like: it is valid, and its fences have one number. -/
structure Fenced (E : Externals) (w : InternalDNS.PublicationPlan) : Prop where
  valid : w.Valid E
  sequence : ∀ o ∈ w.observationFences, o.sequence = o.generation

section Publish

variable {input : CompileInput} {wire : InternalDNS.PublicationPlan}

theorem contributions_nodup (hapi : input.FromAPI) :
    (input.contributions.map DNSRecordContribution.uid).Nodup :=
  hapi.distinct.of_append_right

/-- The fences of the wire plan are those that the last round of the compiler has collected. -/
theorem mem_observationFences (hapi : input.FromAPI) (h : publishedPlan E input = some wire) :
    wire.Valid E ∧ ∃ rejected, ∀ o : ObservationFence, o ∈ wire.observationFences ↔
      (roundFences E input rejected).lookup o.contributionUID =
        some ⟨o.contributionUID, o.generation, o.sequence, o.retired, o.sourceName⟩ := by
  obtain ⟨result, hresult, hwire⟩ := publishedPlan_eq_some.mp h
  obtain ⟨-, rejected, rfl⟩ := compile_eq_ok hresult
  obtain ⟨rfl, hvalid⟩ := wirePlan_eq_ok hwire
  refine ⟨hvalid, rejected, fun o => ?_⟩
  rw [← mem_plan_contributions (contributions_nodup hapi)
    (f := ⟨o.contributionUID, o.generation, o.sequence, o.retired, o.sourceName⟩)]
  simp only [wirePlanOf, mem_insertionSort, mem_map]
  constructor
  · rintro ⟨f, hf, rfl⟩
    exact hf
  · exact fun hf => ⟨_, hf, rfl⟩

theorem previousContributions_eq {last : InternalDNS.PublicationPlan}
    (h : input.previous = some (previousPlan last)) :
    input.previousContributions = (previousPlan last).contributions := by
  rw [CompileInput.previousContributions, h, Option.elim_some]

/-- **The next publication dominates the last one.** -/
theorem dominated_publish (hapi : input.FromAPI) (hwire : publishedPlan E input = some wire)
    {last : InternalDNS.PublicationPlan} (hprevious : input.previous = some (previousPlan last))
    (hlast : Fenced E last) (hfenced : Fenced E wire) : Dominated last wire := by
  intro o ho
  obtain ⟨-, rejected, hmem⟩ := mem_observationFences hapi hwire
  have hnodup : (input.previousContributions.map ContributionFence.uid).Nodup := by
    rw [previousContributions_eq hprevious, previousPlan, map_map]
    exact hlast.valid.observationsSorted.imp ne_of_lt
  have hf := lookup_previousFences_of_mem hnodup
    (f := ⟨o.contributionUID, o.generation, o.sequence, o.retired, o.sourceName⟩) (by
      rw [previousContributions_eq hprevious]
      exact mem_map_of_mem ho)
  obtain ⟨g, hg, hbelow⟩ := fence_dominates (E := E) (contributions_nodup hapi) rejected
    (registerAll E input (collectStaticClaims E input rejected)) (hlast.valid.observations o ho).1 hf
  have hg' : (roundFences E input rejected).lookup g.uid = some g := by
    rw [hbelow.uid]
    exact hg
  have hmem' := (hmem ⟨g.uid, g.generation, g.sequence, g.retired, g.sourceName⟩).mpr hg'
  refine ⟨_, hmem', hbelow.uid, hbelow.generation, ?_, hbelow.retired⟩
  rw [hlast.sequence o ho, hfenced.sequence _ hmem']
  exact hbelow.generation

/-- A published plan has fences with one number, if the one before it has. -/
theorem fenced_publish (hapi : input.FromAPI) (hwire : publishedPlan E input = some wire)
    {last : Option InternalDNS.PublicationPlan} (hprevious : input.previous = last.map previousPlan)
    (hlast : ∀ w ∈ last, Fenced E w) : Fenced E wire := by
  obtain ⟨hvalid, rejected, hmem⟩ := mem_observationFences hapi hwire
  refine ⟨hvalid, fun o ho => ?_⟩
  obtain ⟨-, hold | ⟨c, -, -, -, hgeneration, hsequence⟩⟩ :=
    fence_origin (contributions_nodup hapi) rejected _ ((hmem o).mp ho)
  · obtain ⟨f, hf, -, hgeneration, hsequence⟩ := hold
    cases last with
    | none => simp [CompileInput.previousContributions, hprevious] at hf
    | some w =>
      rw [previousContributions_eq hprevious, previousPlan] at hf
      obtain ⟨o', ho', rfl⟩ := mem_map.mp hf
      exact hsequence.trans (((hlast w rfl).sequence o' ho').trans hgeneration.symm)
  · exact hsequence.trans hgeneration.symm

end Publish

/-- What holds of every chain. -/
structure ChainInv (E : Externals) (chain : List Committed) : Prop where
  fenced : ∀ m ∈ chain, ∀ w ∈ m.rest, Fenced E w
  dominated : chain.Pairwise fun p q => ∀ w ∈ p.rest, ∀ v ∈ q.rest, Dominated w v
  numbered : IsChain chain

theorem ChainInv.concat {chain : List Committed} {m : Committed} (h : ChainInv E chain)
    (hfenced : ∀ w ∈ m.rest, Fenced E w)
    (hdominated : ∀ l ∈ chain.getLast?, ∀ v ∈ m.rest, ∃ w ∈ l.rest, Dominated w v)
    (hsucceeds : Succeeds chain.getLast? m) : ChainInv E (chain ++ [m]) := by
  refine ⟨forall_mem_concat h.fenced hfenced, pairwise_append.mpr ⟨h.dominated,
    pairwise_singleton _ _, fun p hp q hq => ?_⟩, h.numbered.concat hsucceeds⟩
  · obtain rfl := mem_singleton.mp hq
    intro w hw v hv
    -- the last publication lies between `p` and the new one
    obtain ⟨init, l, rfl⟩ := (eq_nil_or_concat' chain).resolve_left (ne_nil_of_mem hp)
    obtain ⟨u, hu, huv⟩ := hdominated l (by simp) v hv
    rcases mem_append.mp hp with hp | hp
    · have hpl := (pairwise_append.mp h.dominated).2.2 p hp l (mem_singleton_self l)
      exact (hpl w hw u hu).trans huv
    · obtain rfl := mem_singleton.mp hp
      obtain rfl := Option.mem_unique hw hu
      exact huv

theorem Chain.inv {chain : List Committed} (h : Chain E zoneUID chain) : ChainInv E chain := by
  induction h with
  | nil => exact ⟨nofun, List.Pairwise.nil, fun before m after hsplit => absurd hsplit (by simp)⟩
  | @publish chain m input wire hchain hlive hapi hprevious hwire hplan hzone hsucceeds ih =>
    have hlast : ∀ w ∈ chain.getLast?.bind rest, Fenced E w := by
      intro w hw
      obtain ⟨l, hl, hlw⟩ := Option.bind_eq_some_iff.mp hw
      exact ih.fenced l (mem_of_getLast? hl) w hlw
    have hfenced := fenced_publish hapi hwire hprevious hlast
    refine ih.concat (fun w hw => ?_) (fun l hl v hv => ?_) hsucceeds
    · obtain rfl := Option.mem_unique hplan hw
      exact hfenced
    · obtain rfl := Option.mem_unique hplan hv
      obtain ⟨w, hw⟩ := Option.isSome_iff_exists.mp (hlive l hl)
      have hbind : chain.getLast?.bind rest = some w := Option.bind_eq_some_iff.mpr ⟨l, hl, hw⟩
      rw [loadPrevious, hbind, Option.map_some] at hprevious
      exact ⟨w, hw, dominated_publish hapi hwire hprevious (hlast w hbind) hfenced⟩
  | withdraw hchain hplan hzone hsucceeds ih =>
    exact ih.concat (fun w hw => absurd (hplan.symm.trans hw) (by simp))
      (fun l hl v hv => absurd (hplan.symm.trans hv) (by simp)) hsucceeds

/-- **The base of a publication is not older than any publication before it.** -/
theorem IsChain.number_le {D : Type} {before after : List (ManifestSpec D)} {q : ManifestSpec D}
    (h : IsChain (before ++ q :: after)) {p : ManifestSpec D} (hp : p ∈ before) :
    p.number ≤ toLex (q.writerEpoch, q.previousRevision) := by
  obtain ⟨init, l, rfl⟩ := (eq_nil_or_concat' before).resolve_left (ne_nil_of_mem hp)
  obtain ⟨hnumber, hprevious⟩ := h _ q after rfl
  rw [List.getLast?_concat] at hnumber hprevious
  have hlq := Prod.Lex.toLex_lt_toLex.mp (hnumber l rfl)
  have hl : l.number ≤ toLex (q.writerEpoch, q.previousRevision) := by
    rw [number, Prod.Lex.toLex_le_toLex, hprevious, previousFor, Option.filter_some]
    rcases hlq with hlt | ⟨heq, -⟩
    · exact .inl hlt
    · have heq : l.writerEpoch = q.writerEpoch := heq
      simp [heq]
  have hpairs := h.pairwise
  rw [append_assoc, map_append, map_append, pairwise_append] at hpairs
  rcases mem_append.mp hp with hp | hp
  · have hpl := hpairs.2.2 p.number (mem_map_of_mem hp) l.number (by simp)
    exact hpl.le.trans hl
  · exact mem_singleton.mp hp ▸ hl

/-! ## Agents -/

section Agents

variable {before : List Committed} {q : Committed}

/-- How far an agent gets that is offered nothing newer than `q`: the fence of the zone is that of
one of these publications, and no fence of a contribution is ahead of `q`. -/
def upTo (zoneUID : GoString) (before : List Committed) (q : Committed) : Limit where
  holds c := (c.fenceOf zoneUID = ⟨0, 0⟩ ∨
      ∃ p ∈ before ++ [q], c.fenceOf zoneUID = ⟨p.writerEpoch, p.revision⟩) ∧
    ∀ w ∈ q.rest, c.validateContributionFences w = .ok ()
  alike := by
    intro c d hd hsame hcontributions
    have hfence : c.fenceOf zoneUID = d.fenceOf zoneUID := congrArg (Option.getD · _) (hsame zoneUID)
    simp only [Checkpoint.validateContributionFences, hfence, hcontributions] at hd ⊢
    exact hd

/-- What an agent may be offered before `q`, and `q` itself.  The manifests of the zone are those of
the chain, as publications or as withdrawals, with their contents; manifests of other zones know
nothing of the contributions of this one. -/
structure Offered (E : Externals) (zoneUID : GoString) (before : List Committed) (q : Committed)
    (m : PublicationManifest) : Prop where
  own : m.zoneUID = zoneUID → ∃ p ∈ before ++ [q], m.writerEpoch = p.writerEpoch ∧
    m.revision = p.revision ∧ (¬ m.tombstone → ∀ plan, DecodesTo E m plan → p.rest = some plan)
  other : m.zoneUID ≠ zoneUID → ¬ m.tombstone → ∀ plan, DecodesTo E m plan → ∀ w ∈ q.rest,
    ∀ o ∈ plan.observationFences, ∀ o' ∈ w.observationFences, o.contributionUID ≠ o'.contributionUID

/-- What a dominated plan observes may be followed. -/
theorem Dominated.below {w v : InternalDNS.PublicationPlan} (h : Dominated w v) (hv : v.Valid E)
    {o o' : ObservationFence} (ho : o ∈ w.observationFences) (ho' : o' ∈ v.observationFences)
    (huid : o.contributionUID = o'.contributionUID) : o.fence.Below o'.fence := by
  obtain ⟨x, hx, hxuid, hgeneration, hsequence, hretired⟩ := h o ho
  obtain rfl := inj_on_of_nodup_map (hv.observationsSorted.imp ne_of_lt) hx ho' (hxuid.trans huid)
  refine ⟨Prod.Lex.toLex_le_toLex.mpr ?_, hretired⟩
  exact (lt_or_eq_of_le hgeneration).imp_right fun heq => ⟨heq, hsequence⟩

theorem Dominated.refl (w : InternalDNS.PublicationPlan) : Dominated w w :=
  fun o ho => ⟨o, ho, rfl, le_rfl, le_rfl, id⟩

/-- **Accepting an offer does not take an agent past `q`.** -/
theorem Offered.within (hfenced : ∀ w ∈ q.rest, Fenced E w)
    (hdominated : ∀ p ∈ before, ∀ w ∈ p.rest, ∀ v ∈ q.rest, Dominated w v) {m : PublicationManifest}
    (h : Offered E zoneUID before q m) : m.Within E (upTo zoneUID before q) := by
  refine ⟨fun c p hc hp => ⟨?_, hc.2⟩, fun hlive c plan hc hdecode => ⟨hc.1, fun w hw => ?_⟩⟩
  · by_cases hzone : m.zoneUID = zoneUID
    · obtain ⟨x, hx, hepoch, hrevision, -⟩ := h.own hzone
      refine .inr ⟨x, hx, ?_⟩
      simp only [Checkpoint.fenceOf, Checkpoint.setPublication, hzone, AList.lookup_insert,
        Option.map_some, Option.getD_some, hp, hepoch, hrevision]
    · have hsame : (c.setPublication m.zoneUID p).fenceOf zoneUID = c.fenceOf zoneUID := by
        simp only [Checkpoint.fenceOf, Checkpoint.setPublication,
          AList.lookup_insert_ne (Ne.symm hzone)]
      rw [hsame]
      exact hc.1
  · refine validateContributionFences_eq_ok.mpr fun o' ho' f hf => ?_
    rcases lookup_commitContributionFences hf with hold | ⟨o, ho, huid, rfl⟩
    · exact validateContributionFences_eq_ok.mp (hc.2 w hw) o' ho' f hold
    · by_cases hzone : m.zoneUID = zoneUID
      · obtain ⟨p, hp, -, -, hplan⟩ := h.own hzone
        have hplan := hplan hlive plan hdecode
        have hdom : Dominated plan w := by
          rcases mem_append.mp hp with hp | hp
          · exact hdominated p hp plan hplan w hw
          · rw [mem_singleton.mp hp] at hplan
            obtain rfl := Option.mem_unique hplan hw
            exact .refl _
        exact hdom.below (hfenced w hw).valid ho ho' huid
      · exact absurd huid (h.other hzone hlive plan hdecode w hw o ho o' ho')

theorem upTo_newCheckpoint : (upTo zoneUID before q).holds newCheckpoint := by
  refine ⟨.inl rfl, fun w _ => validateContributionFences_eq_ok.mpr fun o _ f hf => ?_⟩
  exact absurd hf (by simp [newCheckpoint])

/-- The check of `handleManifest` that rejects a publication for its base. -/
def RejectsBase (fence : Fence) (q : Committed) : Prop :=
  compare q.writerEpoch q.revision fence.epoch fence.revision > 0 ∧ fence.epoch = q.writerEpoch ∧
    fence.revision > 0 ∧ q.previousRevision < fence.revision

/-- A publication of the chain that comes before is no reason to reject the base. -/
theorem not_rejectsBase {after : List Committed} (h : IsChain (before ++ q :: after)) {fence : Fence}
    (hfence : fence = ⟨0, 0⟩ ∨ ∃ p ∈ before ++ [q], fence = ⟨p.writerEpoch, p.revision⟩) :
    ¬ RejectsBase fence q := by
  rintro ⟨hnewer, hepoch, hpos, hbase⟩
  rcases hfence with rfl | ⟨p, hp, rfl⟩
  · exact lt_irrefl 0 hpos
  rcases mem_append.mp hp with hp | hp
  · -- the base is at or above the applied revision
    have hle := Prod.Lex.toLex_le_toLex.mp (h.number_le hp)
    dsimp only at hle hepoch hbase
    omega
  · rw [mem_singleton.mp hp] at hnewer
    exact absurd (compare_pos_iff.mp hnewer) (lt_irrefl _)

/-- The inputs of a first publication, or of one that follows `previous`. -/
def inputAfter (previous : Option PublicationPlan) : CompileInput :=
  { managedInput [scopeContribution] [] with previous := previous }

theorem inputAfter_fromAPI (previous : Option PublicationPlan) : (inputAfter previous).FromAPI := by
  have hapi : (managedInput [scopeContribution] []).FromAPI := ⟨by decide, by decide⟩
  exact ⟨hapi.distinct, hapi.named⟩

theorem published_again : ∃ w v, publishedPlan .reference (inputAfter none) = some w ∧
    publishedPlan .reference (inputAfter (some (previousPlan w))) = some v := by
  have hsome : ((publishedPlan .reference (inputAfter none)).bind fun w =>
      publishedPlan .reference (inputAfter (some (previousPlan w)))).isSome := by
    decide +kernel
  obtain ⟨v, hv⟩ := Option.isSome_iff_exists.mp hsome
  obtain ⟨w, hw, hwv⟩ := Option.bind_eq_some_iff.mp hv
  exact ⟨w, v, hw, hwv⟩

end Agents

end InternalDNS.Controlplane
