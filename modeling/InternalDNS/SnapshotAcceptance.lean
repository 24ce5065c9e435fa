import InternalDNS.BindingFences
import InternalDNS.ContextBindings
import InternalDNS.ShardSafety

/-! # Agents accept what the planners commit

Agents are fenced: `advanceBindingFences` refuses a snapshot that changes the identity of a binding,
that falls back in its configuration or version, or that brings a withdrawn binding back under an old
version.  A snapshot also withdraws what it omits.  An agent may miss any number of snapshots, so what
it compares are any two snapshots of the shard.

`Supersedes` is what the counters of the reconciler guarantee between an earlier and a later state of
one binding.  Every write keeps it, so it holds between any two states, and with the history of the
committed snapshots it gives that the agents accept any part of that history.
-/
namespace InternalDNS.Controlplane

open Go Platform Option ServingSnapshot

variable {E : Externals}

/-! ## What the counters say -/

/-- The spec `b` may follow `a` in the history of one binding. -/
structure Supersedes (a b : ResolverBindingSpec) : Prop where
  identity : SameIdentity a b
  generation : a.generation ≤ b.generation
  revision : a.revision ≤ b.revision
  version : a.version.key ≤ b.version.key
  flips : a.tombstone ≠ b.tombstone → a.revision < b.revision
  reactivates : a.tombstone = true → b.tombstone = false → a.version.key < b.version.key

namespace Supersedes

theorem refl (a : ResolverBindingSpec) : Supersedes a a where
  identity := .refl a
  generation := le_rfl
  revision := le_rfl
  version := le_rfl
  flips h := absurd rfl h
  reactivates hdead hlive := absurd (hdead.symm.trans hlive) (by decide)

theorem trans {a b c : ResolverBindingSpec} (hab : Supersedes a b) (hbc : Supersedes b c) :
    Supersedes a c where
  identity := hab.identity.trans hbc.identity
  generation := hab.generation.trans hbc.generation
  revision := hab.revision.trans hbc.revision
  version := hab.version.trans hbc.version
  flips h := by
    -- a change from `a` to `c` is one of the two steps
    by_cases hb : a.tombstone = b.tombstone
    · exact hab.revision.trans_lt (hbc.flips (hb ▸ h))
    · exact (hab.flips hb).trans_le hbc.revision
  reactivates hdead hlive := by
    cases hb : b.tombstone with
    | true => exact hab.version.trans_lt (hbc.reactivates hb hlive)
    | false => exact (hab.reactivates hdead hb).trans_le hbc.version

end Supersedes

theorem AccessVersion.key_lt_succ (epoch sequence : Nat) :
    (⟨epoch, sequence⟩ : AccessVersion).key < (⟨epoch, sequence + 1⟩ : AccessVersion).key := by
  rw [AccessVersion.key, AccessVersion.key, Prod.Lex.toLex_lt_toLex]
  exact .inr ⟨rfl, Nat.lt_succ_self _⟩

/-- An update of a binding, be it a change of its zones or its reactivation. -/
theorem supersedes_update (x : Accepted) {old : ResolverBindingSpec}
    (h : SameIdentity old (x.spec old.regionalAddress (some old))) :
    Supersedes old (x.spec old.regionalAddress (some old)) := by
  refine ⟨h, ?_, ?_, ?_, fun hflip => ?_, fun hdead _ => ?_⟩
  · simp only [Accepted.spec, elim_some]
    split_ifs <;> omega
  · simp only [Accepted.spec, elim_some]
    split_ifs <;> omega
  · simp only [Accepted.spec, elim_some]
    split_ifs
    · exact (AccessVersion.key_lt_succ _ _).le
    · exact le_rfl
  · have hdead : old.tombstone = true := by simpa [Accepted.spec] using hflip
    simp only [Accepted.spec, elim_some, hdead, if_true, ite_self]
    omega
  · simp only [Accepted.spec, elim_some, hdead, if_true]
    exact AccessVersion.key_lt_succ _ _

theorem supersedes_withdrawn {old : ResolverBindingSpec} (hlive : old.tombstone = false) :
    Supersedes old (withdrawn old) where
  identity := ⟨rfl, rfl, rfl, rfl, rfl, rfl, rfl⟩
  generation := le_rfl
  revision := Nat.le_succ _
  version := (AccessVersion.key_lt_succ _ _).le
  flips _ := Nat.lt_succ_self _
  reactivates hdead _ := absurd (hdead.symm.trans hlive) (by decide)

/-- **Every write keeps the order of a binding's history.** -/
theorem Reconciled.supersedes {old new : ResolverBinding} (h : Reconciled E old new) :
    Supersedes old.spec new.spec := by
  cases h with
  | update x generation hname hadmitted hgeneration hnew =>
    subst hnew
    exact supersedes_update x hadmitted
  | withdraw hlive hnew =>
    subst hnew
    exact supersedes_withdrawn hlive
  | status status hnew =>
    subst hnew
    exact .refl _
  | delete hnew =>
    subst hnew
    exact .refl _

theorem supersedes_of_run {old new : ResolverBinding}
    (h : Relation.ReflTransGen (Reconciled E) old new) : Supersedes old.spec new.spec := by
  induction h with
  | refl => exact .refl _
  | tail _ hlast ih => exact ih.trans hlast.supersedes

/-! ## What an agent compares -/

/-- Views of one binding at an earlier and at a later time pass the checks of an agent. -/
theorem checkCandidate_of_run {a b : ResolverBinding} {v u : Binding} (hv : FormOf a v)
    (hu : FormOf b u) (hrun : Relation.ReflTransGen (Reconciled E) a b) :
    checkCandidate u.bindingUID (bindingFenceFor E.hash v) (bindingFenceFor E.hash u) = .ok () := by
  have h := supersedes_of_run hrun
  have hidentity : bindingIdentity E.hash u = bindingIdentity E.hash v := by
    apply bindingIdentity_congr
    · rw [hu.project, hv.project, h.identity.project]
    · rw [hu.context, hv.context, h.identity.context]
    · rw [hu.consumer, hv.consumer, h.identity.node]
    · rw [hu.cluster, hv.cluster, h.identity.regional]
    · rw [hu.port, hv.port]
    · rw [hu.transports, hv.transports]
  have hflips : v.tombstone ≠ u.tombstone → v.configurationRevision < u.configurationRevision := by
    rw [hv.tombstone, hu.tombstone, hv.revision, hu.revision]
    exact h.flips
  refine checkCandidate_eq_ok.mpr ⟨⟨hidentity, ?_, ?_, ?_, fun hdead hlive => ⟨?_, ?_⟩⟩, hflips⟩
  · simpa only [bindingFenceFor, hv.generation, hu.generation] using h.generation
  · simpa only [bindingFenceFor, hv.revision, hu.revision] using h.revision
  · simpa only [bindingFenceFor, hv.version, hu.version] using h.version
  · simp only [bindingFenceFor, hv.tombstone, hu.tombstone] at hdead hlive
    simpa only [bindingFenceFor, hv.version, hu.version] using h.reactivates hdead hlive
  · simp only [bindingFenceFor] at hdead hlive
    exact hflips (by rw [hdead, hlive]; decide)

/-- An agent accepts a snapshot if each of its bindings passes the check against its fence. -/
theorem exists_advanceBindingFences {hash : GoString → GoString} {fences : BindingFences}
    {s : ServingSnapshot} (h : ∀ b ∈ s.bindings, ∀ old, fences.lookup b.bindingUID = some old →
      checkCandidate b.bindingUID old (bindingFenceFor hash b) = .ok ()) :
    ∃ next, advanceBindingFences hash fences s = .ok next := by
  obtain ⟨next, hnext, -⟩ : ∃ next, loop (advanceBinding hash fences) (withdrawAll fences) s.bindings =
      .ok next ∧ True := by
    refine loop_succeeds (P := fun _ _ => True) trivial fun done b rest next hsplit _ => ?_
    have hb : b ∈ s.bindings := by simp [hsplit]
    refine ⟨next.insert b.bindingUID (bindingFenceFor hash b), ?_, trivial⟩
    unfold advanceBinding
    cases hold : fences.lookup b.bindingUID with
    | none => rfl
    | some old =>
      simp only [h b hb old hold]
      rfl
  exact ⟨next, hnext⟩

/-- What the fences of an agent are after some snapshots: the fence of a binding is that of the last
snapshot that had it, and if a later one had it not, the binding is gone. -/
def FencesAfter (hash : GoString → GoString) (offered : List ServingSnapshot) (fences : BindingFences) :
    Prop :=
  ∀ uid f, fences.lookup uid = some f → ∃ before s after, offered = before ++ s :: after ∧
    ∃ b ∈ s.bindings, b.bindingUID = uid ∧ (∀ t ∈ after, uid ∉ t.uids) ∧
      (after = [] → f = bindingFenceFor hash b)

theorem FencesAfter.concat {hash : GoString → GoString} {offered : List ServingSnapshot}
    {fences next : BindingFences} {s : ServingSnapshot} (h : FencesAfter hash offered fences)
    (hs : advanceBindingFences hash fences s = .ok next) : FencesAfter hash (offered ++ [s]) next := by
  intro uid f hf
  rcases advanceBindingFences_lookup hs uid with ⟨b, hb, huid, hlookup, -⟩ | ⟨homits, hlookup⟩
  · rw [hlookup, some.injEq] at hf
    exact ⟨offered, s, [], rfl, b, hb, huid, nofun, fun _ => hf.symm⟩
  · rw [hlookup] at hf
    obtain ⟨old, hold, -⟩ := map_eq_some_iff.mp hf
    obtain ⟨before, t, after, rfl, b, hb, huid, hafter, -⟩ := h uid old hold
    refine ⟨before, t, after ++ [s], by simp, b, hb, huid, fun u hu => ?_, fun hnil => by simp at hnil⟩
    rcases List.mem_append.mp hu with hu | hu
    · exact hafter u hu
    · obtain rfl := List.mem_singleton.mp hu
      rintro hmem
      obtain ⟨c, hc, hcuid⟩ := List.mem_map.mp hmem
      exact homits c hc hcuid

/-- **A history is accepted.**  Snapshots that show each binding in the order of its history, and that
never bring back what they have dropped, are accepted one after the other. -/
theorem accepted_of_history {offered : List ServingSnapshot}
    (h : History (reconciledWrites E) offered) :
    ∃ fences, loop (advanceBindingFences E.hash) ∅ offered = .ok fences ∧
      FencesAfter E.hash offered fences := by
  refine loop_succeeds (P := FencesAfter E.hash) ?_ ?_
  · intro uid f hf
    exact absurd hf (by simp)
  · intro done s rest fences hsplit hfences
    obtain ⟨next, hnext⟩ : ∃ next, advanceBindingFences E.hash fences s = .ok next := by
      refine exists_advanceBindingFences fun c hc old hold => ?_
      obtain ⟨before, t, after, rfl, b, hb, huid, hafter, hfence⟩ := hfences _ old hold
      -- if a snapshot in between had dropped the binding, it would not be here again
      cases after with
      | cons u after =>
        have hsub : [t, u, s].Sublist offered := by
          rw [hsplit]
          simp only [List.append_assoc, List.cons_append]
          refine .trans ?_ (List.sublist_append_right before _)
          refine .cons_cons t (.cons_cons u ?_)
          exact .trans (List.singleton_sublist.mpr (by simp)) (List.sublist_append_right after _)
        exact absurd (mem_uids hc)
          (h.gone t u s hsub _ (huid ▸ mem_uids hb) (hafter u (by simp)))
      | nil =>
        rw [hfence rfl]
        have hpair := h.forms
        rw [hsplit, List.pairwise_append] at hpair
        obtain ⟨o₀, o₁, h₀, h₁, hrun⟩ := hpair.2.2 t (by simp) s (by simp) b hb c hc huid
        exact checkCandidate_of_run h₀ h₁ hrun
    exact ⟨next, hnext, hfences.concat hnext⟩

/-- **Any part of what the planners of a shard commit is accepted.**  The bindings may be created,
given other zones, withdrawn and brought back at any time, and the planners may have any budgets; a
fresh agent that is offered some of the committed snapshots in their order accepts each of them. -/
theorem committed_snapshots_accepted {I : Type} [DecidableEq I] {region shard : GoString}
    {identity : I → GoString} {w : Shard I}
    (h : Reachable (Shard.Started E) (PlanStep E region shard identity (reconciledWrites E)) w)
    {offered : List ServingSnapshot} (hoffered : offered.Sublist w.commits) :
    ∃ fences, loop (advanceBindingFences E.hash) ∅ offered = .ok fences := by
  have hhistory := (Platform.inv_of_reachable reconciledWrites_lawful h).history
  obtain ⟨fences, hfences, -⟩ := accepted_of_history (hhistory.sublist hoffered)
  exact ⟨fences, hfences⟩

theorem first_snapshot_accepted : ∃ w : Shard Unit,
    w.commits.map ServingSnapshot.uids = [[lit "uid-1", lit "uid-2"]] ∧
    ∃ fences, loop (advanceBindingFences Externals.reference.hash) ∅ w.commits = .ok fences := by
  obtain ⟨w, hw, -, hcommits⟩ := reachable_first (reconciledWrites .reference)
  exact ⟨w, hcommits, committed_snapshots_accepted hw (.refl _)⟩

end InternalDNS.Controlplane
