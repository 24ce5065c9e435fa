import InternalDNS.FenceOrder

/-! # The desired state

Reconciling, verifying, approving and gating change what an agent runs and what it knows about it.  The
state that it was told to reach — the serving snapshot, the publications, and the fences of both — they
leave as it is, in memory, and on disk they put nothing else.  This is said once, as the relation
`Unmoved`.
-/
namespace InternalDNS

open Go

/-- The part of a checkpoint that only events change. -/
structure Desired where
  formatVersion : Nat
  servingFence : Fence
  snapshot : Option ServingSnapshot
  publications : GoMap GoString PublicationState
  bindingFences : BindingFences
  contributionFences : GoMap GoString ContributionFence

def Checkpoint.desired (c : Checkpoint) : Desired :=
  ⟨c.formatVersion, c.servingFence, c.snapshot, c.publications, c.bindingFences, c.contributionFences⟩

/-- The desired state is the same, and if something was written, it was the desired state. -/
structure Unmoved (s t : Sys) : Prop where
  desired : t.agent.state.desired = s.agent.state.desired
  disk : t.disk = s.disk ∨ ∃ d, t.disk = some d ∧ d.desired = s.agent.state.desired

theorem unmoved_refl (s : Sys) : Unmoved s s := ⟨rfl, .inl rfl⟩

theorem unmoved_trans (s t u : Sys) (hst : Unmoved s t) (htu : Unmoved t u) : Unmoved s u := by
  refine ⟨htu.desired.trans hst.desired, ?_⟩
  rcases htu.disk with hsame | ⟨d, hd, hdesired⟩
  · rw [hsame]
    exact hst.disk
  · exact .inr ⟨d, hd, hdesired.trans hst.desired⟩

end InternalDNS
