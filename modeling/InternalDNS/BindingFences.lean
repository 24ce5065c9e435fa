import InternalDNS.Wire
import InternalDNS.GoJSON

/-! # Binding fences

An agent remembers, for every access binding it has ever been sent, the identity of the
binding and the newest configuration and access version it has accepted for it.  A
snapshot is complete for its shard, so a binding that an accepted snapshot omits is
withdrawn.  `advanceBindingFences` decides whether a snapshot may be accepted.

The history of one binding is a path in a preorder, `BindingFence.Advances`: identity is
constant, the counters only grow, and the way back from withdrawn to live goes strictly
up in both the access version and the configuration revision.  One accepted snapshot moves
every fence along that preorder, and so does any sequence of offered snapshots.
-/
namespace InternalDNS

open Go List Option

/-- `serving.bindingFence`. -/
structure BindingFence where
  identity : GoString
  configurationGeneration : Nat
  configurationRevision : Nat
  version : AccessVersion
  tombstone : Bool
  deriving DecidableEq

/-- The fences of an agent by binding UID. -/
abbrev BindingFences := GoMap GoString BindingFence

section Fence

variable (hash : GoString → GoString)

section

variable (b : Binding) (prior : BindingFences)

/-- The text that `bindingIdentity` hashes. -/
def identityText : GoString :=
  lit "\x7b\"Project\":" ++ jsonString b.projectUID ++ lit ",\"Context\":" ++
    jsonString b.contextUID ++ lit ",\"Node\":" ++ jsonString b.consumerAddress ++
    lit ",\"Regional\":" ++ jsonString b.clusterAddress ++ lit ",\"Port\":" ++
    itoa b.port.toNat ++ lit ",\"Transports\":" ++
    jsonStrings (b.transports.insertionSort (· ≤ ·)) ++ lit "\x7d"

/-- The identity text tells apart everything it is made of; transports count without their
order. -/
theorem identityText_inj {a b : Binding} (h : identityText a = identityText b) :
    a.projectUID = b.projectUID ∧ a.contextUID = b.contextUID ∧
      a.consumerAddress = b.consumerAddress ∧ a.clusterAddress = b.clusterAddress ∧
      a.port = b.port ∧ a.transports.Perm b.transports := by
  -- the port is followed by a comma, which no number contains
  have hlit : lit ",\"Transports\":" = ',' :: lit "\"Transports\":" := by decide
  have hcomma : ∀ n, ',' ∉ itoa n := fun n hn => absurd (isDigit_of_mem_itoa hn) (by decide)
  unfold identityText at h
  simp only [append_assoc, hlit, cons_append] at h
  obtain ⟨hproject, h⟩ := jsonString_selfDelimiting (append_cancel_left h)
  obtain ⟨hcontext, h⟩ := jsonString_selfDelimiting (append_cancel_left h)
  obtain ⟨hconsumer, h⟩ := jsonString_selfDelimiting (append_cancel_left h)
  obtain ⟨hcluster, h⟩ := jsonString_selfDelimiting (append_cancel_left h)
  obtain ⟨hport, h⟩ := append_separator_inj (hcomma _) (hcomma _) (append_cancel_left h)
  obtain ⟨htransports, -⟩ := jsonStrings_selfDelimiting (append_cancel_left h)
  have hsorted : ∀ ts : List GoString, (ts.insertionSort (· ≤ ·)).Perm ts :=
    perm_insertionSort _
  exact ⟨hproject, hcontext, hconsumer, hcluster, UInt16.toNat.inj (itoa_injective hport),
    (hsorted _).symm.trans (htransports ▸ hsorted _)⟩

/-- `serving.bindingIdentity`: the source and listeners a binding UID stands for. -/
def bindingIdentity : GoString := hash (identityText b)

theorem bindingIdentity_congr {a b : Binding} (hproject : a.projectUID = b.projectUID)
    (hcontext : a.contextUID = b.contextUID) (hnode : a.consumerAddress = b.consumerAddress)
    (hregional : a.clusterAddress = b.clusterAddress) (hport : a.port = b.port)
    (htransports : a.transports = b.transports) : bindingIdentity hash a = bindingIdentity hash b := by
  cases a
  cases b
  subst hproject hcontext hnode hregional hport htransports
  rfl

/-- `serving.bindingFenceFor`. -/
def bindingFenceFor : BindingFence where
  identity := bindingIdentity hash b
  configurationGeneration := b.bindingGeneration
  configurationRevision := b.configurationRevision
  version := b.version
  tombstone := b.tombstone

/-- The checks of a candidate against the fence already held for its UID. -/
def checkCandidate (uid : GoString) (old candidate : BindingFence) : Except GoString Unit := do
  failIf (candidate.identity ≠ old.identity)
    (lit "binding " ++ uid ++ lit " changed its UID-pinned source or listeners")
  failIf (candidate.configurationGeneration < old.configurationGeneration ∨
      candidate.configurationRevision < old.configurationRevision)
    (lit "binding " ++ uid ++ lit " configuration regressed")
  let cmp := compare candidate.version.epoch candidate.version.sequence
    old.version.epoch old.version.sequence
  failIf (cmp < 0) (lit "binding " ++ uid ++ lit " access version regressed")
  failIf (old.tombstone ∧ ¬ candidate.tombstone ∧ cmp ≤ 0)
    (lit "binding " ++ uid ++ lit " reactivation requires a newer access version")
  failIf (old.tombstone ≠ candidate.tombstone ∧
      candidate.configurationRevision ≤ old.configurationRevision)
    (lit "binding " ++ uid ++
      lit " withdrawal or reactivation requires a newer configuration revision")

/-- One iteration of the loop over the snapshot's bindings. -/
def advanceBinding (next : BindingFences) (b : Binding) : Except GoString BindingFences := do
  let candidate := bindingFenceFor hash b
  match prior.lookup b.bindingUID with
  | some old => checkCandidate b.bindingUID old candidate
  | none => .ok ()
  .ok (next.insert b.bindingUID candidate)

/-- Every fence withdrawn: where the loop over a snapshot starts. -/
def withdrawAll : BindingFences :=
  prior.mapValues fun old => { old with tombstone := true }

/-- `serving.advanceBindingFences`. -/
def advanceBindingFences (snapshot : ServingSnapshot) :
    Except GoString BindingFences :=
  loop (advanceBinding hash prior) (withdrawAll prior) snapshot.bindings

/-- The fences after a snapshot is offered: `applyServingSnapshot` returns the error of a
rejected snapshot before it assigns the fences. -/
def offerSnapshot (snapshot : ServingSnapshot) : BindingFences :=
  match advanceBindingFences hash prior snapshot with
  | .ok next => next
  | .error _ => prior

/-- The fences after a sequence of snapshots is offered. -/
def offerSnapshots (snapshots : List ServingSnapshot) : BindingFences :=
  snapshots.foldl (offerSnapshot hash) prior

end

end Fence

/-! ## The preorder of one binding's history -/

/-- A fence `g` may follow `f` in the history of one binding. -/
structure BindingFence.Advances (f g : BindingFence) : Prop where
  identity : g.identity = f.identity
  generation : f.configurationGeneration ≤ g.configurationGeneration
  revision : f.configurationRevision ≤ g.configurationRevision
  version : f.version.key ≤ g.version.key
  reactivation : f.tombstone = true → g.tombstone = false →
    f.version.key < g.version.key ∧ f.configurationRevision < g.configurationRevision

namespace BindingFence.Advances

theorem refl (f : BindingFence) : f.Advances f where
  identity := rfl
  generation := le_refl _
  revision := le_refl _
  version := le_refl _
  reactivation ht hl := by rw [ht] at hl; cases hl

/-- A fence reactivated somewhere along the way was strictly raised there, and the rest of
the way does not lose the difference. -/
theorem trans {f g h : BindingFence} (hfg : f.Advances g) (hgh : g.Advances h) : f.Advances h where
  identity := hgh.identity.trans hfg.identity
  generation := hfg.generation.trans hgh.generation
  revision := hfg.revision.trans hgh.revision
  version := hfg.version.trans hgh.version
  reactivation ht hl := by
    cases hg : g.tombstone with
    | true =>
      obtain ⟨hv, hr⟩ := hgh.reactivation hg hl
      exact ⟨lt_of_le_of_lt hfg.version hv, lt_of_le_of_lt hfg.revision hr⟩
    | false =>
      obtain ⟨hv, hr⟩ := hfg.reactivation ht hg
      exact ⟨lt_of_lt_of_le hv hgh.version, lt_of_lt_of_le hr hgh.revision⟩

end BindingFence.Advances

/-! ## One snapshot -/

section Step

variable {hash : GoString → GoString} {uid : GoString} {prior next : BindingFences}
  {snapshot : ServingSnapshot} {f : BindingFence}

/-- **Which candidates pass the checks**: those that may follow the fence, and that have a new
revision if they withdraw the binding or bring it back. -/
theorem checkCandidate_eq_ok {old candidate : BindingFence} :
    checkCandidate uid old candidate = .ok () ↔ old.Advances candidate ∧
      (old.tombstone ≠ candidate.tombstone →
        old.configurationRevision < candidate.configurationRevision) := by
  have hcmp : compare candidate.version.epoch candidate.version.sequence old.version.epoch
      old.version.sequence ≤ 0 ↔ candidate.version.key ≤ old.version.key := by
    rw [← not_lt, compare_pos_iff, not_lt]
    rfl
  simp only [checkCandidate, Except.bind_eq_ok, failIf_eq_ok, exists_const, compare_neg_iff, hcmp]
  constructor
  · rintro ⟨hid, hconf, hver, hreact, hflip⟩
    have hrev : old.tombstone ≠ candidate.tombstone →
        old.configurationRevision < candidate.configurationRevision := fun hne => by
      by_contra hle
      exact hflip ⟨hne, by omega⟩
    refine ⟨⟨not_not.mp hid, by omega, by omega, not_lt.mp hver, fun hdead hlive => ⟨?_, ?_⟩⟩, hrev⟩
    · by_contra hle
      exact hreact ⟨hdead, by simp [hlive], not_lt.mp hle⟩
    · exact hrev (by simp [hdead, hlive])
  · rintro ⟨hadv, hrev⟩
    refine ⟨not_not.mpr hadv.identity, ?_, not_lt.mpr hadv.version, ?_, ?_⟩
    · have hgeneration := hadv.generation
      have hrevision := hadv.revision
      omega
    · rintro ⟨hdead, hlive, hle⟩
      exact absurd (hadv.reactivation hdead (by simpa using hlive)).1 (not_lt.mpr hle)
    · rintro ⟨hne, hle⟩
      exact absurd (hrev hne) (by omega)

/-- A candidate that passes the checks may follow the fence it was checked against. -/
theorem checkCandidate_advances {old candidate : BindingFence}
    (h : checkCandidate uid old candidate = .ok ()) : old.Advances candidate :=
  (checkCandidate_eq_ok.mp h).1

/-- What an accepted iteration adds to the fences built so far. -/
theorem advanceBinding_ok {prior next next' : BindingFences} {b : Binding}
    (h : advanceBinding hash prior next b = .ok next') :
    next' = next.insert b.bindingUID (bindingFenceFor hash b) ∧
      ∀ old, prior.lookup b.bindingUID = some old → old.Advances (bindingFenceFor hash b) := by
  unfold advanceBinding at h
  cases hp : prior.lookup b.bindingUID with
  | none =>
    rw [hp] at h
    simp at h
    exact ⟨h.symm, fun old hold => by cases hold⟩
  | some old =>
    simp only [hp, Except.bind_eq_ok] at h
    obtain ⟨_, hcheck, hnext⟩ := h
    refine ⟨(Except.ok.inj hnext).symm, fun old' hold => ?_⟩
    cases hold
    exact checkCandidate_advances hcheck

/-- **What an accepted snapshot does to one binding.**  Either the snapshot carries the
binding, which then may follow the fence held before, or it omits the binding and withdraws
the fence. -/
theorem advanceBindingFences_lookup (h : advanceBindingFences hash prior snapshot = .ok next)
    (uid : GoString) :
    (∃ b ∈ snapshot.bindings, b.bindingUID = uid ∧
      next.lookup uid = some (bindingFenceFor hash b) ∧
      ∀ old, prior.lookup uid = some old → old.Advances (bindingFenceFor hash b)) ∨
    ((∀ b ∈ snapshot.bindings, b.bindingUID ≠ uid) ∧
      next.lookup uid = (prior.lookup uid).map fun old => { old with tombstone := true }) := by
  refine loop_invariant (P := fun done next =>
    (∃ b ∈ done, b.bindingUID = uid ∧ next.lookup uid = some (bindingFenceFor hash b) ∧
      ∀ old, prior.lookup uid = some old → old.Advances (bindingFenceFor hash b)) ∨
    ((∀ b ∈ done, b.bindingUID ≠ uid) ∧
      next.lookup uid = (prior.lookup uid).map fun old => { old with tombstone := true }))
    ?init ?step h
  case init =>
    exact .inr ⟨by simp, GoMap.lookup_mapValues _ prior uid⟩
  case step =>
    intro done b _ next next' _ hP hstep
    obtain ⟨rfl, hadv⟩ := advanceBinding_ok hstep
    by_cases hb : b.bindingUID = uid
    · subst hb
      exact .inl ⟨b, by simp, rfl, AList.lookup_insert _, hadv⟩
    · have hkeep : (next.insert b.bindingUID (bindingFenceFor hash b)).lookup uid =
          next.lookup uid := AList.lookup_insert_ne (Ne.symm hb)
      rw [hkeep]
      rcases hP with ⟨c, hc, hP⟩ | ⟨hnone, hP⟩
      · exact .inl ⟨c, by simp [hc], hP⟩
      · exact .inr ⟨forall_mem_concat hnone hb, hP⟩

/-- A snapshot offered and accepted is the new state; a rejected one changes nothing. -/
theorem offerSnapshot_cases (hash : GoString → GoString) (prior : BindingFences)
    (snapshot : ServingSnapshot) :
    advanceBindingFences hash prior snapshot = .ok (offerSnapshot hash prior snapshot) ∨
      (∃ e, advanceBindingFences hash prior snapshot = .error e) ∧
        offerSnapshot hash prior snapshot = prior := by
  unfold offerSnapshot
  cases advanceBindingFences hash prior snapshot with
  | ok next => exact .inl rfl
  | error e => exact .inr ⟨⟨e, rfl⟩, rfl⟩

/-- One offered snapshot moves every fence along the preorder. -/
theorem offerSnapshot_advances (hash : GoString → GoString) (hf : prior.lookup uid = some f)
    (snapshot : ServingSnapshot) :
    ∃ g, (offerSnapshot hash prior snapshot).lookup uid = some g ∧ f.Advances g := by
  rcases offerSnapshot_cases hash prior snapshot with hok | ⟨-, hsame⟩
  · rcases advanceBindingFences_lookup hok uid with ⟨b, -, -, hlook, hadv⟩ | ⟨-, hlook⟩
    · exact ⟨_, hlook, hadv f hf⟩
    · rw [hf] at hlook
      exact ⟨_, hlook, rfl, le_refl _, le_refl _, le_refl _, fun _ h => by cases h⟩
  · exact ⟨f, by rw [hsame, hf], BindingFence.Advances.refl f⟩

/-- The snapshot that turns a withdrawn fence live is accepted and carries the binding live. -/
theorem offerSnapshot_reactivates {f g : BindingFence} (hf : prior.lookup uid = some f)
    (hdead : f.tombstone = true) (hg : (offerSnapshot hash prior snapshot).lookup uid = some g)
    (hlive : g.tombstone = false) :
    advanceBindingFences hash prior snapshot = .ok (offerSnapshot hash prior snapshot) ∧
      ∃ b ∈ snapshot.bindings, b.bindingUID = uid ∧ b.tombstone = false ∧
        f.version.key < b.version.key ∧ f.configurationRevision < b.configurationRevision := by
  rcases offerSnapshot_cases hash prior snapshot with hok | ⟨-, hsame⟩
  · refine ⟨hok, ?_⟩
    rcases advanceBindingFences_lookup hok uid with ⟨b, hb, huid, hlook, hadv⟩ | ⟨-, hlook⟩
    · obtain rfl : g = bindingFenceFor hash b := mem_unique hg hlook
      obtain ⟨hv, hr⟩ := (hadv f hf).reactivation hdead hlive
      exact ⟨b, hb, huid, hlive, hv, hr⟩
    · rw [hf] at hlook
      obtain rfl := mem_unique hg hlook
      cases hlive
  · rw [hsame, hf] at hg
    cases hg
    rw [hdead] at hlive
    cases hlive

/-- An accepted snapshot that carries a binding only as a tombstone, or not at all, leaves
its fence withdrawn. -/
theorem withdrawn_of_accepted (h : advanceBindingFences hash prior snapshot = .ok next)
    (hout : ∀ b ∈ snapshot.bindings, b.bindingUID = uid → b.tombstone = true)
    (hf : next.lookup uid = some f) : f.tombstone = true := by
  rcases advanceBindingFences_lookup h uid with ⟨b, hb, huid, hlook, -⟩ | ⟨-, hlook⟩
  · obtain rfl := mem_unique hf hlook
    exact hout b hb huid
  · rw [hf] at hlook
    obtain ⟨old, -, rfl⟩ := map_eq_some_iff.mp hlook.symm
    rfl

end Step

/-! ## Any sequence of snapshots -/

section Run

variable (hash : GoString → GoString)

@[simp] theorem offerSnapshots_append (prior : BindingFences) (xs ys : List ServingSnapshot) :
    offerSnapshots hash prior (xs ++ ys) = offerSnapshots hash (offerSnapshots hash prior xs) ys :=
  List.foldl_append ..

theorem offerSnapshots_singleton (prior : BindingFences) (snapshot : ServingSnapshot) :
    offerSnapshots hash prior [snapshot] = offerSnapshot hash prior snapshot := rfl

/-- A snapshot of the sequence, accepted in its turn, carries the binding live and newer than
the fence `f` in both orders. -/
def ReactivatedIn (prior : BindingFences) (uid : GoString) (f : BindingFence)
    (snapshots : List ServingSnapshot) : Prop :=
  ∃ earlier snapshot later, snapshots = earlier ++ snapshot :: later ∧
    (∃ next, advanceBindingFences hash (offerSnapshots hash prior earlier) snapshot = .ok next) ∧
    ∃ b ∈ snapshot.bindings, b.bindingUID = uid ∧ b.tombstone = false ∧
      f.version.key < b.version.key ∧ f.configurationRevision < b.configurationRevision

variable {hash}

/-- A whole sequence moves every fence along the preorder. -/
theorem offerSnapshots_advances (hash : GoString → GoString) {prior : BindingFences}
    {uid : GoString} {f : BindingFence} (hf : prior.lookup uid = some f) (snapshots : List ServingSnapshot) :
    ∃ g, (offerSnapshots hash prior snapshots).lookup uid = some g ∧ f.Advances g := by
  induction snapshots generalizing prior f with
  | nil => exact ⟨f, hf, BindingFence.Advances.refl f⟩
  | cons snapshot snapshots ih =>
    obtain ⟨g, hg, hfg⟩ := offerSnapshot_advances hash hf snapshot
    obtain ⟨h, hh, hgh⟩ := ih hg
    exact ⟨h, hh, hfg.trans hgh⟩

/-- Where a withdrawn fence is live at the end of a sequence, some snapshot of the sequence
reactivated it. -/
theorem offerSnapshots_reactivates {prior : BindingFences} {uid : GoString} {f g : BindingFence}
    {snapshots : List ServingSnapshot} (hf : prior.lookup uid = some f)
    (hdead : f.tombstone = true)
    (hg : (offerSnapshots hash prior snapshots).lookup uid = some g)
    (hlive : g.tombstone = false) : ReactivatedIn hash prior uid f snapshots := by
  induction snapshots generalizing prior f with
  | nil =>
    obtain rfl : f = g := mem_unique hf hg
    rw [hdead] at hlive
    cases hlive
  | cons snapshot snapshots ih =>
    obtain ⟨m, hm, hfm⟩ := offerSnapshot_advances hash hf snapshot
    cases hmt : m.tombstone with
    | false =>
      -- the first snapshot already reactivates the binding
      obtain ⟨hok, hb⟩ := offerSnapshot_reactivates hf hdead hm hmt
      exact ⟨[], snapshot, snapshots, rfl, ⟨_, hok⟩, hb⟩
    | true =>
      obtain ⟨earlier, s, later, rfl, hok, b, hb, huid, hbl, hv, hr⟩ := ih hm hmt hg
      exact ⟨snapshot :: earlier, s, later, rfl, hok, b, hb, huid, hbl,
        lt_of_le_of_lt hfm.version hv, lt_of_le_of_lt hfm.revision hr⟩

end Run

end InternalDNS
