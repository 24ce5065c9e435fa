import InternalDNS.Externals
import InternalDNS.GoJSON
import InternalDNS.Greedy

/-! # Fitting a snapshot into the budgets of its shard

A shard may hold only so many bindings, and the envelope around its snapshot only so many bytes.
`fitSnapshot` goes through the bindings of a candidate snapshot, those of the prior snapshot first,
and admits what fits.  An established binding that no longer fits may stay in its prior form, if
that is a safe thing to serve; otherwise nothing is published.

The bytes are those of the JSON text, which is written out here: the fit charges for each binding
and for each publication requirement what it adds to the text.
-/
namespace InternalDNS.Platform

open Go List Except Greedy Option

/-! ## JSON texts -/

/-- The JSON text of a `model.Backend`. -/
def backendJSON (b : Backend) : GoString := jsonObject
  [(lit "memberID", jsonString b.memberID), (lit "address", jsonString b.address),
    (lit "port", itoa b.port.toNat)]

/-- The JSON text of a `model.ZoneAttachment`. -/
def zoneJSON (z : ZoneAttachment) : GoString := jsonObject <|
  omitEmpty (!z.pending) (lit "pending") (jsonBool z.pending) ++
    [(lit "zoneUID", jsonString z.zoneUID), (lit "apex", jsonString z.apex),
      (lit "requiredPublicationEpoch", itoa z.requiredPublicationEpoch),
      (lit "requiredPublicationRevision", itoa z.requiredPublicationRevision)]

/-- The JSON text of a `model.Binding`. -/
def bindingJSON (b : Binding) : GoString := jsonObject <|
  [(lit "bindingUID", jsonString b.bindingUID), (lit "projectUID", jsonString b.projectUID),
    (lit "contextUID", jsonString b.contextUID), (lit "bindingGeneration", itoa b.bindingGeneration),
    (lit "configurationRevision", itoa b.configurationRevision),
    (lit "consumerAddress", jsonString b.consumerAddress),
    (lit "clusterAddress", jsonString b.clusterAddress), (lit "port", itoa b.port.toNat),
    (lit "transports", jsonStrings b.transports), (lit "zones", jsonSlice (b.zones.map zoneJSON)),
    (lit "nodeBackends", jsonSlice (b.nodeBackends.map backendJSON)),
    (lit "clusterBackends", jsonSlice (b.clusterBackends.map backendJSON)),
    (lit "version", jsonObject
      [(lit "epoch", itoa b.version.epoch), (lit "sequence", itoa b.version.sequence)])] ++
  omitEmpty (!b.tombstone) (lit "tombstone") (jsonBool b.tombstone) ++
  omitEmpty (!b.configurationPending) (lit "configurationPending") (jsonBool b.configurationPending)

/-- The JSON text of a `model.PublicationRequirement`. -/
def requirementJSON (r : PublicationRequirement) : GoString := jsonObject
  [(lit "zoneUID", jsonString r.zoneUID), (lit "epoch", itoa r.epoch),
    (lit "revision", itoa r.revision)]

/-- The JSON text of a `model.Member`. -/
def memberJSON (m : Member) : GoString := jsonObject <|
  [(lit "memberID", jsonString m.memberID)] ++
    omitEmpty (m.replicaID = []) (lit "replicaID") (jsonString m.replicaID) ++
    [(lit "role", jsonString m.role)]

/-- The JSON text of a `model.MemberPattern`. -/
def memberPatternJSON (p : MemberPattern) : GoString := jsonObject
  [(lit "role", jsonString p.role), (lit "idPrefix", jsonString p.idPrefix)]

variable (E : Externals)

/-- The JSON text of a `model.ServingSnapshot` with an empty, but not nil, list of bindings. -/
def emptySnapshotJSON (s : ServingSnapshot) : GoString := jsonObject <|
  [(lit "region", jsonString s.region), (lit "shard", jsonString s.shard),
    (lit "configurationEpoch", itoa s.configurationEpoch),
    (lit "configurationRevision", itoa s.configurationRevision), (lit "bindings", lit "[]"),
    (lit "members", jsonSlice (s.members.map memberJSON))] ++
  omitEmpty s.memberPatterns.isEmpty (lit "memberPatterns")
    (jsonSlice (s.memberPatterns.map memberPatternJSON)) ++
  omitEmpty s.requiredPublications.isEmpty (lit "requiredPublications")
    (jsonSlice (s.requiredPublications.map requirementJSON)) ++
  [(lit "generatedAt", E.timeJSON s.generatedAt)]

/-! ## The envelope -/

/-- `model.APIVersion`. -/
def apiVersion : GoString := lit "internal.dns.networking.miloapis.com/v1alpha6"

/-- Every run of characters outside `[a-z0-9_-]` becomes one underscore; `inRun` says whether the
character before was one of them. -/
def replaceUnsafe : (inRun : Bool) → GoString → GoString
  | _, [] => []
  | inRun, c :: cs =>
    if c.isLower || c.isDigit || c = '_' || c = '-' then c :: replaceUnsafe false cs
    else if inRun then replaceUnsafe true cs
    else '_' :: replaceUnsafe true cs

/-- `model.SafeToken`. -/
def safeToken (s : GoString) : GoString :=
  let t := ((replaceUnsafe false (toLower E.cases s)).dropWhile (· = '_')).rdropWhile (· = '_')
  if t = [] then lit "unknown" else t

/-- The header rules of `Envelope.Validate` that a serving snapshot can break. -/
def validateHeader (region shard : GoString) (epoch revision : Nat) : Except GoString Unit := do
  failIf (region = [] ∨ shard = [] ∨ epoch = 0 ∨ revision = 0)
    (lit "envelope version, kind, identity, epoch, revision, timestamp, and JSON payload are required")
  failIf (safeToken E region ≠ region ∨ safeToken E shard ≠ shard)
    (lit "region and shard must be safe lowercase identifiers")

/-- The size of the envelope around the snapshot without its bindings, with the longest name and
time it can have. -/
def sizedEnvelope (s : ServingSnapshot) : Except GoString Nat := do
  validateHeader E s.region s.shard s.configurationEpoch s.configurationRevision
  .ok <| byteLength <| jsonObject
    [(lit "apiVersion", jsonString apiVersion), (lit "kind", jsonString (lit "ServingSnapshot")),
      (lit "eventID", jsonString (lit "dns-serving-" ++ E.opaqueToken (s.region ++ '/' :: s.shard) ++
        lit "-e18446744073709551615-r18446744073709551615")),
      (lit "region", jsonString s.region), (lit "shard", jsonString s.shard),
      (lit "resourceUID", jsonString (lit "00000000-0000-0000-0000-000000000000")),
      (lit "epoch", itoa s.configurationEpoch), (lit "revision", itoa s.configurationRevision),
      (lit "publishedAt", jsonString (lit "2000-01-01T00:00:00.999999999Z")),
      (lit "payload", emptySnapshotJSON E s)]

/-! ## The fit -/

/-- The budgets of a shard. -/
structure Budgets where
  maxBindings : Nat
  maxBytes : Nat

/-- What has been admitted so far: the bindings, the bytes they take and the publication
requirements that they bring. -/
structure Fit where
  bindings : List Binding
  used : Nat
  required : GoMap GoString PublicationRequirement

/-- One zone of a binding: `size` grows by what its requirement adds to the text, given the
requirements that are there and those of the zones before it. -/
def chargeZone (required : GoMap GoString PublicationRequirement)
    (acc : Nat × GoMap GoString PublicationRequirement) (zone : ZoneAttachment) :
    Nat × GoMap GoString PublicationRequirement :=
  let (size, next) := acc
  let requirement : PublicationRequirement :=
    ⟨zone.zoneUID, zone.requiredPublicationEpoch, zone.requiredPublicationRevision⟩
  let encoded r := byteLength (requirementJSON r)
  if zone.pending then acc
  else match (next.lookup zone.zoneUID).or (required.lookup zone.zoneUID) with
    | none =>
      let separator := if required.entries = [] ∧ next.entries = []
        then (lit ",\"requiredPublications\":[]").length else 1
      (size + separator + encoded requirement, next.insert zone.zoneUID requirement)
    | some old =>
      if compare requirement.epoch requirement.revision old.epoch old.revision > 0 then
        (size + (encoded requirement - encoded old), next.insert zone.zoneUID requirement)
      else acc

/-- The binding is admitted if it fits: `fits` and the append that follows it. -/
def Fit.accept (budgets : Budgets) (fit : Fit) (binding : Binding) : Option Fit :=
  if fit.bindings.length ≥ budgets.maxBindings then none
  else
    let text := byteLength (bindingJSON binding) + if fit.bindings = [] then 0 else 1
    let (size, next) := binding.zones.foldl (chargeZone fit.required) (text, ∅)
    if fit.used + size > budgets.maxBytes then none
    else some ⟨fit.bindings ++ [binding], fit.used + size, next.insertAll fit.required⟩

/-- `platform.safeExpansion`. -/
def safeExpansion (old candidate : Binding) : Bool :=
  !(old.tombstone || candidate.tombstone || old.configurationPending ||
      candidate.configurationPending) &&
    old.version = candidate.version && old.projectUID = candidate.projectUID &&
    old.contextUID = candidate.contextUID && old.consumerAddress = candidate.consumerAddress &&
    old.clusterAddress = candidate.clusterAddress &&
    old.zones.all fun zone => candidate.zones.any fun next =>
      zone.zoneUID = next.zoneUID && zone.apex = next.apex && !next.pending

/-- The bindings of a snapshot by UID. -/
def byUID (bindings : List Binding) : GoMap GoString Binding :=
  bindings.foldl (fun m b => m.insert b.bindingUID b) ∅

/-- The bindings that were refused their candidate form. -/
abbrev Rejected := GoMap GoString Bool

/-- The snapshot, refusals and error that a failed fit returns. -/
structure FitFailure where
  snapshot : ServingSnapshot
  rejected : Rejected
  text : GoString

/-- One candidate. -/
def placeBinding (budgets : Budgets) (prior : ServingSnapshot) (candidates : List Binding)
    (acc : Fit × Rejected) (binding : Binding) : Except FitFailure (Fit × Rejected) :=
  let previous := byUID prior.bindings
  match acc.1.accept budgets binding with
  | some fit => .ok (fit, acc.2)
  | none =>
    let rejected := acc.2.insert binding.bindingUID true
    match previous.lookup binding.bindingUID with
    | none => .ok (acc.1, rejected)
    | some old =>
      match if safeExpansion old binding then acc.1.accept budgets old else none with
      | some fit => .ok (fit, rejected)
      | none => .error
        { snapshot := prior
          rejected := candidates.foldl (fun m c =>
            if (previous.lookup c.bindingUID).isNone then m.insert c.bindingUID true else m) rejected
          text := lit "capacity cannot preserve established binding " ++ binding.bindingUID }

/-- The order of the pass: established bindings first, then by UID. -/
def placedBefore (prior : ServingSnapshot) (a b : Binding) : Prop :=
  let established (x : Binding) : Bool := ((byUID prior.bindings).lookup x.bindingUID).isSome
  if established a ≠ established b then established a = true else a.bindingUID ≤ b.bindingUID

instance (prior : ServingSnapshot) : DecidableRel (placedBefore prior) := fun _ _ =>
  inferInstanceAs (Decidable (ite _ _ _))

/-- `platform.fitSnapshot`. -/
def fitSnapshot (snapshot prior : ServingSnapshot) (budgets : Budgets) :
    Except FitFailure (ServingSnapshot × Rejected) :=
  let candidates := snapshot.bindings.insertionSort (placedBefore prior)
  match sizedEnvelope E snapshot with
  | .error e => .error ⟨{ snapshot with bindings := [] }, ∅, e⟩
  | .ok used => do
    let (fit, rejected) ← loop (placeBinding budgets prior candidates) (⟨[], used, ∅⟩, ∅) candidates
    .ok ({ snapshot with
      bindings := fit.bindings.insertionSort fun a b => a.bindingUID ≤ b.bindingUID }, rejected)

/-! ## What a fit keeps

The pass over the established bindings is a greedy one in the sense of `Greedy`: a candidate that
does not fit falls back to its prior form, if it is a safe expansion of it.
-/

section Spec

variable {E} {budgets : Budgets} {snapshot prior : ServingSnapshot} {b : Binding}
  {new : List Binding}

/-- The binding is part of the prior snapshot. -/
def Established (prior : ServingSnapshot) (b : Binding) : Prop :=
  ((byUID prior.bindings).lookup b.bindingUID).isSome

instance (prior : ServingSnapshot) : DecidablePred (Established prior) := fun _ =>
  inferInstanceAs (Decidable (_ = true))

/-- The prior form of a binding, if the fit may fall back to it. -/
def priorForm (prior : ServingSnapshot) (b : Binding) : Option Binding :=
  ((byUID prior.bindings).lookup b.bindingUID).filter (safeExpansion · b)

theorem lookup_byUID {bindings : List Binding} {uid : GoString}
    (h : (byUID bindings).lookup uid = some b) : b ∈ bindings ∧ b.bindingUID = uid := by
  obtain ⟨x, hx, huid, rfl⟩ := GoMap.lookup_fill h
  exact ⟨hx, huid⟩

theorem isSome_lookup_byUID {bindings : List Binding} (hb : b ∈ bindings) :
    ((byUID bindings).lookup b.bindingUID).isSome :=
  isSome_iff_exists.mpr (GoMap.exists_lookup_fill Binding.bindingUID _ hb)

theorem Fit.bindings_of_accept {fit next : Fit} (h : fit.accept budgets b = some next) :
    next.bindings = fit.bindings ++ [b] := by
  unfold Fit.accept at h
  by_cases hfull : fit.bindings.length ≥ budgets.maxBindings
  · rw [if_pos hfull] at h
    cases h
  · simp only [if_neg hfull, ite_none_left_eq_some] at h
    exact congrArg Fit.bindings (some.inj h.2).symm

/-- An established binding is placed as in a greedy pass. -/
theorem placeBinding_established {candidates : List Binding} {acc : Fit × Rejected}
    (hb : Established prior b) {fit : Fit} :
    (∃ rejected, placeBinding budgets prior candidates acc b = .ok (fit, rejected)) ↔
      ∃ form, Greedy.place (Fit.accept budgets) (priorForm prior) acc.1 b = some (form, fit) := by
  obtain ⟨old, hold⟩ := isSome_iff_exists.mp hb
  simp only [place_eq_some, placeBinding, priorForm, hold, filter_some]
  cases haccept : acc.1.accept budgets b with
  | some fit => simp
  | none =>
    by_cases hsafe : safeExpansion old b = true
    · cases hfall : acc.1.accept budgets old <;> simp [hsafe, hfall]
    · simp [hsafe]

/-- A new binding never ends the pass; it is taken or left out. -/
theorem placeBinding_new (budgets : Budgets) (candidates : List Binding) (acc : Fit × Rejected)
    (hb : ¬ Established prior b) : ∃ next, placeBinding budgets prior candidates acc b = .ok next ∧
      (next.1 = acc.1 ∨ acc.1.accept budgets b = some next.1) := by
  have hnone : (byUID prior.bindings).lookup b.bindingUID = none := by
    rw [← not_isSome_iff_eq_none]
    exact hb
  unfold placeBinding
  dsimp only
  cases haccept : acc.1.accept budgets b with
  | some fit => exact ⟨_, rfl, .inr rfl⟩
  | none =>
    rw [hnone]
    exact ⟨_, rfl, .inl rfl⟩

/-- The established bindings of a candidate snapshot, in the order of their UIDs. -/
def established (snapshot prior : ServingSnapshot) : List Binding :=
  (snapshot.bindings.insertionSort (placedBefore prior)).filter (Established prior ·)

/-- The other bindings of a candidate snapshot. -/
def newBindings (snapshot prior : ServingSnapshot) : List Binding :=
  (snapshot.bindings.insertionSort (placedBefore prior)).filter (¬ Established prior ·)

theorem placedBefore_iff {a b : Binding} : placedBefore prior a b ↔
    (Established prior b → Established prior a) ∧
      ((Established prior a ↔ Established prior b) → a.bindingUID ≤ b.bindingUID) := by
  unfold placedBefore Established
  dsimp only
  split_ifs with h
  · rw [ne_eq, Bool.eq_iff_iff] at h
    tauto
  · rw [not_ne_iff, Bool.eq_iff_iff] at h
    exact ⟨fun hle => ⟨h.mpr, fun _ => hle⟩, fun hr => hr.2 h⟩

instance : Std.Total (placedBefore prior) where
  total a b := by
    rw [placedBefore_iff, placedBefore_iff]
    by_cases ha : Established prior a <;> by_cases hb : Established prior b <;>
      simp [ha, hb, le_total]

instance : IsTrans Binding (placedBefore prior) where
  trans a b c hab hbc := by
    rw [placedBefore_iff] at hab hbc ⊢
    refine ⟨hab.1 ∘ hbc.1, fun hac => ?_⟩
    exact (hab.2 (by tauto)).trans (hbc.2 (by tauto))

theorem established_append_newBindings (snapshot prior : ServingSnapshot) :
    established snapshot prior ++ newBindings snapshot prior =
      snapshot.bindings.insertionSort (placedBefore prior) :=
  filter_append_filter_not ((pairwise_insertionSort (placedBefore prior) _).imp fun h =>
    (placedBefore_iff.mp h).1)

/-- The pass over the new bindings takes some of them. -/
theorem loop_new (budgets : Budgets) (candidates : List Binding)
    (hnew : ∀ b ∈ new, ¬ Established prior b) (acc : Fit × Rejected) :
    ∃ r, loop (placeBinding budgets prior candidates) acc new = .ok r ∧
      ∃ added, added.Sublist new ∧ r.1.bindings = acc.1.bindings ++ added := by
  induction new generalizing acc with
  | nil => exact ⟨acc, rfl, [], .refl _, (append_nil _).symm⟩
  | cons b new ih =>
    obtain ⟨hb, hrest⟩ := forall_mem_cons.mp hnew
    obtain ⟨next, hnext, hcases⟩ := placeBinding_new budgets candidates acc hb
    obtain ⟨r, hr, added, hsub, hbindings⟩ := ih hrest next
    refine ⟨r, by rw [loop_cons, hnext]; exact hr, ?_⟩
    rcases hcases with hsame | haccept
    · exact ⟨added, hsub.cons b, by rw [hbindings, hsame]⟩
    · exact ⟨b :: added, hsub.cons_cons b, by rw [hbindings, Fit.bindings_of_accept haccept]; simp⟩

/-- **The pass succeeds exactly if the established bindings can be placed greedily.** -/
theorem loop_place_iff (candidates : List Binding) {est new : List Binding} (hest : ∀ b ∈ est, Established prior b)
    (hnew : ∀ b ∈ new, ¬ Established prior b) (acc : Fit × Rejected) :
    (∃ r, loop (placeBinding budgets prior candidates) acc (est ++ new) = .ok r) ↔
      ∃ forms fit, Greedy.Selects (Fit.accept budgets) (priorForm prior) acc.1 est forms fit := by
  induction est generalizing acc with
  | nil =>
    obtain ⟨r, hr, -⟩ := loop_new budgets candidates hnew acc
    exact ⟨fun _ => ⟨[], acc.1, .nil _⟩, fun _ => ⟨r, hr⟩⟩
  | cons b est ih =>
    obtain ⟨hb, hrest⟩ := forall_mem_cons.mp hest
    simp only [cons_append, loop_cons, bind_eq_ok]
    constructor
    · rintro ⟨r, next, hnext, hr⟩
      obtain ⟨form, hform⟩ := (placeBinding_established hb).mp ⟨next.2, hnext⟩
      obtain ⟨forms, fit, hselects⟩ := (ih hrest next).mp ⟨r, hr⟩
      exact ⟨form :: forms, fit, selects_cons.mpr ⟨next.1, hform, hselects⟩⟩
    · rintro ⟨forms, fit, hselects⟩
      cases forms with
      | nil => cases hselects
      | cons form forms =>
        obtain ⟨next, hform, hselects⟩ := selects_cons.mp hselects
        obtain ⟨rejected, hnext⟩ := (placeBinding_established hb).mpr ⟨form, hform⟩
        obtain ⟨r, hr⟩ := (ih hrest (next, rejected)).mpr ⟨forms, fit, hselects⟩
        exact ⟨r, (next, rejected), hnext, hr⟩

/-- A pass that succeeds keeps every established binding in one of its forms. -/
theorem bindings_of_loop_place {candidates est new : List Binding}
    (hest : ∀ b ∈ est, Established prior b) (hnew : ∀ b ∈ new, ¬ Established prior b)
    {acc r : Fit × Rejected}
    (h : loop (placeBinding budgets prior candidates) acc (est ++ new) = .ok r) :
    ∃ forms added, List.Forall₂ (fun b form => form = b ∨ priorForm prior b = some form) est forms ∧
      added.Sublist new ∧ r.1.bindings = acc.1.bindings ++ (forms ++ added) := by
  induction est generalizing acc with
  | nil =>
    obtain ⟨r', hr', added, hsub, hbindings⟩ := loop_new budgets candidates hnew acc
    obtain rfl := ok.inj (h.symm.trans hr')
    exact ⟨[], added, .nil, hsub, hbindings⟩
  | cons b est ih =>
    obtain ⟨hb, hrest⟩ := forall_mem_cons.mp hest
    simp only [cons_append, loop_cons, bind_eq_ok] at h
    obtain ⟨next, hnext, hr⟩ := h
    obtain ⟨form, hform⟩ := (placeBinding_established hb).mp ⟨next.2, hnext⟩
    obtain ⟨forms, added, hforms, hsub, hbindings⟩ := ih hrest hr
    refine ⟨form :: forms, added, ?_, hsub, ?_⟩
    · refine .cons ?_ hforms
      rcases place_eq_some.mp hform with ⟨rfl, -⟩ | ⟨-, hprior, -⟩
      · exact .inl rfl
      · exact .inr hprior
    · have haccept : next.1.bindings = acc.1.bindings ++ [form] := by
        rcases place_eq_some.mp hform with ⟨rfl, h⟩ | ⟨-, -, h⟩
        · exact Fit.bindings_of_accept h
        · exact Fit.bindings_of_accept h
      rw [hbindings, haccept]
      simp

theorem mem_newBindings :
    b ∈ newBindings snapshot prior ↔ b ∈ snapshot.bindings ∧ ¬ Established prior b := by
  simp [newBindings]

theorem mem_established :
    b ∈ established snapshot prior ↔ b ∈ snapshot.bindings ∧ Established prior b := by
  simp [established]

/-- **What a fit returns**: every established binding in its candidate or its prior form, some of
the new bindings, and nothing else; all other fields are those of the candidate snapshot. -/
theorem fitSnapshot_eq_ok {out : ServingSnapshot} {rejected : Rejected}
    (h : fitSnapshot E snapshot prior budgets = .ok (out, rejected)) :
    ∃ forms added, List.Forall₂ (fun b form => form = b ∨ priorForm prior b = some form)
        (established snapshot prior) forms ∧
      added.Sublist (newBindings snapshot prior) ∧ out.bindings.Perm (forms ++ added) ∧
      (out.bindings.Pairwise fun a b => a.bindingUID ≤ b.bindingUID) ∧
      out = { snapshot with bindings := out.bindings } := by
  unfold fitSnapshot at h
  cases hsize : sizedEnvelope E snapshot with
  | error e =>
    rw [hsize] at h
    cases h
  | ok used =>
    rw [hsize, ← established_append_newBindings] at h
    simp only [bind_eq_ok, Prod.exists] at h
    obtain ⟨fit, rejected', hloop, hout⟩ := h
    obtain ⟨forms, added, hforms, hsub, hbindings⟩ := bindings_of_loop_place
      (fun _ h => (mem_established.mp h).2) (fun _ h => (mem_newBindings.mp h).2) hloop
    obtain ⟨rfl, -⟩ := Prod.mk.inj (ok.inj hout)
    refine ⟨forms, added, hforms, hsub, ?_, ?_, rfl⟩
    · have hfit : fit.bindings = forms ++ added := by simpa using hbindings
      exact hfit ▸ perm_insertionSort _ _
    · have htotal : Std.Total fun a b : Binding => a.bindingUID ≤ b.bindingUID := ⟨fun a b => le_total _ _⟩
      have htrans : IsTrans Binding fun a b => a.bindingUID ≤ b.bindingUID := ⟨fun a b c => le_trans⟩
      exact pairwise_insertionSort _ _

/-- A binding is admitted by all budgets that are large enough. -/
theorem Fit.exists_accept (fit : Fit) (b : Binding) : ∃ next : Fit, ∀ budgets : Budgets,
    fit.bindings.length < budgets.maxBindings → next.used ≤ budgets.maxBytes →
      fit.accept budgets b = some next := by
  refine ⟨⟨fit.bindings ++ [b], fit.used + (b.zones.foldl (chargeZone fit.required)
    (byteLength (bindingJSON b) + if fit.bindings = [] then 0 else 1, ∅)).1,
    (b.zones.foldl (chargeZone fit.required)
      (byteLength (bindingJSON b) + if fit.bindings = [] then 0 else 1, ∅)).2.insertAll fit.required⟩,
    fun budgets hcount hbytes => ?_⟩
  unfold Fit.accept
  rw [if_neg (Nat.not_le.mpr hcount)]
  exact if_neg (Nat.not_lt.mpr hbytes)

/-- Large enough budgets take all new bindings. -/
theorem loop_new_all (candidates new : List Binding)
    (hnew : ∀ b ∈ new, ¬ Established prior b) (acc : Fit × Rejected) : ∃ size, ∀ budgets : Budgets,
      acc.1.bindings.length + new.length ≤ budgets.maxBindings → size ≤ budgets.maxBytes →
      ∃ r, loop (placeBinding budgets prior candidates) acc new = .ok r ∧
        r.1.bindings = acc.1.bindings ++ new := by
  induction new generalizing acc with
  | nil => exact ⟨0, fun _ _ _ => ⟨acc, rfl, (append_nil _).symm⟩⟩
  | cons b new ih =>
    obtain ⟨-, hrest⟩ := forall_mem_cons.mp hnew
    obtain ⟨next, hnext⟩ := acc.1.exists_accept b
    obtain ⟨size, hsize⟩ := ih hrest (next, acc.2)
    refine ⟨max next.used size, fun budgets hcount hbytes => ?_⟩
    rw [length_cons] at hcount
    have haccept := hnext budgets (by omega) (le_trans (le_max_left _ _) hbytes)
    have hbindings := Fit.bindings_of_accept haccept
    obtain ⟨r, hr, hall⟩ := hsize budgets (by rw [hbindings, length_append]; simp; omega)
      (le_trans (le_max_right _ _) hbytes)
    refine ⟨r, ?_, by rw [hall, hbindings, append_assoc, singleton_append]⟩
    rw [loop_cons, placeBinding, haccept]
    exact hr

/-- A binding without zones. -/
def plainBinding (n : Nat) : Binding where
  bindingUID := lit "binding-" ++ itoa n
  projectUID := lit "project-" ++ itoa n
  contextUID := lit "context-" ++ itoa n
  bindingGeneration := 1
  configurationRevision := 1
  consumerAddress := lit "fd53::" ++ itoa n
  clusterAddress := lit "fd54::" ++ itoa n
  port := 53
  transports := [lit "UDP", lit "TCP"]
  zones := []
  nodeBackends := []
  clusterBackends := []
  version := ⟨1, 1⟩
  tombstone := false
  configurationPending := false

/-- A snapshot of two projects. -/
def twoProjects : ServingSnapshot where
  region := lit "east"
  shard := lit "a"
  configurationEpoch := 1
  configurationRevision := 1
  bindings := [plainBinding 1, plainBinding 2]
  members := []
  memberPatterns := []
  requiredPublications := []
  generatedAt := 1

/-- The first project attaches a zone. -/
def grownBinding : Binding :=
  { plainBinding 1 with
    configurationRevision := 2
    zones := [⟨false, lit "zone-1", lit "corp.internal", 1, 1⟩] }

/-- The snapshot that would follow. -/
def grownSnapshot : ServingSnapshot :=
  { twoProjects with bindings := [grownBinding, plainBinding 2] }

end Spec

end InternalDNS.Platform
