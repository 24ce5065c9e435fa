import InternalDNS.Publisher

/-! # Publications of one zone are numbered once

The ownership object is the only place where the writers of a zone meet, and its revision counter
never falls, not even when the zone changes hands.  So every revision is reserved once, by one
writer and with fixed contents, and whatever the others do in between, a commit succeeds only if the
ownership is still as that writer left it.  `Inv` says this of a state of the system; every step
keeps it, and `publications_numbered_once` reads the guarantees off it.
-/
namespace InternalDNS.Controlplane

open Go List Option ManifestSpec Staging

variable {E : Externals} {zoneUID : GoString} {I D : Type} {m : ManifestSpec D} {s : Staging D}

/-! ## Names and numbers -/

/-- The number of a publication: first its epoch, then its revision. -/
def ManifestSpec.number (m : ManifestSpec D) : Nat ×ₗ Nat := toLex (m.writerEpoch, m.revision)

theorem artifactName_eq (zoneUID : GoString) (epoch revision : Nat) :
    artifactName E zoneUID epoch revision =
      (lit "pub-" ++ (E.opaqueToken zoneUID).take 16 ++ lit "-e" ++ itoa epoch) ++
        '-' :: 'r' :: itoa revision :=
  append_assoc _ (lit "-r") _

theorem artifactName_ne_nil (zoneUID : GoString) (epoch revision : Nat) :
    artifactName E zoneUID epoch revision ≠ [] := by
  rw [artifactName_eq]
  exact append_ne_nil_of_right_ne_nil _ (cons_ne_nil _ _)

theorem artifactName_injective {epoch revision epoch' revision' : Nat}
    (h : artifactName E zoneUID epoch revision = artifactName E zoneUID epoch' revision') :
    epoch = epoch' ∧ revision = revision' := by
  rw [artifactName_eq, artifactName_eq] at h
  exact append_numbers_inj h

theorem ManifestSpec.name_ne_nil (m : ManifestSpec D) : m.name E ≠ [] :=
  artifactName_ne_nil _ _ _

theorem ManifestSpec.number_eq_of_name {m m' : ManifestSpec D} (hzone : m.zoneUID = m'.zoneUID)
    (h : m.name E = m'.name E) : m.writerEpoch = m'.writerEpoch ∧ m.revision = m'.revision := by
  rw [name, name, hzone] at h
  exact artifactName_injective h

/-- The previous revision that a manifest must name: the last one, if it is of the same epoch. -/
def previousFor (last : Option (ManifestSpec D)) (epoch : Nat) : Nat :=
  ((last.filter fun m => m.writerEpoch = epoch).map ManifestSpec.revision).getD 0

/-- The manifest may follow the last one. -/
structure Succeeds (last : Option (ManifestSpec D)) (m : ManifestSpec D) : Prop where
  number : ∀ l ∈ last, l.number < m.number
  previous : m.previousRevision = previousFor last m.writerEpoch

/-- Every manifest of the list follows the one before it. -/
def IsChain (commits : List (ManifestSpec D)) : Prop :=
  ∀ before m after, commits = before ++ m :: after → Succeeds before.getLast? m

theorem IsChain.concat {commits : List (ManifestSpec D)} (h : IsChain commits)
    (hm : Succeeds commits.getLast? m) : IsChain (commits ++ [m]) :=
  forall_split_concat.mpr ⟨h, hm⟩

theorem Staging.manifest_of_mem (h : Artifact.manifest m ∈ s.artifacts) : m = s.manifest := by
  simpa [artifacts] using h

/-! ## The invariant -/

/-- The ownership moves forward without a commit. -/
structure Ownership.Grows (o o' : Ownership) : Prop where
  zone : o'.zoneUID = o.zoneUID
  epoch : o.writerEpoch ≤ o'.writerEpoch
  revision : o.nextRevision ≤ o'.nextRevision
  active : o'.activeManifestName = o.activeManifestName

/-- What a staging writer knows. -/
structure StagingInv (w : World I D) (copy : Versioned Ownership) (s : Staging D)
    (todo : List (Artifact D)) : Prop where
  reserved : s ∈ w.reserved
  todo : ∀ a ∈ todo, a ∈ s.artifacts
  epoch : s.manifest.writerEpoch = copy.value.writerEpoch
  succeeds : ∀ stored, w.owner = some stored → copy.version = stored.version →
    Succeeds w.commits.getLast? s.manifest

/-- What holds of the stored ownership. -/
structure OwnerInv (E : Externals) (zoneUID : GoString) (w : World I D) (o : Ownership) : Prop where
  zone : o.zoneUID = zoneUID
  reserved : ∀ s ∈ w.reserved, s.manifest.revision < o.nextRevision
  commits : ∀ m ∈ w.commits, m.writerEpoch ≤ o.writerEpoch
  active : o.activeManifestName = w.commits.getLast?.elim [] (ManifestSpec.name E)

/-- The copy that a writer has. -/
def Writer.copy : Writer D → Option (Versioned Ownership)
  | .idle => none
  | .holding copy => some copy
  | .staging copy _ _ => some copy

theorem Writer.eq_idle_of_copy {writer : Writer D} (h : writer.copy = none) : writer = .idle := by
  cases writer with
  | idle => rfl
  | holding copy => exact absurd h (some_ne_none copy)
  | staging copy s todo => exact absurd h (some_ne_none copy)

/-- **The invariant of the writers.** -/
structure Inv (E : Externals) (zoneUID : GoString) (w : World I D) : Prop where
  absent : w.owner = none → (∀ i, w.writers i = .idle) ∧ w.reserved = [] ∧ w.commits = []
  owner : ∀ stored, w.owner = some stored → OwnerInv E zoneUID w stored.value
  copies : ∀ i, ∀ copy ∈ (w.writers i).copy, ∃ stored, w.owner = some stored ∧ stored.Copy copy
  staging : ∀ i copy s todo, w.writers i = .staging copy s todo → StagingInv w copy s todo
  zones : ∀ s ∈ w.reserved, s.manifest.zoneUID = zoneUID
  revisions : (w.reserved.map fun s => s.manifest.revision).Nodup
  created : ∀ a ∈ w.created, ∃ s ∈ w.reserved, a ∈ s.artifacts
  commits : ∀ m ∈ w.commits, ∃ s ∈ w.reserved, s.manifest = m
  chain : IsChain w.commits

section Steps

variable {w : World I D} {stored stored' : Versioned Ownership} {i : I} {seen : Nat} {o : Ownership}
  {copy : Versioned Ownership}

theorem OwnerInv.grows {o o' : Ownership} (h : OwnerInv E zoneUID w o) (hgrows : o.Grows o') :
    OwnerInv E zoneUID w o' := by
  refine ⟨hgrows.zone.trans h.zone, fun s hs => ?_, fun m hm => ?_, hgrows.active.trans h.active⟩
  · exact (h.reserved s hs).trans_le hgrows.revision
  · exact (h.commits m hm).trans hgrows.epoch

section

variable (h : Inv E zoneUID w)
include h

theorem Inv.addCreated {a : Artifact D} (ha : ∃ s ∈ w.reserved, a ∈ s.artifacts) :
    Inv E zoneUID { w with created := w.created ++ [a] } :=
  { h with
    owner := fun t ht => { h.owner t ht with }
    staging := fun j copy s todo hj => { h.staging j copy s todo hj with }
    created := forall_mem_concat h.created ha }

variable (howner : w.owner = some stored)
include howner

/-- The ownership is updated.  All copies become old, so no staging writer can commit any more. -/
theorem Inv.setOwner (hupdate : stored.update seen o = some stored')
    {commits : List (ManifestSpec D)} (hinv : OwnerInv E zoneUID { w with commits := commits } o)
    (hcommits : ∀ m ∈ commits, ∃ s ∈ w.reserved, s.manifest = m) (hchain : IsChain commits) :
    Inv E zoneUID { w.setOwner stored' with commits := commits } := by
  have hvalue : stored'.value = o := by rw [(Versioned.update_eq_some.mp hupdate).2]
  refine ⟨nofun, fun t ht => ?_, fun j copy hj => ?_, fun j copy s todo hj => ?_, h.zones, h.revisions,
    h.created, hcommits, hchain⟩
  · cases ht
    rw [hvalue]
    exact { hinv with }
  · obtain ⟨t, ht, hcopy⟩ := h.copies j copy hj
    obtain rfl := mem_unique howner ht
    exact ⟨stored', rfl, (hcopy.update hupdate).1⟩
  · rw [World.setOwner_writers] at hj
    have hs := h.staging j copy s todo hj
    obtain ⟨t, ht, hcopy⟩ := h.copies j copy (by simp [hj, Writer.copy])
    obtain rfl := mem_unique howner ht
    refine { hs with succeeds := fun t ht heq => ?_ }
    cases ht
    exact absurd heq (hcopy.update hupdate).2

/-- An update that commits nothing, made from a copy. -/
theorem Inv.forward (hcopy : stored.Copy copy)
    (hupdate : stored.update copy.version o = some stored') (hgrows : copy.value.Grows o) :
    Inv E zoneUID (w.setOwner stored') := by
  rw [(hcopy.of_update hupdate).1] at hgrows
  exact h.setOwner howner hupdate ((h.owner stored howner).grows hgrows) h.commits h.chain

/-- A writer's copy is a copy of the stored ownership. -/
theorem Inv.copy_of_writer (hwriter : (w.writers i).copy = some copy) : stored.Copy copy := by
  obtain ⟨t, ht, hcopy⟩ := h.copies i copy hwriter
  obtain rfl := mem_unique howner ht
  exact hcopy

/-- A revision is reserved that no one has reserved before. -/
theorem Inv.addReserved {s : Staging D} (hzone : s.manifest.zoneUID = zoneUID)
    (hlt : s.manifest.revision < stored.value.nextRevision)
    (hfresh : ∀ s' ∈ w.reserved, s'.manifest.revision < s.manifest.revision) :
    Inv E zoneUID { w with reserved := w.reserved ++ [s] } := by
  have hmem : ∀ {s'}, s' ∈ w.reserved → s' ∈ w.reserved ++ [s] := mem_append_left _
  refine ⟨fun habsent => absurd (habsent.symm.trans howner) (by simp), fun t ht => ?_, h.copies,
    fun j copy s' todo hj => ?_, forall_mem_concat h.zones hzone,
    nodup_map_concat h.revisions fun s' hs' => (hfresh s' hs').ne, fun a ha => ?_, fun m hm => ?_, h.chain⟩
  · obtain rfl := mem_unique howner ht
    have hinv := h.owner stored howner
    exact { hinv with reserved := forall_mem_concat hinv.reserved hlt }
  · have hs := h.staging j copy s' todo hj
    exact { hs with reserved := hmem hs.reserved }
  · obtain ⟨s', hs', ha'⟩ := h.created a ha
    exact ⟨s', hmem hs', ha'⟩
  · obtain ⟨s', hs', hm'⟩ := h.commits m hm
    exact ⟨s', hmem hs', hm'⟩

/-- **The previous revision that a writer finds is the one of the last commit.** -/
theorem Inv.activeRevision {active : Option (ManifestSpec D)} {p : Nat}
    (hactive : ∀ m ∈ active, Artifact.manifest m ∈ w.created ∧ m.name E = stored.value.activeManifestName)
    (hprevious : stored.value.activeRevision active = .ok p) :
    p = previousFor w.commits.getLast? stored.value.writerEpoch := by
  have hinv := h.owner stored howner
  unfold Ownership.activeRevision at hprevious
  cases hlast : w.commits.getLast? with
  | none =>
    rw [hinv.active, hlast, elim_none, if_pos rfl] at hprevious
    exact (Except.ok.inj hprevious).symm
  | some l =>
    have hname : stored.value.activeManifestName = l.name E := by rw [hinv.active, hlast, elim_some]
    rw [if_neg (hname ▸ l.name_ne_nil)] at hprevious
    cases active with
    | none => exact absurd hprevious (by simp)
    | some m =>
      obtain ⟨hcreated, hm⟩ := hactive m rfl
      obtain ⟨s, hs, hsm⟩ := h.created _ hcreated
      obtain rfl := manifest_of_mem hsm
      obtain ⟨s', hs', rfl⟩ := h.commits l (mem_of_getLast? hlast)
      obtain ⟨hepoch, hrevision⟩ := number_eq_of_name
        ((h.zones s hs).trans (h.zones s' hs').symm) (hm.trans hname)
      dsimp only at hprevious
      split_ifs at hprevious with hmatch hlt
      · rw [previousFor, filter_some, if_neg (by simp; omega)]
        exact (Except.ok.inj hprevious).symm
      · have heq : s'.manifest.writerEpoch = stored.value.writerEpoch := by
          omega
        rw [previousFor, filter_some, if_pos (by simpa using heq)]
        exact (Except.ok.inj hprevious).symm.trans hrevision

/-- The revision that is reserved is above all that were. -/
theorem Inv.lt_revision :
    ∀ s ∈ w.reserved, s.manifest.revision < stored.value.revision := by
  intro s hs
  have hlt := (h.owner stored howner).reserved s hs
  unfold Ownership.revision
  split_ifs <;> omega

/-- **What is reserved may follow the last commit.** -/
theorem Inv.succeeds {m : ManifestSpec D}
    (hprevious : m.previousRevision = previousFor w.commits.getLast? stored.value.writerEpoch)
    (hepoch : m.writerEpoch = stored.value.writerEpoch)
    (hrevision : m.revision = stored.value.revision) :
    Succeeds w.commits.getLast? m := by
  refine ⟨fun l hl => ?_, hepoch ▸ hprevious⟩
  have hmem := mem_of_getLast? hl
  obtain ⟨s, hs, rfl⟩ := h.commits l hmem
  have hle := (h.owner stored howner).commits _ hmem
  have hlt := h.lt_revision howner s hs
  rw [number, number, Prod.Lex.toLex_lt_toLex, hepoch, hrevision]
  exact (lt_or_eq_of_le hle).imp_right fun heq => ⟨heq, hlt⟩

end

theorem Inv.of_fresh (h : w.Fresh) : Inv E zoneUID w := by
  obtain ⟨owner, writers, reserved, created, commits⟩ := w
  obtain ⟨rfl, hidle, rfl, rfl, rfl⟩ := h
  refine ⟨fun _ => ⟨hidle, rfl, rfl⟩, nofun, fun j copy hj => ?_,
    fun j copy s todo hj => absurd ((hidle j).symm.trans hj) nofun, nofun, nodup_nil, nofun, nofun,
    fun before m after hsplit => absurd hsplit (by simp)⟩
  rw [hidle j] at hj
  cases hj

variable [DecidableEq I]

section

variable (h : Inv E zoneUID w)
include h

/-- A writer moves on, with a copy of the ownership if it has one. -/
theorem Inv.setWriter {next : Writer D}
    (hcopy : ∀ copy ∈ next.copy, ∃ stored, w.owner = some stored ∧ stored.Copy copy)
    (hstaging : ∀ copy s todo, next = .staging copy s todo → StagingInv w copy s todo) :
    Inv E zoneUID (w.setWriter i next) := by
  refine { h with
    absent := fun habsent => ?_
    owner := fun t ht => { h.owner t ht with }
    copies := fun j copy hj => ?_
    staging := fun j copy s todo hj => ?_ }
  · obtain ⟨hidle, hrest⟩ := h.absent habsent
    refine ⟨fun j => ?_, hrest⟩
    have hnext : next = .idle := by
      refine Writer.eq_idle_of_copy (eq_none_iff_forall_not_mem.mpr fun copy hc => ?_)
      obtain ⟨stored, hstored, -⟩ := hcopy copy hc
      exact absurd (habsent.symm.trans hstored) (by simp)
    rcases w.writers_setWriter i j next with hj | hj
    · exact hj.trans hnext
    · exact hj.trans (hidle j)
  · rcases w.writers_setWriter i j next with heq | heq <;> rw [heq] at hj
    · exact hcopy copy hj
    · exact h.copies j copy hj
  · have hs : StagingInv w copy s todo := by
      rcases w.writers_setWriter i j next with heq | heq <;> rw [heq] at hj
      · exact hstaging copy s todo hj
      · exact h.staging j copy s todo hj
    exact { hs with }

theorem Inv.hold (howner : w.owner = some stored) (hcopy : stored.Copy copy) :
    Inv E zoneUID (w.setWriter i (.holding copy)) := by
  refine h.setWriter (fun c hc => ?_) nofun
  cases hc
  exact ⟨stored, howner, hcopy⟩

theorem Inv.idle : Inv E zoneUID (w.setWriter i .idle) :=
  h.setWriter nofun nofun

/-- **Every step keeps the invariant.** -/
theorem Inv.step {identity : I → GoString} {w' : World I D}
    (hstep : Step E zoneUID identity w w') : Inv E zoneUID w' := by
  cases hstep with
  | create i now leaseUntil habsent =>
    obtain ⟨hidle, hreserved, hcommits⟩ := h.absent habsent
    refine { h with
      absent := nofun
      owner := fun t ht => ?_
      copies := fun j copy hj => ?_
      staging := fun j copy s todo hj => ?_ }
    · cases ht
      refine ⟨rfl, fun s hs => ?_, fun m hm => ?_, ?_⟩
      · exact absurd (hreserved ▸ hs) not_mem_nil
      · exact absurd (hcommits ▸ hm) not_mem_nil
      · simp only [World.setOwner, hcommits, newOwnership]
        rfl
    · rw [World.setOwner_writers, hidle j] at hj
      exact absurd hj (by simp [Writer.copy])
    · rw [World.setOwner_writers, hidle j] at hj
      exact absurd hj (by simp)
  | hold i stored copy howner hcopy hzone hholder => exact h.hold howner hcopy
  | takeOver i stored copy stored' now leaseUntil howner hcopy hzone hholder hexpired hupdate =>
    have hgrows : copy.value.Grows (copy.value.takeOver (identity i) now leaseUntil) :=
      ⟨rfl, (Nat.lt_of_succ_le (le_max_left _ _)).le, le_rfl, rfl⟩
    exact (h.forward howner hcopy hupdate hgrows).hold rfl (.refl _)
  | renew i stored copy stored' leaseUntil howner hwriter hupdate =>
    have hcopy := h.copy_of_writer howner (congrArg Writer.copy hwriter)
    exact (h.forward howner hcopy hupdate ⟨rfl, le_rfl, le_rfl, rfl⟩).hold rfl (.refl _)
  | release stored copy stored' now howner hcopy hupdate =>
    exact h.forward howner hcopy hupdate ⟨rfl, le_rfl, le_rfl, rfl⟩
  | reserve i stored copy stored' leaseUntil active s howner hwriter hactive hprevious hzone hepoch
      hrevision hupdate =>
    have hcopy := h.copy_of_writer howner (congrArg Writer.copy hwriter)
    obtain ⟨hvalue, hvalue'⟩ := hcopy.of_update hupdate
    have hgrows : copy.value.Grows (copy.value.reserve leaseUntil) := by
      refine ⟨rfl, le_rfl, ?_, rfl⟩
      simp only [Ownership.reserve, Ownership.revision]
      split_ifs <;> omega
    rw [hvalue] at hactive hprevious hepoch hrevision hvalue'
    have hsucceeds := h.succeeds howner (h.activeRevision howner hactive hprevious) hepoch hrevision
    have hlt : s.manifest.revision < stored'.value.nextRevision := by
      rw [hvalue', hrevision]
      exact Nat.lt_succ_self _
    have hadded := (h.forward howner hcopy hupdate hgrows).addReserved rfl hzone hlt
      fun s' hs' => hrevision ▸ h.lt_revision howner s' hs'
    refine hadded.setWriter (fun c hc => ⟨stored', rfl, some.inj hc ▸ .refl _⟩) ?_
    rintro _ _ _ ⟨⟩
    exact ⟨mem_append_right _ (mem_singleton_self s), fun _ ha => ha,
      hepoch.trans (congrArg Ownership.writerEpoch hvalue').symm, fun _ _ _ => hsucceeds⟩
  | stage i copy s a todo hwriter =>
    have hs := h.staging i copy s _ hwriter
    have hnext : Inv E zoneUID (w.setWriter i (.staging copy s todo)) := by
      refine h.setWriter (fun c hc => ?_) ?_
      · exact h.copies i c (by rw [hwriter]; exact hc)
      · rintro _ _ _ ⟨⟩
        exact { hs with todo := fun b hb => hs.todo b (mem_cons_of_mem _ hb) }
    exact hnext.addCreated ⟨s, hs.reserved, hs.todo a mem_cons_self⟩
  | commit i stored copy stored' s stateHash leaseUntil howner hwriter hupdate =>
    have hs := h.staging i copy s _ hwriter
    have hcopy := h.copy_of_writer howner (congrArg Writer.copy hwriter)
    obtain ⟨hvalue, -⟩ := hcopy.of_update hupdate
    have hinv := h.owner stored howner
    have hsucceeds := hs.succeeds stored howner (Versioned.update_eq_some.mp hupdate).1
    refine Inv.idle (h.setOwner howner hupdate ⟨?_, ?_, ?_, ?_⟩
      (forall_mem_concat h.commits ⟨s, hs.reserved, rfl⟩) (h.chain.concat hsucceeds))
    · exact (congrArg Ownership.zoneUID hvalue).trans hinv.zone
    · intro s' hs'
      exact (hinv.reserved s' hs').trans_eq (congrArg Ownership.nextRevision hvalue).symm
    · have hepoch : copy.value.writerEpoch = stored.value.writerEpoch := congrArg _ hvalue
      exact forall_mem_concat (fun m hm => (hinv.commits m hm).trans_eq hepoch.symm) hs.epoch.le
    · simp [Ownership.commit]
  | stop i => exact h.idle

end

theorem inv_of_reachable {identity : I → GoString}
    (h : Reachable World.Fresh (Step E zoneUID identity) w) : Inv E zoneUID w :=
  h.invariant (fun _ hfresh => .of_fresh hfresh) fun _ _ hinv hstep => hinv.step hstep

end Steps

/-! ## What follows from it -/

theorem IsChain.pairwise {commits : List (ManifestSpec D)} (h : IsChain commits) :
    (commits.map ManifestSpec.number).Pairwise (· < ·) := by
  rw [← isChain_iff_pairwise, isChain_map, isChain_iff_forall_rel_of_append_cons_cons]
  intro m m' before after hsplit
  rw [append_cons] at hsplit
  exact (h _ m' after hsplit).number m (by simp)

theorem Inv.staging_unique {w : World I D} (h : Inv E zoneUID w) {s s' : Staging D}
    (hs : s ∈ w.reserved) (hs' : s' ∈ w.reserved) (heq : s.manifest.revision = s'.manifest.revision) :
    s = s' :=
  inj_on_of_nodup_map h.revisions hs hs' heq

theorem Staging.mem_chunkSpecs {c : ChunkSpec} (h : Artifact.chunk c ∈ s.artifacts) :
    c.writerEpoch = s.manifest.writerEpoch ∧ c.revision = s.manifest.revision ∧
      s.chunks[c.index]? = some c.payload := by
  obtain ⟨payload, i, hmem, rfl⟩ : ∃ payload i, (payload, i) ∈ s.chunks.zipIdx ∧
      (⟨s.manifest.writerEpoch, s.manifest.revision, i, payload⟩ : ChunkSpec) = c := by
    simpa [artifacts, chunkSpecs] using h
  exact ⟨rfl, rfl, mk_mem_zipIdx_iff_getElem?.mp hmem⟩

/-- An artifact's revision tells what was reserved. -/
theorem Inv.chunk_unique {w : World I D} (h : Inv E zoneUID w) {c c' : ChunkSpec}
    (hc : .chunk c ∈ w.created) (hc' : .chunk c' ∈ w.created) (hrevision : c.revision = c'.revision)
    (hindex : c.index = c'.index) : c = c' := by
  obtain ⟨s, hs, hmem⟩ := h.created _ hc
  obtain ⟨s', hs', hmem'⟩ := h.created _ hc'
  obtain ⟨e, r, p⟩ := mem_chunkSpecs hmem
  obtain ⟨e', r', p'⟩ := mem_chunkSpecs hmem'
  obtain rfl := h.staging_unique hs hs' (r.symm.trans (hrevision.trans r'))
  have hpayload : c.payload = c'.payload := some.inj (p.symm.trans (hindex ▸ p'))
  cases c
  cases c'
  simp_all

theorem Inv.manifest_unique {w : World I D} (h : Inv E zoneUID w) {m m' : ManifestSpec D}
    (hm : .manifest m ∈ w.created) (hm' : .manifest m' ∈ w.created) (heq : m.revision = m'.revision) :
    m = m' := by
  obtain ⟨s, hs, hmem⟩ := h.created _ hm
  obtain ⟨s', hs', hmem'⟩ := h.created _ hm'
  obtain rfl := manifest_of_mem hmem
  obtain rfl := manifest_of_mem hmem'
  exact congrArg manifest (h.staging_unique hs hs' heq)

variable [DecidableEq I] {identity : I → GoString} {w : World I D}

/-- **A writer that takes the zone over raises the epoch.** -/
theorem Inv.takeOver_epoch (h : Inv E zoneUID w) {w' : World I D} (hstep : Step E zoneUID identity w w')
    {stored stored' : Versioned Ownership} (howner : w.owner = some stored)
    (howner' : w'.owner = some stored')
    (hholder : stored'.value.holderIdentity ≠ stored.value.holderIdentity) :
    stored.value.writerEpoch < stored'.value.writerEpoch := by
  -- only a takeover changes the holder: every other update is made from the stored ownership and
  -- leaves the holder alone
  have hsame {copy o o' : Versioned Ownership} (hcopy : o.Copy copy) {next : Ownership}
      (ho : w.owner = some o) (hupdate : o.update copy.version next = some o')
      (ho' : some o' = some stored') (hnext : next.holderIdentity = copy.value.holderIdentity) : False := by
    obtain rfl := mem_unique howner ho
    cases ho'
    obtain ⟨hvalue, hvalue'⟩ := hcopy.of_update hupdate
    exact hholder (by rw [hvalue', hnext, hvalue])
  have hunchanged (ho : w.owner = some stored') : False := by
    obtain rfl := mem_unique howner ho
    exact hholder rfl
  cases hstep with
  | create i now leaseUntil habsent => exact absurd (habsent.symm.trans howner) (by simp)
  | hold => exact (hunchanged howner').elim
  | takeOver i o copy o' now leaseUntil ho hcopy hzone hne hexpired hupdate =>
    cases howner'
    obtain rfl := mem_unique howner ho
    obtain ⟨hvalue, hvalue'⟩ := hcopy.of_update hupdate
    rw [hvalue', ← hvalue]
    exact Nat.lt_of_succ_le (le_max_left _ _)
  | renew i o copy o' leaseUntil ho hwriter hupdate =>
    exact (hsame (h.copy_of_writer ho (congrArg Writer.copy hwriter)) ho hupdate howner' rfl).elim
  | release o copy o' now ho hcopy hupdate => exact (hsame hcopy ho hupdate howner' rfl).elim
  | reserve i o copy o' leaseUntil active s ho hwriter hactive hprevious hzone hepoch hrevision hupdate =>
    exact (hsame (h.copy_of_writer ho (congrArg Writer.copy hwriter)) ho hupdate howner' rfl).elim
  | stage => exact (hunchanged howner').elim
  | commit i o copy o' s stateHash leaseUntil ho hwriter hupdate =>
    exact (hsame (h.copy_of_writer ho (congrArg Writer.copy hwriter)) ho hupdate howner' rfl).elim
  | stop => exact (hunchanged howner').elim

/-- **Publications of a zone are numbered once, in order, and each names the one before it.**  This
holds for every run of the writers.  Epoch and revision determine the manifest and its chunks; a
change of the holder raises the epoch; the active manifest is the last one that was committed, the
commits go up in epoch and revision, and each names as previous the revision that was active in its
epoch, or 0. -/
theorem publications_numbered_once (h : Reachable World.Fresh (Step E zoneUID identity) w) :
    (∀ m m' : ManifestSpec D, .manifest m ∈ w.created → .manifest m' ∈ w.created →
      m.number = m'.number → m = m') ∧
    (∀ c c' : ChunkSpec, .chunk c ∈ w.created → .chunk c' ∈ w.created →
      c.writerEpoch = c'.writerEpoch → c.revision = c'.revision → c.index = c'.index → c = c') ∧
    (∀ w' stored stored', Step E zoneUID identity w w' → w.owner = some stored →
      w'.owner = some stored' → stored'.value.holderIdentity ≠ stored.value.holderIdentity →
      stored.value.writerEpoch < stored'.value.writerEpoch) ∧
    (∀ stored, w.owner = some stored →
      stored.value.activeManifestName = w.commits.getLast?.elim [] (ManifestSpec.name E)) ∧
    (w.commits.map ManifestSpec.number).Pairwise (· < ·) ∧
    ∀ before m after, w.commits = before ++ m :: after →
      m.previousRevision = previousFor before.getLast? m.writerEpoch := by
  have hinv := inv_of_reachable h
  refine ⟨fun m m' hm hm' heq => ?_, fun c c' hc hc' _ hrevision hindex => ?_,
    fun w' stored stored' hstep howner howner' hholder => ?_, fun stored howner => ?_,
    hinv.chain.pairwise, fun before m after hsplit => ?_⟩
  · exact hinv.manifest_unique hm hm' (Prod.ext_iff.mp (toLex.injective heq)).2
  · exact hinv.chunk_unique hc hc' hrevision hindex
  · exact hinv.takeOver_epoch hstep howner howner' hholder
  · exact (hinv.owner stored howner).active
  · exact (hinv.chain before m after hsplit).previous

/-- The manifest of a first publication. -/
def firstManifest : ManifestSpec Unit := ⟨lit "zone", 1, 1, 0, false, [], ()⟩

/-- The identities of two control planes. -/
def twoWriters (second : Bool) : GoString := if second then lit "second" else lit "first"

/-- The first control plane publishes, then the second one takes the zone over. -/
theorem reachable_takeOver : ∃ w : World Bool Unit,
    Reachable World.Fresh (Step .reference (lit "zone") twoWriters) w ∧ w.commits = [firstManifest] ∧
      ∃ stored, w.owner = some stored ∧ stored.value.writerEpoch = 2 := by
  have h₀ : Reachable World.Fresh (Step .reference (lit "zone") twoWriters)
      (⟨none, fun _ => .idle, [], [], []⟩ : World Bool Unit) :=
    .init ⟨rfl, fun _ => rfl, rfl, rfl, rfl⟩
  have h₁ := h₀.step (.create false 0 0 rfl)
  have h₂ := h₁.step (.hold false _ _ rfl (.refl _) rfl rfl)
  have h₃ := h₂.step (.reserve false _ _ _ 0 none ⟨firstManifest, []⟩ rfl rfl nofun rfl rfl rfl rfl rfl)
  have h₄ := h₃.step (.stage false _ _ _ _ rfl)
  have h₅ := h₄.step (.commit false _ _ _ _ [] 0 rfl rfl rfl)
  have h₆ := h₅.step (.takeOver true _ _ _ 0 0 rfl (.refl _) rfl (by decide) le_rfl rfl)
  exact ⟨_, h₆, rfl, _, rfl, rfl⟩

theorem publications_numbered_after_takeOver : ∃ w : World Bool Unit, w.commits = [firstManifest] ∧
    (∃ stored, w.owner = some stored ∧ stored.value.writerEpoch = 2) ∧
    (w.commits.map ManifestSpec.number).Pairwise (· < ·) := by
  obtain ⟨w, hreachable, hcommits, howner⟩ := reachable_takeOver
  exact ⟨w, hcommits, howner, (publications_numbered_once hreachable).2.2.2.2.1⟩

/-! ## Nothing is missing -/

/-- Of what was reserved, only what a writer still has to create may be missing. -/
structure World.Complete (w : World I D) : Prop where
  staging : ∀ i copy s todo, w.writers i = .staging copy s todo →
    s ∈ w.reserved ∧ ∀ a ∈ s.artifacts, a ∈ todo ∨ a ∈ w.created
  commits : ∀ m ∈ w.commits, ∃ s ∈ w.reserved, s.manifest = m ∧ ∀ a ∈ s.artifacts, a ∈ w.created

theorem World.Complete.step (h : w.Complete) {w' : World I D} (hstep : Step E zoneUID identity w w') :
    w'.Complete := by
  obtain ⟨hstaging, hcommits⟩ := h
  -- artifacts are never taken back, and a writer commits when it has none left to create
  cases hstep <;> simp only [World.setOwner, World.setWriter] <;> constructor <;>
    grind [Function.update_apply]

end InternalDNS.Controlplane
