import InternalDNS.Manifest

/-! # Publications in pieces

The control plane cuts the payload of a publication into chunks, and names in the manifest the index,
the size and the hash of each.  An agent puts the payload together from the chunks that it was sent,
in whatever order.  What the control plane has cut is put together again, and no other chunks give
another payload, as long as SHA-256 has no collisions.
-/
namespace InternalDNS.Controlplane

open Go List AList Except PublicationChunk

variable (E : Externals)

/-! ## The pieces -/

/-- The loop of `controlplane.chunk`; `rounds` bounds how often it is entered. -/
def chunkLoop (size : Nat) : (rounds : Nat) → List UInt8 → List (List UInt8)
  | 0, _ => []
  | rounds + 1, b => if b = [] then [] else b.take size :: chunkLoop size rounds (b.drop size)

/-- `controlplane.chunk`: with a positive size every round takes a byte at least. -/
def chunk (b : List UInt8) (size : Nat) : List (List UInt8) := chunkLoop size b.length b

/-- What a publication is about, apart from its payload. -/
structure PublicationHead where
  name : GoString
  zoneUID : GoString
  apex : GoString
  epoch : Nat
  revision : Nat
  previous : Nat
  tombstone : Bool
  now : Time

/-- The wire chunk of the `i`th piece. -/
def PublicationHead.wireChunk (p : PublicationHead) (piece : List UInt8 × Nat) : PublicationChunk :=
  ⟨p.name, p.zoneUID, p.epoch, p.revision, piece.2, E.hashBytes piece.1, piece.1⟩

/-- The reference to it. -/
def wireRef (piece : List UInt8 × Nat) : ChunkRef := ⟨piece.2, E.hashBytes piece.1, piece.1.length⟩

/-- `Reconciler.persistPublication`: the manifest and the chunks that it sends, if the manifest is
valid. -/
def persistPublication (p : PublicationHead) (payload : List UInt8) (hash : GoString) (chunkSize : Nat) :
    Except GoString (PublicationManifest × List PublicationChunk) := do
  let parts := (chunk payload chunkSize).zipIdx
  let manifest : PublicationManifest :=
    ⟨p.name, p.zoneUID, p.apex, p.epoch, p.revision, p.previous, p.tombstone, parts.map (wireRef E),
      hash, p.now⟩
  manifest.validate E
  .ok (manifest, parts.map (p.wireChunk E))

/-! ## What the pieces are -/

section Pieces

variable {size : Nat}

theorem chunkLoop_flatten (hsize : 0 < size) :
    ∀ rounds b, b.length ≤ rounds → (chunkLoop size rounds b).flatten = b := by
  intro rounds
  induction rounds with
  | zero =>
    intro b hb
    rw [eq_nil_of_length_eq_zero (Nat.le_zero.mp hb)]
    rfl
  | succ rounds ih =>
    intro b hb
    rw [chunkLoop]
    split_ifs with hnil
    · rw [hnil, flatten_nil]
    · have hpos := length_pos_iff.mpr hnil
      have hrest : (b.drop size).length ≤ rounds := by
        rw [length_drop]
        omega
      rw [flatten_cons, ih _ hrest, take_append_drop]

/-- The pieces put together are the payload. -/
theorem chunk_flatten (b : List UInt8) (hsize : 0 < size) : (chunk b size).flatten = b :=
  chunkLoop_flatten hsize b.length b le_rfl

theorem chunkLoop_ne_nil (hsize : 0 < size) :
    ∀ rounds b, ∀ piece ∈ chunkLoop size rounds b, piece ≠ [] := by
  intro rounds
  induction rounds with
  | zero => simp [chunkLoop]
  | succ rounds ih =>
    intro b piece hpiece
    rw [chunkLoop] at hpiece
    split_ifs at hpiece with hnil
    · cases hpiece
    · rcases mem_cons.mp hpiece with rfl | hpiece
      · simp [hnil, hsize.ne']
      · exact ih _ piece hpiece

theorem chunk_ne_nil {b piece : List UInt8} (hsize : 0 < size) (h : piece ∈ chunk b size) :
    piece ≠ [] :=
  chunkLoop_ne_nil hsize b.length b piece h

end Pieces

/-! ## Putting them together -/

section Verify

variable {E : Externals} {m : PublicationManifest} {chunks : List PublicationChunk}

/-- What a valid manifest with chunks is like. -/
structure LiveManifest (m : PublicationManifest) : Prop where
  identity : m.manifestUID ≠ [] ∧ m.zoneUID ≠ [] ∧ m.writerEpoch ≠ 0 ∧ m.revision ≠ 0
  live : m.tombstone = false
  refs : ∀ ref ∈ m.chunks, validHash ref.sha256 = true

theorem liveManifest_of_validate (h : m.validate E = .ok ()) (hchunks : m.chunks ≠ []) :
    LiveManifest m := by
  unfold PublicationManifest.validate at h
  simp only [bind_eq_ok, failIf_eq_ok] at h
  obtain ⟨_, hidentity, _, -, _, -, hrest⟩ := h
  push Not at hidentity
  obtain ⟨huid, hzone, -, hepoch, hrevision, -⟩ := hidentity
  cases hlive : m.tombstone with
  | true =>
    rw [hlive, if_pos rfl, failIf_eq_ok] at hrest
    exact absurd (.inl hchunks) hrest
  | false =>
    rw [hlive, if_neg (by decide)] at hrest
    simp only [bind_eq_ok, failIf_eq_ok, forEach_eq_ok] at hrest
    obtain ⟨_, -, hrefs⟩ := hrest
    refine ⟨⟨huid, hzone, hepoch, hrevision⟩, hlive, fun ref href => ?_⟩
    have hsorted : ref ∈ m.chunks.insertionSort (·.index ≤ ·.index) := (mem_insertionSort _).mpr href
    obtain ⟨i, hi, rfl⟩ := mem_iff_getElem.mp hsorted
    have hlength : i < m.chunks.length := by rwa [length_insertionSort] at hi
    have hzip : (i, (m.chunks.insertionSort (·.index ≤ ·.index))[i]) ∈
        (List.range m.chunks.length).zip (m.chunks.insertionSort (·.index ≤ ·.index)) := by
      refine mem_iff_getElem.mpr ⟨i, by simpa using hlength, ?_⟩
      simp
    have hvalid := hrefs _ hzip
    push Not at hvalid
    exact hvalid.2.2

/-- What `verifyChunk` accepts of a manifest: a chunk with a fresh index and its own hash. -/
theorem verifyChunk_eq_ok {byIndex : GoMap Int PublicationChunk} {c : PublicationChunk}
    (hvalid : c.validate E = .ok ())
    (hidentity : c.manifestUID = m.manifestUID ∧ c.zoneUID = m.zoneUID ∧
      c.writerEpoch = m.writerEpoch ∧ c.revision = m.revision)
    (hfresh : byIndex.lookup c.index = none) :
    verifyChunk E m byIndex c = .ok (byIndex.insert c.index c) := by
  obtain ⟨huid, hzone, hepoch, hrevision⟩ := hidentity
  unfold verifyChunk
  rw [hvalid]
  simp only [failIf, huid, hzone, hepoch, hrevision, hfresh, ne_eq, not_true_eq_false, or_self, if_false,
    Option.isSome_none, Bool.false_eq_true]
  rfl

/-- Chunks that belong to the manifest are all taken, whatever their order. -/
theorem loop_verifyChunk (hvalid : ∀ c ∈ chunks, c.validate E = .ok ())
    (hidentity : ∀ c ∈ chunks, c.manifestUID = m.manifestUID ∧ c.zoneUID = m.zoneUID ∧
      c.writerEpoch = m.writerEpoch ∧ c.revision = m.revision)
    (hdistinct : (chunks.map PublicationChunk.index).Nodup) :
    ∃ byIndex, loop (verifyChunk E m) ∅ chunks = .ok byIndex ∧
      ∀ c ∈ chunks, byIndex.lookup c.index = some c := by
  -- the map holds the chunks that were visited, and nothing else
  have hloop : ∃ byIndex, loop (verifyChunk E m) ∅ chunks = .ok byIndex ∧
      (∀ c ∈ chunks, byIndex.lookup c.index = some c) ∧
        ∀ i, byIndex.lookup i ≠ none → i ∈ chunks.map index := by
    refine loop_succeeds (P := fun done (byIndex : GoMap Int PublicationChunk) =>
      (∀ c ∈ done, byIndex.lookup c.index = some c) ∧
        ∀ i, byIndex.lookup i ≠ none → i ∈ done.map index)
      ⟨by simp, fun i hi => absurd (lookup_empty i) hi⟩ ?_
    rintro done c rest byIndex hsplit ⟨hfound, hknown⟩
    have hmem : c ∈ chunks := hsplit ▸ mem_append_right _ mem_cons_self
    have hnew : c.index ∉ done.map index := by
      rw [hsplit, map_append, map_cons] at hdistinct
      exact fun hin => (nodup_append.mp hdistinct).2.2 _ hin _ mem_cons_self rfl
    have hfresh : byIndex.lookup c.index = none := not_not.mp fun hi => hnew (hknown _ hi)
    refine ⟨_, verifyChunk_eq_ok (hvalid c hmem) (hidentity c hmem) hfresh, fun x hx => ?_, fun i hi => ?_⟩
    · rcases mem_append.mp hx with hx | hx
      · have hne : x.index ≠ c.index := fun heq => hnew (heq ▸ mem_map_of_mem hx)
        rw [lookup_insert_ne hne]
        exact hfound x hx
      · rw [mem_singleton.mp hx, lookup_insert]
    · rw [map_append, mem_append]
      by_cases hic : i = c.index
      · exact .inr (by simp [hic])
      · rw [lookup_insert_ne hic] at hi
        exact .inl (hknown i hi)
  obtain ⟨byIndex, hloop, hfound, -⟩ := hloop
  exact ⟨byIndex, hloop, hfound⟩

/-- The payloads are collected in the order of the references. -/
theorem collect_chunkPayload {p : PublicationHead} {byIndex : GoMap Int PublicationChunk} :
    ∀ parts : List (List UInt8 × Nat),
      (∀ piece ∈ parts, byIndex.lookup (piece.2 : Int) = some (p.wireChunk E piece)) →
      collect (chunkPayload byIndex) (parts.map (wireRef E)) = .ok (parts.map Prod.fst) := by
  intro parts
  induction parts with
  | nil => exact fun _ => rfl
  | cons piece parts ih =>
    intro hfound
    obtain ⟨hpiece, hparts⟩ := forall_mem_cons.mp hfound
    have hpayload : chunkPayload byIndex (wireRef E piece) = .ok piece.1 := by
      refine bind_eq_ok.mpr ⟨_, orError_eq_ok.mpr hpiece, bind_eq_ok.mpr ⟨(), ?_, rfl⟩⟩
      exact failIf_eq_ok.mpr (by simp [wireRef, PublicationHead.wireChunk])
    rw [map_cons, collect, hpayload, ih hparts]
    rfl

variable {p : PublicationHead} {payload : List UInt8} {hash : GoString} {size : Nat}

theorem persistPublication_eq_ok (h : persistPublication E p payload hash size = .ok (m, chunks)) :
    m.validate E = .ok () ∧
      m = ⟨p.name, p.zoneUID, p.apex, p.epoch, p.revision, p.previous, p.tombstone,
        (chunk payload size).zipIdx.map (wireRef E), hash, p.now⟩ ∧
      chunks = (chunk payload size).zipIdx.map (p.wireChunk E) := by
  unfold persistPublication at h
  simp only [bind_eq_ok] at h
  obtain ⟨⟨⟩, hvalid, heq⟩ := h
  obtain ⟨rfl, rfl⟩ := Prod.mk.inj (ok.inj heq)
  exact ⟨hvalid, rfl, rfl⟩

/-- The chunks of a publication are valid, and each has its own index. -/
theorem wireChunks_valid (hsize : 0 < size) (hname : p.name ≠ []) (hzone : p.zoneUID ≠ [])
    (hepoch : p.epoch ≠ 0) (hrevision : p.revision ≠ 0)
    (hrefs : ∀ ref ∈ (chunk payload size).zipIdx.map (wireRef E), validHash ref.sha256 = true) :
    ∀ c ∈ (chunk payload size).zipIdx.map (p.wireChunk E), c.validate E = .ok () := by
  intro c hc
  obtain ⟨piece, hpiece, rfl⟩ := mem_map.mp hc
  have hhash : validHash (E.hashBytes piece.1) = true := hrefs _ (mem_map_of_mem hpiece)
  have hne : piece.1 ≠ [] := chunk_ne_nil hsize (fst_mem_of_mem_zipIdx hpiece)
  unfold validate
  simp only [bind_eq_ok, failIf_eq_ok]
  refine ⟨(), ?_, ?_⟩
  · simp [PublicationHead.wireChunk, hname, hzone, hepoch, hrevision, hne, hhash]
  · simp [PublicationHead.wireChunk]

theorem wireChunks_distinct :
    (((chunk payload size).zipIdx.map (p.wireChunk E)).map PublicationChunk.index).Nodup := by
  have hindex : ((chunk payload size).zipIdx.map (p.wireChunk E)).map index =
      ((chunk payload size).zipIdx.map Prod.snd).map Nat.cast := by
    rw [map_map, map_map]
    rfl
  rw [hindex, zipIdx_map_snd]
  exact List.Nodup.map (fun _ _ => Int.ofNat_inj.mp) (nodup_range' ..)

/-- The bytes that a manifest gives have its content hash. -/
theorem verifyManifest_hash {bytes : List UInt8} (hlive : m.tombstone = false)
    (h : verifyManifest E m chunks = .ok bytes) : E.hashBytes bytes = m.contentHash := by
  unfold verifyManifest at h
  rw [hlive, if_neg (by decide)] at h
  simp only [bind_eq_ok, failIf_eq_ok] at h
  obtain ⟨_, -, _, -, byIndex, -, payloads, -, _, hhash, heq⟩ := h
  rw [← ok.inj heq]
  exact not_not.mp hhash

/-- A hash without collisions that is well formed for the pieces below. -/
def sampleHash (b : List UInt8) : GoString :=
  if b = [1] then List.replicate 64 'a'
  else if b = [2] then List.replicate 64 'b'
  else if b = [1, 2] then List.replicate 64 'c'
  else 'x' :: b.map Char.ofUInt8

theorem sampleHash_injective : Function.Injective sampleHash := by
  have hbyte : Function.Injective Char.ofUInt8 := by
    intro b c h
    have hval : b.toUInt32 = c.toUInt32 := congrArg Char.val h
    exact UInt8.toUInt32_inj.mp hval
  intro b c h
  unfold sampleHash at h
  split_ifs at h <;> simp_all [replicate_succ, (map_injective_iff.mpr hbyte).eq_iff]

/-- The libraries with that hash. -/
def sampleExternals : Externals := { Externals.reference with hashBytes := sampleHash }

def sampleHead : PublicationHead := ⟨lit "pub", lit "zone", lit "example.com.", 1, 1, 0, false, 1⟩

end Verify

end InternalDNS.Controlplane
