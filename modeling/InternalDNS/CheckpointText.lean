import InternalDNS.Checkpoint
import InternalDNS.JSONStream

/-! # The text of a checkpoint

A checkpoint holds every publication of its agent, so it is never in memory as one text: the
publications and the staged chunks are written entry by entry behind the other fields, and read entry
by entry in the same way, whatever their place.  The other fields are collected and read at the end.

How the values themselves are written is up to `encoding/json`.  What is used of it is that it writes
one value, and reads that value as the same again.
-/
namespace InternalDNS

open Go Go.JSON Option

/-- The same configuration, whatever the order of its maps. -/
structure ActiveConfiguration.Same (a b : ActiveConfiguration) : Prop where
  snapshot : a.snapshot = b.snapshot
  publications : SameMap Eq a.publications b.publications
  files : SameMap Eq a.files b.files
  nodeAuthoritative : a.nodeAuthoritative = b.nodeAuthoritative

/-- `encoding/json` for the types that a checkpoint is made of. -/
structure CheckpointCodecs (S : Type) where
  active : Codec S ActiveConfiguration
  active_same : ∀ a b, active.same a b → a.Same b
  version : Exact S Nat
  fence : Exact S Fence
  snapshot : Exact S ServingSnapshot
  publication : Exact S PublicationState
  chunk : Exact S PublicationChunk
  ack : Exact S ReplicaAck
  bindingFence : Exact S BindingFence
  contributionFence : Exact S ContributionFence
  text : Exact S GoString
  time : Exact S Time

/-- The values of a checkpoint, each in one scalar. -/
inductive CheckpointScalar where
  | active (a : ActiveConfiguration)
  | version (n : Nat)
  | fence (f : Fence)
  | snapshot (s : ServingSnapshot)
  | publication (p : PublicationState)
  | chunk (c : PublicationChunk)
  | ack (a : ReplicaAck)
  | bindingFence (f : BindingFence)
  | contributionFence (f : ContributionFence)
  | text (s : GoString)
  | time (t : Time)

/-- The plainest way to write them. -/
def CheckpointCodecs.reference : CheckpointCodecs CheckpointScalar where
  active := (Exact.ofScalar .active (fun | .active a => some a | _ => none) fun _ => rfl).toCodec
  active_same a b h := by
    obtain rfl : a = b := h
    exact ⟨rfl, SameMap.refl _, SameMap.refl _, rfl⟩
  version := .ofScalar .version (fun | .version n => some n | _ => none) fun _ => rfl
  fence := .ofScalar .fence (fun | .fence f => some f | _ => none) fun _ => rfl
  snapshot := .ofScalar .snapshot (fun | .snapshot s => some s | _ => none) fun _ => rfl
  publication := .ofScalar .publication (fun | .publication p => some p | _ => none) fun _ => rfl
  chunk := .ofScalar .chunk (fun | .chunk c => some c | _ => none) fun _ => rfl
  ack := .ofScalar .ack (fun | .ack a => some a | _ => none) fun _ => rfl
  bindingFence := .ofScalar .bindingFence (fun | .bindingFence f => some f | _ => none) fun _ => rfl
  contributionFence :=
    .ofScalar .contributionFence (fun | .contributionFence f => some f | _ => none) fun _ => rfl
  text := .ofScalar .text (fun | .text s => some s | _ => none) fun _ => rfl
  time := .ofScalar .time (fun | .time t => some t | _ => none) fun _ => rfl

variable {S : Type} (J : CheckpointCodecs S)

/-- The fields of a checkpoint. -/
inductive CheckpointKey where
  | active
  | withdrawing
  | formatVersion
  | servingFence
  | snapshot
  | publications
  | chunks
  | acks
  | bindingFences
  | contributionFences
  | renderedHash
  | updatedAt
  deriving DecidableEq

def CheckpointKey.name : CheckpointKey → GoString
  | .active => lit "active"
  | .withdrawing => lit "withdrawing"
  | .formatVersion => lit "formatVersion"
  | .servingFence => lit "servingFence"
  | .snapshot => lit "snapshot"
  | .publications => lit "publications"
  | .chunks => lit "chunks"
  | .acks => lit "acks"
  | .bindingFences => lit "bindingFences"
  | .contributionFences => lit "contributionFences"
  | .renderedHash => lit "renderedHash"
  | .updatedAt => lit "updatedAt"

open CheckpointKey (name)

/-- The fields in the order of the struct. -/
def checkpointKeys : List CheckpointKey :=
  [.active, .withdrawing, .formatVersion, .servingFence, .snapshot, .publications, .chunks, .acks,
    .bindingFences, .contributionFences, .renderedHash, .updatedAt]

theorem mem_checkpointKeys (k : CheckpointKey) : k ∈ checkpointKeys := by
  cases k <;> decide

theorem CheckpointKey.name_inj {k k' : CheckpointKey} : k.name = k'.name ↔ k = k' := by
  have h : ∀ k ∈ checkpointKeys, ∀ k' ∈ checkpointKeys, k.name = k'.name → k = k' := by decide +kernel
  exact ⟨h k (mem_checkpointKeys k) k' (mem_checkpointKeys k'), congrArg _⟩

/-! ## Writing -/

variable (c : Checkpoint)

/-- The values of the fields, but for those that are left out.  Publications and chunks are nil when the
other fields are written. -/
def headValue : CheckpointKey → Option (List (Token S))
  | .active => c.active.map J.active.marshal
  | .withdrawing => c.withdrawing.map J.active.marshal
  | .formatVersion => some (J.version.marshal c.formatVersion)
  | .servingFence => some (J.fence.marshal c.servingFence)
  | .snapshot => c.snapshot.map J.snapshot.marshal
  | .publications | .chunks => none
  | .acks => some (J.ack.toCodec.map.map.marshal c.acks)
  | .bindingFences => some (J.bindingFence.toCodec.map.marshal c.bindingFences)
  | .contributionFences => some (J.contributionFence.toCodec.map.marshal c.contributionFences)
  | .renderedHash => if c.renderedHash = [] then none else some (J.text.marshal c.renderedHash)
  | .updatedAt => some (J.time.marshal c.updatedAt)

def headFields : List (JSON.Field S) :=
  checkpointKeys.filterMap fun k => (headValue J c k).map fun v => (k.name, v)

/-- `encodeMapField`. -/
def encodeMapField {V : Type} (C : Codec S V) (name : GoString) (m : GoMap GoString V) : List (Token S) :=
  [.comma, .string name, .colon, .openObject] ++ fieldTokens (mapFields C m) ++ [.closeObject]

/-- `encodeCheckpoint`. -/
def encodeCheckpoint : List (Token S) :=
  (objectOf (headFields J c)).dropLast ++
    encodeMapField J.publication.toCodec (name .publications) c.publications ++
    encodeMapField J.chunk.toCodec.map (name .chunks) c.chunks ++ [.closeObject]

/-! ## Reading -/

/-- What `decodeCheckpoint` has read so far. -/
structure CheckpointParts (S : Type) where
  publications : GoMap GoString PublicationState
  chunks : GoMap GoString (GoMap GoString PublicationChunk)
  head : GoMap GoString (List (Token S))

/-- One field of a checkpoint. -/
def readField : Reader S (CheckpointParts S) := fun key d parts =>
  if key = name .publications then do
    let (publications, d) ← decodeMapEntries (insertEntry J.publication.toCodec) d parts.publications
    .ok ({ parts with publications }, d)
  else if key = name .chunks then do
    let (chunks, d) ← decodeMapEntries (insertEntry J.chunk.toCodec.map) d parts.chunks
    .ok ({ parts with chunks }, d)
  else do
    let (raw, d) ← d.decode
    .ok ({ parts with head := parts.head.insert key raw }, d)

/-- A field that may be missing or null. -/
def readOptional {V : Type} (C : Codec S V) : Option (List (Token S)) → Except StreamError (Option V)
  | none | some [.null] => .ok none
  | some raw =>
    match C.unmarshal raw with
    | some v => .ok (some v)
    | none => .error .malformed

/-- A field that keeps its value if it is missing or null. -/
def readDefault {V : Type} (C : Codec S V) (raw : Option (List (Token S))) (v : V) :
    Except StreamError V :=
  (readOptional C raw).map fun o => o.getD v

/-- A checkpoint that was read; whether it has binding fences at all is checked afterwards. -/
structure DecodedCheckpoint where
  state : Checkpoint
  hasBindingFences : Bool

/-- `json.Unmarshal` of the collected fields into the state that `Load` starts from. -/
def unmarshalHead (parts : CheckpointParts S) : Except StreamError DecodedCheckpoint := do
  let raw := fun name : GoString => parts.head.lookup name
  let active ← readOptional J.active (raw (name .active))
  let withdrawing ← readOptional J.active (raw (name .withdrawing))
  let formatVersion ← readDefault J.version.toCodec (raw (name .formatVersion)) 0
  let servingFence ← readDefault J.fence.toCodec (raw (name .servingFence)) ⟨0, 0⟩
  let snapshot ← readOptional J.snapshot.toCodec (raw (name .snapshot))
  let acks ← readDefault J.ack.toCodec.map.map (raw (name .acks)) ∅
  let bindingFences ← readOptional J.bindingFence.toCodec.map (raw (name .bindingFences))
  let contributionFences ←
    readDefault J.contributionFence.toCodec.map (raw (name .contributionFences)) ∅
  let renderedHash ← readDefault J.text.toCodec (raw (name .renderedHash)) []
  let updatedAt ← readDefault J.time.toCodec (raw (name .updatedAt)) 0
  .ok
    { state :=
        { active, withdrawing, formatVersion, servingFence, snapshot, acks, contributionFences,
          renderedHash, updatedAt
          publications := parts.publications
          chunks := parts.chunks
          bindingFences := bindingFences.getD ∅ }
      hasBindingFences := bindingFences.isSome }

/-- `decodeCheckpoint`. -/
def decodeCheckpoint (input : List (Token S)) : Except StreamError DecodedCheckpoint := do
  let d ← (newDecoder input).expectDelim Token.opensObject
  let (parts, d) ← d.entries (readField J) ⟨∅, ∅, ∅⟩
  let d ← d.expectDelim Token.closesObject
  match d.token with
  | .error .eof => unmarshalHead J parts
  | _ => .error .malformed

/-- `stateStore.Load` of a file that exists. -/
def loadText (E : Externals) (input : List (Token S)) : Except GoString Checkpoint :=
  match decodeCheckpoint J input with
  | .error _ => .error (lit "decode checkpoint")
  | .ok decoded => do
    failIf (decoded.state.formatVersion ≠ checkpointFormatVersion)
      (lit "unsupported checkpoint format " ++ itoa decoded.state.formatVersion ++
        lit ": preserve the existing checkpoint; automatic backend or binding authority history " ++
        lit "migration is not supported")
    failIf (¬ decoded.hasBindingFences) (lit "checkpoint lacks required binding authority history")
    decoded.state.load E

/-- What `stateStore.Save` writes. -/
def savedText (now : Time) (c : Checkpoint) : List (Token S) :=
  encodeCheckpoint J { c.pruneSupersededChunks with updatedAt := now }

/-! ## What is written is read -/

/-- The text is one object: the fields that were written at once, and the two maps. -/
theorem encodeCheckpoint_eq : encodeCheckpoint J c = objectOf (headFields J c ++
      [(name .publications, objectOf (mapFields J.publication.toCodec c.publications)),
        (name .chunks, objectOf (mapFields J.chunk.toCodec.map c.chunks))]) := by
  have hne : headFields J c ≠ [] :=
    List.ne_nil_of_mem (List.mem_filterMap.mpr ⟨.formatVersion, by decide, rfl⟩)
  rw [objectOf, fieldTokens_append hne, encodeCheckpoint, objectOf, List.dropLast_concat]
  simp [encodeMapField, tailTokens, Field.tokens, objectOf]

/-- The fields that were read, by name. -/
def insertFields (head : GoMap GoString (List (Token S))) (fs : List (JSON.Field S)) :
    GoMap GoString (List (Token S)) :=
  fs.foldl (fun head f => head.insert f.1 f.2) head

/-- Every value is found under its name. -/
theorem lookup_insertFields {value : CheckpointKey → Option (List (Token S))} (k : CheckpointKey)
    (keys : List CheckpointKey) (head : GoMap GoString (List (Token S))) :
    (insertFields head (keys.filterMap fun k => (value k).map fun v => (k.name, v))).lookup k.name =
        if k ∈ keys then (value k).or (head.lookup k.name) else head.lookup k.name := by
  induction keys generalizing head with
  | nil => rfl
  | cons k' keys ih =>
    cases hvalue : value k' with
    | none =>
      rw [List.filterMap_cons_none (by rw [hvalue]; rfl), ih]
      by_cases hk : k = k'
      · subst hk
        simp [hvalue]
      · simp [hk]
    | some v =>
      rw [List.filterMap_cons_some (by rw [hvalue]; rfl), insertFields, List.foldl_cons,
        ← insertFields, ih]
      by_cases hk : k = k'
      · subst hk
        simp [hvalue]
      · rw [AList.lookup_insert_ne fun hname => hk (CheckpointKey.name_inj.mp hname)]
        simp [hk]

theorem isValue_of_headValue {c : Checkpoint} {k : CheckpointKey} {v : List (Token S)}
    (h : headValue J c k = some v) : IsValue v := by
  cases k <;> simp only [headValue, map_eq_some_iff, some.injEq, reduceCtorEq] at h
  case active | withdrawing | snapshot =>
    obtain ⟨x, -, rfl⟩ := h
    exact Codec.isValue _ x
  case renderedHash =>
    split_ifs at h
    rw [← some.inj h]
    exact Codec.isValue _ _
  all_goals
    rw [← h]
    exact Codec.isValue _ _

/-- The fields that are written at once are collected. -/
theorem readsAll_headFields (parts : CheckpointParts S) :
    ReadsAll (readField J) (headFields J c) parts
      { parts with head := insertFields parts.head (headFields J c) } := by
  have hfield : ∀ f ∈ headFields J c, f.1 ≠ name .publications ∧
      f.1 ≠ name .chunks ∧ IsValue f.2 := by
    intro f hf
    obtain ⟨k, -, hk⟩ := List.mem_filterMap.mp hf
    obtain ⟨v, hv, rfl⟩ := map_eq_some_iff.mp hk
    refine ⟨fun hname => ?_, fun hname => ?_, isValue_of_headValue J hv⟩
    · rw [CheckpointKey.name_inj.mp hname] at hv
      cases hv
    · rw [CheckpointKey.name_inj.mp hname] at hv
      cases hv
  generalize headFields J c = fs at hfield
  induction fs generalizing parts with
  | nil => exact .nil parts
  | cons f fs ih =>
    obtain ⟨⟨hpublications, hchunks, hvalue⟩, hfs⟩ := List.forall_mem_cons.mp hfield
    refine .cons (fun rest stack => ?_) (ih { parts with head := parts.head.insert f.1 f.2 } hfs)
    rw [readField, if_neg hpublications, if_neg hchunks, decode_value hvalue]
    rfl

theorem reads_publications {m n : GoMap GoString PublicationState} {parts : CheckpointParts S}
    (h : ReadsAll (insertEntry J.publication.toCodec) (mapFields J.publication.toCodec m)
      parts.publications n) :
    Reads (readField J) (name .publications, objectOf (mapFields J.publication.toCodec m)) parts
      { parts with publications := n } := by
  intro rest stack
  show (if name .publications = name .publications then _ else _) = _
  rw [if_pos rfl, decodeMapEntries_objectOf h]
  rfl

theorem reads_chunks {m n : GoMap GoString (GoMap GoString PublicationChunk)} {parts : CheckpointParts S}
    (h : ReadsAll (insertEntry J.chunk.toCodec.map) (mapFields J.chunk.toCodec.map m) parts.chunks n) :
    Reads (readField J) (name .chunks, objectOf (mapFields J.chunk.toCodec.map m)) parts
      { parts with chunks := n } := by
  intro rest stack
  have hkey : name .chunks ≠ name .publications := by
    decide
  show (if name .chunks = name .publications then _ else
    if name .chunks = name .chunks then _ else _) = _
  rw [if_neg hkey, if_pos rfl, decodeMapEntries_objectOf h]
  rfl

/-- A value that was written is read again. -/
theorem readOptional_marshal {V : Type} (C : Codec S V) (v : V) :
    readOptional C (some (C.marshal v)) = .ok (some (C.again v)) := by
  unfold readOptional
  split
  · contradiction
  next h => exact absurd (some.inj h) (C.notNull v)
  next raw _ h =>
    rw [← some.inj h, C.unmarshal_marshal]

theorem readOptional_map {V : Type} (C : Codec S V) (o : Option V) :
    readOptional C (o.map C.marshal) = .ok (o.map C.again) := by
  cases o with
  | none => rfl
  | some v => exact readOptional_marshal C v

theorem readDefault_marshal {V : Type} (C : Codec S V) (v w : V) :
    readDefault C (some (C.marshal v)) w = .ok (C.again v) := by
  rw [readDefault, readOptional_marshal]
  rfl

/-- The fields of a checkpoint are read under their names. -/
theorem unmarshalHead_headValue {parts : CheckpointParts S}
    (h : ∀ k : CheckpointKey, parts.head.lookup k.name = headValue J c k) :
    unmarshalHead J parts = .ok
      { state :=
          { active := c.active.map J.active.again
            withdrawing := c.withdrawing.map J.active.again
            formatVersion := c.formatVersion
            servingFence := c.servingFence
            snapshot := c.snapshot
            publications := parts.publications
            chunks := parts.chunks
            acks := J.ack.toCodec.map.map.again c.acks
            bindingFences := J.bindingFence.toCodec.map.again c.bindingFences
            contributionFences := J.contributionFence.toCodec.map.again c.contributionFences
            renderedHash := c.renderedHash
            updatedAt := c.updatedAt }
        hasBindingFences := true } := by
  have hhash : readDefault J.text.toCodec (headValue J c .renderedHash) [] = .ok c.renderedHash := by
    unfold headValue
    split_ifs with hempty
    · rw [hempty]
      rfl
    · rw [readDefault_marshal, J.text.again_eq]
  have hsnapshot : c.snapshot.map J.snapshot.again = c.snapshot := by
    rw [funext J.snapshot.again_eq]
    exact map_id'
  simp only [unmarshalHead, h, hhash]
  simp only [headValue, readOptional_map, readOptional_marshal, readDefault_marshal, J.version.again_eq,
    J.fence.again_eq, J.time.again_eq, hsnapshot]
  rfl

/-- The same checkpoint, whatever the order of its maps, but for the chunks. -/
structure Checkpoint.SameAs (d : Checkpoint) : Prop where
  active : Option.Rel ActiveConfiguration.Same c.active d.active
  withdrawing : Option.Rel ActiveConfiguration.Same c.withdrawing d.withdrawing
  formatVersion : c.formatVersion = d.formatVersion
  servingFence : c.servingFence = d.servingFence
  snapshot : c.snapshot = d.snapshot
  publications : SameMap Eq c.publications d.publications
  acks : SameMap (SameMap Eq) c.acks d.acks
  bindingFences : SameMap Eq c.bindingFences d.bindingFences
  contributionFences : SameMap Eq c.contributionFences d.contributionFences
  renderedHash : c.renderedHash = d.renderedHash

/-- **What is written is read again.** -/
theorem decodeCheckpoint_encodeCheckpoint :
    ∃ d, decodeCheckpoint J (encodeCheckpoint J c) = .ok ⟨d, true⟩ ∧ d.SameAs c ∧
      d.updatedAt = c.updatedAt ∧ SameMap (SameMap Eq) d.chunks c.chunks := by
  obtain ⟨publications, hpublications, hsame⟩ := readsAll_mapFields J.publication.toCodec c.publications
  obtain ⟨chunks, hchunks, hsame'⟩ := readsAll_mapFields J.chunk.toCodec.map c.chunks
  have hreads : ReadsAll (readField J) (headFields J c ++
      [(name .publications, objectOf (mapFields J.publication.toCodec c.publications)),
        (name .chunks, objectOf (mapFields J.chunk.toCodec.map c.chunks))]) ⟨∅, ∅, ∅⟩
      ⟨publications, chunks, insertFields ∅ (headFields J c)⟩ :=
    (readsAll_headFields J c ⟨∅, ∅, ∅⟩).append
      (.cons (reads_publications J hpublications) (.cons (reads_chunks J hchunks) (.nil _)))
  have hhead : ∀ k : CheckpointKey,
      (insertFields ∅ (headFields J c)).lookup k.name = headValue J c k := by
    intro k
    rw [headFields, lookup_insertFields, if_pos (mem_checkpointKeys k)]
    simp
  obtain ⟨d, hentries, hclose⟩ := entries_fields [] [] hreads .topValue
  have hdecode : decodeCheckpoint J (encodeCheckpoint J c) = unmarshalHead J
      ⟨publications, chunks, insertFields ∅ (headFields J c)⟩ := by
    have hopen : ∀ fs : List (JSON.Field S),
        (newDecoder (objectOf fs)).expectDelim Token.opensObject =
          .ok ⟨fieldTokens fs ++ [.closeObject], .objectStart, [.topValue]⟩ := fun fs => rfl
    rw [encodeCheckpoint_eq, decodeCheckpoint, hopen]
    show (Decoder.entries _ _ _ >>= fun p => p.2.expectDelim _ >>= fun d => _) = _
    rw [hentries]
    show (d.expectDelim _ >>= fun d => _) = _
    rw [hclose]
    rfl
  refine ⟨_, hdecode.trans (unmarshalHead_headValue J c hhead), ?_, rfl, ?_⟩
  · have hactive : ∀ o : Option ActiveConfiguration,
        Option.Rel ActiveConfiguration.Same (o.map J.active.again) o := fun o => by
      cases o with
      | none => exact .none
      | some a => exact .some (J.active_same _ _ (J.active.same_again a))
    exact
      { active := hactive c.active
        withdrawing := hactive c.withdrawing
        formatVersion := rfl
        servingFence := rfl
        snapshot := rfl
        publications := hsame.imp J.publication.exact
        acks := (J.ack.toCodec.map.map.same_again c.acks).imp fun m n h => SameMap.imp h J.ack.exact
        bindingFences := (J.bindingFence.toCodec.map.same_again c.bindingFences).imp J.bindingFence.exact
        contributionFences :=
          (J.contributionFence.toCodec.map.same_again c.contributionFences).imp J.contributionFence.exact
        renderedHash := rfl }
  · exact hsame'.imp fun m n h => SameMap.imp h J.chunk.exact

end InternalDNS
