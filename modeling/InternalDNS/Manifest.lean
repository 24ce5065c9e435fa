import InternalDNS.Externals

/-! # Manifests and chunks

A publication travels as a manifest and the chunks it refers to.  The manifest can overtake its
chunks, and chunks of one manifest can be delivered again, so the payload is put together only
when the manifest is applied, and everything is checked against the manifest then.
-/
namespace InternalDNS

open Go

variable (E : Externals)

/-- `model.validHash`: 64 hexadecimal digits. -/
def validHash (s : GoString) : Bool := s.length = 64 && s.all fun c => (Addr.hexDigit c).isSome

/-- `PublicationManifest.Validate`. -/
def PublicationManifest.validate (m : PublicationManifest) : Except GoString Unit := do
  failIf (m.manifestUID = [] ∨ m.zoneUID = [] ∨ absoluteName E.cases m.apex = ['.'] ∨
      m.writerEpoch = 0 ∨ m.revision = 0 ∨ m.generatedAt = 0)
    (lit "publication manifest identity, zone, epoch, revision, and timestamp are required")
  failIf (m.previousRevision ≥ m.revision ∧ m.previousRevision ≠ 0)
    (lit "publication manifest previous revision must precede revision")
  failIf (¬ E.dns.isDomainName (absoluteName E.cases m.apex))
    (lit "publication manifest apex is invalid")
  if m.tombstone then
    failIf (m.chunks ≠ [] ∨ m.contentHash ≠ E.hashBytes [])
      (lit "tombstone must have no chunks and the empty content hash")
  else do
    failIf (m.chunks = [] ∨ ¬ validHash m.contentHash)
      (lit "non-tombstone manifest requires chunks and a SHA-256 content hash")
    forEach (fun (i, ref) =>
      failIf (ref.index ≠ (i : Int) ∨ ref.size ≤ 0 ∨ ¬ validHash ref.sha256)
        (lit "invalid chunk reference at ordered index " ++ itoa i))
      ((List.range m.chunks.length).zip (m.chunks.insertionSort (·.index ≤ ·.index)))

/-- `PublicationChunk.Validate`. -/
def PublicationChunk.validate (c : PublicationChunk) : Except GoString Unit := do
  failIf (c.manifestUID = [] ∨ c.zoneUID = [] ∨ c.writerEpoch = 0 ∨ c.revision = 0 ∨ c.index < 0 ∨
      c.payload = [] ∨ ¬ validHash c.sha256)
    (lit "publication chunk identity, revision, hash, and payload are required")
  failIf (E.hashBytes c.payload ≠ c.sha256) (lit "publication chunk SHA-256 mismatch")

/-- One chunk of a manifest; the accumulator is the chunks by index. -/
def verifyChunk (m : PublicationManifest) (byIndex : GoMap Int PublicationChunk)
    (c : PublicationChunk) : Except GoString (GoMap Int PublicationChunk) := do
  c.validate E
  failIf (c.manifestUID ≠ m.manifestUID ∨ c.zoneUID ≠ m.zoneUID ∨ c.writerEpoch ≠ m.writerEpoch ∨
      c.revision ≠ m.revision)
    (lit "chunk " ++ itoa c.index.toNat ++ lit " identity does not match manifest")
  failIf (byIndex.lookup c.index).isSome
    (lit "duplicate chunk index " ++ itoa c.index.toNat)
  .ok (byIndex.insert c.index c)

/-- The payload of the chunk that a reference names. -/
def chunkPayload (byIndex : GoMap Int PublicationChunk) (ref : ChunkRef) :
    Except GoString (List UInt8) := do
  let why := lit "chunk " ++ itoa ref.index.toNat ++ lit " is missing or differs from manifest"
  let c ← orError (byIndex.lookup ref.index) why
  failIf ((c.payload.length : Int) ≠ ref.size ∨ c.sha256 ≠ ref.sha256) why
  .ok c.payload

/-- `model.VerifyManifest`. -/
def verifyManifest (m : PublicationManifest) (chunks : List PublicationChunk) :
    Except GoString (List UInt8) := do
  m.validate E
  if m.tombstone then .ok []
  else do
    failIf (chunks.length ≠ m.chunks.length)
      (lit "manifest references " ++ itoa m.chunks.length ++ lit " chunks but " ++
        itoa chunks.length ++ lit " were supplied")
    let byIndex ← loop (verifyChunk E m) ∅ chunks
    let payloads ← collect (chunkPayload byIndex) m.chunks
    failIf (E.hashBytes payloads.flatten ≠ m.contentHash)
      (lit "publication content SHA-256 mismatch")
    .ok payloads.flatten

end InternalDNS
