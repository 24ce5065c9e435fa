import InternalDNS.Names
import InternalDNS.Wire

/-! # What the service takes from elsewhere

The functions of other libraries that the modelled code calls.  Everything proved about the
service holds for any of them; where a result rests on what such a function does, the
structure or the theorem says so.
-/
namespace InternalDNS

open Go

/-- The libraries below the service. -/
structure Externals where
  /-- The Unicode case tables. -/
  cases : CaseMap
  /-- The DNS library. -/
  dns : DNS.Lib
  /-- CoreDNS's `file.Parse` of the zone data at the origin, or its error. -/
  fileParse : (data origin : GoString) → Except GoString Unit
  /-- `model.Hash`, SHA-256 in hexadecimal. -/
  hash : GoString → GoString
  /-- `model.OpaqueToken`, the first 12 bytes of SHA-256 in hexadecimal. -/
  opaqueToken : GoString → GoString
  /-- `model.Hash` of bytes. -/
  hashBytes : List UInt8 → GoString
  /-- The JSON text of a plan. -/
  planJSON : PublicationPlan → GoString
  /-- The plan that a payload is the JSON text of. -/
  decodePlan : List UInt8 → Option PublicationPlan
  /-- The JSON text of a time. -/
  timeJSON : Time → GoString
  /-- How the runtime iterates over maps. -/
  mapOrder : GoMap.MapOrder
  /-- `validation.IsDNS1123Subdomain` finds nothing wrong. -/
  isDNS1123Subdomain : GoString → Bool
  isDNS1123Subdomain_plain : ∀ s, isDNS1123Subdomain s = true → isPlain s = true

/-- Libraries that behave as documented on ASCII, with a zone parser that takes everything.
Hashes are the hashed text itself. -/
def Externals.reference : Externals where
  cases := .ascii
  dns := .reference
  fileParse _ _ := .ok ()
  hash s := s
  opaqueToken s := s
  hashBytes bs := bs.flatMap fun b => (digits 16 2 b.toNat).map Nat.digitChar
  planJSON p := p.zoneUID
  decodePlan _ := none
  timeJSON _ := lit "\"2026-01-01T00:00:00Z\""
  mapOrder := .reference
  isDNS1123Subdomain s := isPlain s && s.length ≤ 253
  isDNS1123Subdomain_plain s h := (Bool.and_eq_true _ _ ▸ h).1

end InternalDNS
