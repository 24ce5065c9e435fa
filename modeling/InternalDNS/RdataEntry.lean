import InternalDNS.GoNetText
import InternalDNS.Objects
import InternalDNS.RdataName

/-! # Record entries on the command line

A record entry holds an owner name, a TTL and one optional value per record
type.  `render` is the presentation form that the command line prints of a
value, `key` the identity under which two values are the same record, and
`entryForAPI` and `entryFromAPI` convert between what a user writes and what
the API stores.  Strings are bytes, since a zone file may hold any.
-/
namespace InternalDNS.Rdata

open Go (Bytes CaseMap GoMap)
open Go.Bytes (lit byte ofText text toLower toUpper trimSpace)

structure MXRecordSpec where
  preference : UInt16
  exchange : Bytes
deriving DecidableEq

structure SRVRecordSpec where
  priority : UInt16
  weight : UInt16
  port : UInt16
  target : Bytes
deriving DecidableEq

structure CAARecordSpec where
  flag : UInt8
  tag : Bytes
  value : Bytes
deriving DecidableEq

structure TLSARecordSpec where
  usage : UInt8
  selector : UInt8
  matchingType : UInt8
  certData : Bytes
deriving DecidableEq

/-- `HTTPSRecordSpec`, the value of HTTPS and SVCB records. -/
structure HTTPSRecordSpec where
  priority : UInt16
  target : Bytes
  params : GoMap Bytes Bytes
deriving DecidableEq

structure SOARecordSpec where
  mname : Bytes
  rname : Bytes
  serial : UInt32
  refresh : UInt32
  retry : UInt32
  expire : UInt32
  ttl : UInt32
deriving DecidableEq

/-- `v1alpha1.RecordEntry`.  A value that consists of its content only is that content. -/
structure Entry where
  name : Bytes
  ttl : Option Int := none
  a : Option Bytes := none
  aaaa : Option Bytes := none
  cname : Option Bytes := none
  alias_ : Option Bytes := none
  ns : Option Bytes := none
  txt : Option Bytes := none
  soa : Option SOARecordSpec := none
  caa : Option CAARecordSpec := none
  mx : Option MXRecordSpec := none
  srv : Option SRVRecordSpec := none
  tlsa : Option TLSARecordSpec := none
  https : Option HTTPSRecordSpec := none
  svcb : Option HTTPSRecordSpec := none
  ptr : Option Bytes := none
deriving DecidableEq

/-- `IsSingleValued`: one value per owner name. -/
def isSingleValued : RRType → Bool
  | .CNAME | .ALIAS | .SOA => true
  | _ => false

/-- `sortedKeys`.  Strings are compared byte by byte. -/
def sortedKeys (m : GoMap Bytes Bytes) : List Bytes :=
  m.keys.insertionSort fun k l => text k ≤ text l

/-- A number in a formatted text. -/
def decimalText (n : Nat) : Bytes := ofText (Go.itoa n)

/-! ## Presentation form -/

def soaDefaultRefresh : UInt32 := 10800
def soaDefaultRetry : UInt32 := 3600
def soaDefaultExpire : UInt32 := 604800
def soaDefaultMinimum : UInt32 := 3600

def orDefault (v default : UInt32) : UInt32 := if v = 0 then default else v

/-- `qualify`: a target is completed by a dot and nothing else. -/
def qualify (s : Bytes) : Bytes :=
  let s := trimSpace s
  if s = [] ∨ [byte '.'] <:+ s then s else s ++ [byte '.']

/-- `soaSerial`.  `today` is the date as eight digits. -/
def soaSerial (today : Bytes) (serial : UInt32) : Bytes :=
  if serial ≠ 0 then decimalText serial.toNat else today ++ lit "01"

/-- `svcbFlagKeys`. -/
def svcbFlagKey (k : Bytes) : Bool := k = lit "no-default-alpn"

/-- `svcbUnquotedCSV`. -/
def svcbUnquotedCSV (k : Bytes) : Bool :=
  k ∈ [lit "alpn", lit "ipv4hint", lit "ipv6hint", lit "port"]

def svcbKeyRank (k : Bytes) : Nat :=
  if k = lit "alpn" then 10
  else if k = lit "no-default-alpn" then 20
  else if k = lit "port" then 30
  else if k = lit "esnikeys" ∨ k = lit "ech" then 40
  else if k = lit "ipv4hint" then 50
  else if k = lit "ipv6hint" then 60
  else 1000

/-- One service parameter, nothing when it has no value to show. -/
def renderSVCBParam (m : GoMap Bytes Bytes) (k : Bytes) : Option Bytes :=
  let v := trimSpace ((m.lookup k).getD [])
  if svcbFlagKey k then some k
  else if v = [] then none
  else if svcbUnquotedCSV k then some (k ++ lit "=" ++ v)
  else some (k ++ lit "=" ++ quoteTXT v)

def renderSVCBParams (m : GoMap Bytes Bytes) : Bytes :=
  -- sorted by name, then stably by rank
  let keys := (sortedKeys m).insertionSort fun k l => svcbKeyRank k ≤ svcbKeyRank l
  [byte ' '].intercalate (keys.filterMap (renderSVCBParam m))

def renderSVCB (s : HTTPSRecordSpec) : Bytes :=
  let t := trimSpace s.target
  let t := if t = [byte '.'] then t else if t = [] then [byte '.'] else qualify t
  let head := decimalText s.priority.toNat ++ lit " " ++ t
  -- the alias form carries no parameters
  if s.priority = 0 then head
  else if renderSVCBParams s.params = [] then head
  else head ++ lit " " ++ renderSVCBParams s.params

/-- `Render`: the presentation form of the value of type `t`, empty where there is none. -/
def render (today : Bytes) (t : RRType) (e : Entry) : Bytes :=
  let number (n : Nat) : Bytes := decimalText n ++ lit " "
  match t with
  | .A => e.a.elim [] trimSpace
  | .AAAA => e.aaaa.elim [] trimSpace
  | .CNAME => e.cname.elim [] qualify
  | .ALIAS => e.alias_.elim [] qualify
  | .NS => e.ns.elim [] qualify
  | .PTR => e.ptr.elim [] qualify
  | .TXT => e.txt.elim [] renderTXT
  | .MX => e.mx.elim [] fun v => number v.preference.toNat ++ qualify v.exchange
  | .SRV => e.srv.elim [] fun v =>
      number v.priority.toNat ++ number v.weight.toNat ++ number v.port.toNat ++ qualify v.target
  | .CAA => e.caa.elim [] fun v =>
      number v.flag.toNat ++ v.tag ++ lit " " ++ quoteTXT v.value
  | .TLSA => e.tlsa.elim [] fun v =>
      number v.usage.toNat ++ number v.selector.toNat ++ number v.matchingType.toNat ++ v.certData
  | .HTTPS => e.https.elim [] renderSVCB
  | .SVCB => e.svcb.elim [] renderSVCB
  | .SOA => e.soa.elim [] fun v =>
      qualify v.mname ++ lit " " ++ qualify v.rname ++ lit " " ++ soaSerial today v.serial ++
        lit " " ++ number (orDefault v.refresh soaDefaultRefresh).toNat ++
        number (orDefault v.retry soaDefaultRetry).toNat ++
        number (orDefault v.expire soaDefaultExpire).toNat ++
        decimalText (orDefault v.ttl soaDefaultMinimum).toNat

/-! ## Identity of a value -/

section

variable (U : CaseMap)

def canonHost (s : Bytes) : Bytes :=
  let s := toLower U (trimSpace s)
  if s = [byte '.'] then s else trimDot s

/-- `canonIP`: the canonical text of an address, and the folded text of what is none. -/
def canonIP (s : Bytes) : Bytes :=
  match Go.Addr.parseAddr (text (trimSpace s)) with
  | some addr => ofText addr.string
  | none => toLower U (trimSpace s)

def svcbKey (s : HTTPSRecordSpec) : Bytes :=
  let target := canonHost U s.target
  let target := if target = [] then [byte '.'] else target
  let params := (sortedKeys s.params).flatMap fun k =>
    lit "|" ++ k ++ lit "=" ++ trimSpace ((s.params.lookup k).getD [])
  decimalText s.priority.toNat ++ lit "|" ++ target ++ if s.priority ≠ 0 then params else []

/-- `Key`: the identity of the value of type `t`, whatever the owner name and the TTL; empty where
there is no value. -/
def key (t : RRType) (e : Entry) : Bytes :=
  let number (n : Nat) : Bytes := decimalText n ++ lit "|"
  match t with
  | .A => e.a.elim [] fun v => lit "A|" ++ canonIP U v
  | .AAAA => e.aaaa.elim [] fun v => lit "AAAA|" ++ canonIP U v
  | .CNAME => e.cname.elim [] fun v => lit "CNAME|" ++ canonHost U v
  | .ALIAS => e.alias_.elim [] fun v => lit "ALIAS|" ++ canonHost U v
  | .NS => e.ns.elim [] fun v => lit "NS|" ++ canonHost U v
  | .PTR => e.ptr.elim [] fun v => lit "PTR|" ++ canonHost U v
  | .TXT => e.txt.elim [] fun v => lit "TXT|" ++ txtLogical v
  | .MX => e.mx.elim [] fun v =>
      lit "MX|" ++ number v.preference.toNat ++ canonHost U v.exchange
  | .SRV => e.srv.elim [] fun v =>
      lit "SRV|" ++ number v.priority.toNat ++ number v.weight.toNat ++ number v.port.toNat ++
        canonHost U v.target
  | .CAA => e.caa.elim [] fun v =>
      lit "CAA|" ++ number v.flag.toNat ++ toLower U v.tag ++ lit "|" ++ v.value
  | .TLSA => e.tlsa.elim [] fun v =>
      lit "TLSA|" ++ number v.usage.toNat ++ number v.selector.toNat ++
        number v.matchingType.toNat ++ toUpper U (trimSpace v.certData)
  | .HTTPS => e.https.elim [] fun v => lit "HTTPS|" ++ svcbKey U v
  | .SVCB => e.svcb.elim [] fun v => lit "SVCB|" ++ svcbKey U v
  | .SOA => e.soa.elim [] fun v =>
      lit "SOA|" ++ canonHost U v.mname ++ lit "|" ++ canonHost U v.rname ++ lit "|" ++
        number (orDefault v.refresh soaDefaultRefresh).toNat ++
        number (orDefault v.retry soaDefaultRetry).toNat ++
        number (orDefault v.expire soaDefaultExpire).toNat ++
        decimalText (orDefault v.ttl soaDefaultMinimum).toNat

/-- `Equal`: the same value.  What has no value equals nothing. -/
def equal (t : RRType) (e f : Entry) : Bool := key U t e ≠ [] && key U t e = key U t f

end

/-! ## The form that the API stores -/

/-- `EntryForAPI`: TXT data is stored in wire form. -/
def entryForAPI (t : RRType) (e : Entry) : Entry :=
  if t = .TXT then { e with txt := e.txt.map renderTXT } else e

/-- `EntryFromAPI`: TXT data is held as the string it encodes. -/
def entryFromAPI (t : RRType) (e : Entry) : Entry :=
  if t = .TXT then { e with txt := e.txt.map txtLogical } else e

variable (t : RRType) (e : Entry)

@[simp] theorem entryForAPI_name : (entryForAPI t e).name = e.name := by
  rw [entryForAPI]
  split <;> rfl

@[simp] theorem entryFromAPI_name : (entryFromAPI t e).name = e.name := by
  rw [entryFromAPI]
  split <;> rfl

@[simp] theorem entryFromAPI_ttl : (entryFromAPI t e).ttl = e.ttl := by
  rw [entryFromAPI]
  split <;> rfl

end InternalDNS.Rdata
