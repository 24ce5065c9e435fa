import InternalDNS.RdataEntry
import InternalDNS.RdataTTL

/-! # Validation of record entries

The API server admits an entry whose value does not match its record type, and
the backend then skips it without a word.  The command line refuses such an
entry before it is written, together with everything else the backend would
drop or reject: `validateInZone` checks one entry, `validateEntriesInZone` the
rules that hold across the entries of an owner name.
-/
namespace InternalDNS.Rdata

open Go (Bytes CaseMap GoMap)
open Go.Bytes (lit byte ofText text toLower trimSpace)

/-! ## Host names -/

/-- The labels of a name, cut at its unescaped dots.  `b` is the label being read. -/
def splitLabels : (b name : Bytes) → List Bytes
  | b, [] => [b]
  | b, [c] => if c = byte '.' then [b, []] else [b ++ [c]]
  | b, c :: d :: rest =>
    if c = byte '\\' then splitLabels (b ++ [c, d]) rest
    else if c = byte '.' then b :: splitLabels [] (d :: rest)
    else splitLabels (b ++ [c]) (d :: rest)

/-- `splitDNSLabels`. -/
def splitDNSLabels (name : Bytes) : List Bytes := splitLabels [] name

/-- The text in front of a complaint about a field. -/
def complaint (field whole : Bytes) (what : String) : Bytes :=
  field ++ lit " " ++ quoteStr whole ++ lit what

/-- One unescaped byte of a label. -/
def checkLabelByte (field whole : Bytes) (underscores : Bool) (c : UInt8) : Except Error Unit := do
  refuse (c = byte '_' ∧ underscores = false)
    { msg := complaint field whole " contains an underscore, which is not allowed in a host name"
      fix := lit "only CNAME, ALIAS, PTR and SRV targets may contain underscores" }
  refuse (¬ ((byte 'a' ≤ c ∧ c ≤ byte 'z') ∨ (byte 'A' ≤ c ∧ c ≤ byte 'Z') ∨
      (byte '0' ≤ c ∧ c ≤ byte '9') ∨ c = byte '-' ∨ c = byte '_'))
    { msg := complaint field whole " contains an invalid character " ++
        quoteStr (Go.Bytes.encode [Go.Bytes.char c]) }

/-- The bytes of a label.  A backslash stands for the byte after it, whatever that is. -/
def checkLabelBytes (field whole : Bytes) (underscores : Bool) : Bytes → Except Error Unit
  | [] => .ok ()
  | [c] => checkLabelByte field whole underscores c
  | c :: d :: rest =>
    if c = byte '\\' then checkLabelBytes field whole underscores rest
    else do
      checkLabelByte field whole underscores c
      checkLabelBytes field whole underscores (d :: rest)

def checkLabel (field whole : Bytes) (underscores : Bool) (label : Bytes) : Except Error Unit := do
  refuse (label = []) { msg := complaint field whole " has an empty label" }
  refuse (63 < label.length)
    { msg := complaint field whole " has a label longer than 63 characters" }
  refuse (label.head? = some (byte '-') ∨ label.getLast? = some (byte '-'))
    { msg := complaint field whole " has a label that starts or ends with a hyphen" }
  checkLabelBytes field whole underscores label

def checkHostname (field h : Bytes) (underscores : Bool) : Except Error Unit := do
  refuse (h = []) { msg := field ++ lit " must not be empty" }
  let name := trimDot h
  refuse (name = [])
    { msg := complaint field h " is the DNS root, which is not a valid host name here" }
  refuse (maxNameLength < name.length)
    { msg := complaint field h " is " ++ decimalText name.length ++
        lit " characters, the maximum is 253" }
  Go.forEach (checkLabel field h underscores) (splitDNSLabels name)

variable (U : CaseMap)

/-- `requireFQDN`: the trailing dot of a target. -/
def requireFQDN (field value zone : Bytes) : Except Error Unit :=
  let lead := lit "targets are absolute, not zone-relative — "
  refuse (¬ [byte '.'] <:+ value)
    { msg := complaint field value " is not a fully qualified domain name"
      fix :=
        if 1 < (splitDNSLabels value).length then
          lead ++ lit "did you mean " ++ quoteStr (value ++ [byte '.']) ++ lit "?"
        else if zone ≠ [] then
          lead ++ lit "did you mean " ++
            quoteStr (value ++ lit "." ++ trimDot (toLower U zone) ++ lit ".") ++ lit "?"
        else lead ++ lit "add a trailing dot" }

def checkTargetHost (field value zone : Bytes) (underscores allowRoot : Bool) :
    Except Error Unit := do
  let v := trimSpace value
  refuse (v = []) { msg := field ++ lit " must not be empty" }
  refuse (v = [byte '@'])
    { msg := field ++ lit " may not be " ++ quoteStr v ++
        lit " — the zone apex has no shorthand inside rdata"
      fix := lit "write the target out in full, as in \"example.com.\"" }
  if v = [byte '.'] then
    refuse (allowRoot = false) { msg := field ++ lit " may not be the DNS root " ++ quoteStr v }
  else
    checkHostname field v underscores
    requireFQDN U field v zone

/-! ## Values -/

def checkIPv4 (v : Bytes) : Except Error Unit :=
  let is4 := match Go.Addr.parseAddr (text v) with
    | some (.v4 _) => true
    | _ => false
  refuse (is4 = false)
    { msg := quoteStr v ++ lit " is not a valid IPv4 address"
      fix := lit "an A record holds a single IPv4 address, as in \"203.0.113.10\"" }

def checkIPv6 (v : Bytes) : Except Error Unit :=
  let is6 := match Go.Addr.parseAddr (text v) with
    | some (.v6 _ zone) => zone = []
    | _ => false
  refuse (is6 = false)
    { msg := quoteStr v ++ lit " is not a valid IPv6 address"
      fix := lit "an AAAA record holds a single IPv6 address, as in \"2001:db8::1\"" }

def maxTXTLength : Nat := 2048

/-- `validateTXT`: the length is that of the data, not of the form it is written in. -/
def validateTXT (raw : Bytes) : Except Error Unit := do
  let content := txtLogical raw
  refuse (content = []) { msg := lit "TXT data must not be empty" }
  refuse (maxTXTLength < content.length)
    { msg := lit "TXT data is " ++ decimalText content.length ++
        lit " bytes, the maximum is 2048" }

/-- `caaTagPattern`, `^[a-z0-9]+$`. -/
def caaTagPattern (tag : Bytes) : Bool :=
  tag ≠ [] && tag.all fun c => (byte 'a' ≤ c && c ≤ byte 'z') || (byte '0' ≤ c && c ≤ byte '9')

def validateCAA (c : CAARecordSpec) : Except Error Unit := do
  refuse (c.tag = []) { msg := lit "CAA tag must not be empty" }
  refuse (caaTagPattern c.tag = false)
    { msg := lit "CAA tag " ++ quoteStr c.tag ++ lit " must match [a-z0-9]+"
      fix := lit ("tags are lowercase letters and digits, usually \"issue\", \"issuewild\" or " ++
        "\"iodef\"") }
  refuse (trimSpace c.value = []) { msg := lit "CAA value must not be empty" }
  refuse (byte '"' ∈ c.value ∨ byte '\n' ∈ c.value ∨ byte '\\' ∈ c.value)
    { msg := lit "CAA value " ++ quoteStr c.value ++
        lit (" contains a quote, newline or backslash, which the DNS backend cannot encode") }

/-- `hexPattern`, `^[0-9A-Fa-f]+$`. -/
def hexPattern (s : Bytes) : Bool :=
  s ≠ [] && s.all fun c => (byte '0' ≤ c && c ≤ byte '9') || (byte 'A' ≤ c && c ≤ byte 'F') ||
    (byte 'a' ≤ c && c ≤ byte 'f')

def validateTLSA (t : TLSARecordSpec) : Except Error Unit := do
  let field (name : String) (n : UInt8) : Bytes :=
    lit "TLSA " ++ lit name ++ lit " " ++ decimalText n.toNat ++ lit " is out of range"
  refuse (3 < t.usage)
    { msg := field "usage" t.usage
      fix := lit "usage is 0 (PKIX-TA), 1 (PKIX-EE), 2 (DANE-TA) or 3 (DANE-EE)" }
  refuse (1 < t.selector)
    { msg := field "selector" t.selector
      fix := lit "selector is 0 (full certificate) or 1 (subject public key info)" }
  refuse (2 < t.matchingType)
    { msg := field "matching type" t.matchingType
      fix := lit "matching type is 0 (exact), 1 (SHA-256) or 2 (SHA-512)" }
  refuse (t.certData = []) { msg := lit "TLSA certificate data must not be empty" }
  refuse (hexPattern t.certData = false)
    { msg := lit "TLSA certificate data " ++ quoteStr t.certData ++ lit " is not hexadecimal" }
  refuse (t.certData.length % 2 ≠ 0)
    { msg := lit "TLSA certificate data has an odd number of hex digits (" ++
        decimalText t.certData.length ++ lit ")" }
  refuse (t.matchingType = 1 ∧ t.certData.length ≠ 64)
    { msg := lit "TLSA matching type 1 needs a SHA-256 digest, got " ++
        decimalText t.certData.length ++ lit " hex digits"
      fix := lit "a SHA-256 digest is 64 hex digits" }
  refuse (t.matchingType = 2 ∧ t.certData.length ≠ 128)
    { msg := lit "TLSA matching type 2 needs a SHA-512 digest, got " ++
        decimalText t.certData.length ++ lit " hex digits"
      fix := lit "a SHA-512 digest is 128 hex digits" }

variable (t : RRType)

/-- `string(t)`. -/
def typeText : Bytes := ofText t.text

/-- The checks of one service parameter. -/
def validateSVCBParam (params : GoMap Bytes Bytes) (k : Bytes) :
    Except Error Unit := do
  let v := (params.lookup k).getD []
  refuse (k ≠ toLower U k)
    { msg := typeText t ++ lit " parameter key " ++ quoteStr k ++ lit " must be lowercase" }
  refuse (byte ' ' ∈ v ∨ byte '\t' ∈ v ∨ byte '\n' ∈ v)
    { msg := typeText t ++ lit " parameter " ++ quoteStr k ++
        lit " has a value containing whitespace"
      fix := lit "parameter values are written without spaces, as in \"alpn=h3,h2\"" }
  refuse (svcbFlagKey k = false ∧ trimSpace v = [])
    { msg := typeText t ++ lit " parameter " ++ quoteStr k ++ lit " has no value"
      fix := lit "write it as " ++ quoteStr (k ++ lit "=value") ++ lit ", or drop it" }

def validateSVCB (t : RRType) (s : HTTPSRecordSpec) (zone : Bytes) : Except Error Unit := do
  let target := trimSpace s.target
  refuse (target = [])
    { msg := typeText t ++ lit " target must not be empty"
      fix := lit "use \".\" for service mode at this owner name, or a fully qualified target" }
  if target ≠ [byte '.'] then
    checkHostname (typeText t ++ lit " target") target true
    requireFQDN U (typeText t ++ lit " target") target zone
  if s.priority = 0 then
    refuse (target = [byte '.'])
      { msg := typeText t ++ lit (" priority 0 selects alias mode, which needs a real target " ++
          "rather than \".\"")
        fix := lit "give the alias target, or use a priority of 1 or more for service mode" }
    refuse (s.params.keys ≠ [])
      { msg := typeText t ++ lit " priority 0 selects alias mode, which carries no parameters — " ++
          (lit ", ").intercalate (sortedKeys s.params) ++ lit " would be discarded"
        fix := lit "drop the parameters, or use a priority of 1 or more for service mode" }
  else Go.forEach (validateSVCBParam U t s.params) (sortedKeys s.params)

def validateSOA (s : SOARecordSpec) (zone : Bytes) : Except Error Unit := do
  checkTargetHost U (lit "SOA mname") s.mname zone false false
  let rname := trimSpace s.rname
  refuse (rname = []) { msg := lit "SOA rname must not be empty" }
  refuse (byte '@' ∈ rname)
    { msg := lit "SOA rname " ++ quoteStr s.rname ++ lit " contains \"@\""
      fix := lit ("write the address in dot notation — \"admin@example.com\" becomes " ++
        "\"admin.example.com.\"") }
  checkHostname (lit "SOA rname") rname true
  refuse ((splitDNSLabels (trimDot rname)).length < 3)
    { msg := lit "SOA rname " ++ quoteStr s.rname ++ lit " is not a mailbox address"
      fix := lit "it is a mailbox in dot notation, as in \"hostmaster.example.com.\"" }
  requireFQDN U (lit "SOA rname") rname zone

/-! ## Entries -/

/-- The value of a type is set. -/
def Entry.has (e : Entry) : RRType → Bool
  | .A => e.a.isSome
  | .AAAA => e.aaaa.isSome
  | .ALIAS => e.alias_.isSome
  | .CNAME => e.cname.isSome
  | .TXT => e.txt.isSome
  | .MX => e.mx.isSome
  | .SRV => e.srv.isSome
  | .CAA => e.caa.isSome
  | .NS => e.ns.isSome
  | .SOA => e.soa.isSome
  | .PTR => e.ptr.isSome
  | .TLSA => e.tlsa.isSome
  | .HTTPS => e.https.isSome
  | .SVCB => e.svcb.isSome

/-- `SupportedTypes`, in the order of the API. -/
def supportedTypes : List RRType :=
  [.A, .AAAA, .ALIAS, .CNAME, .TXT, .MX, .SRV, .CAA, .NS, .SOA, .PTR, .TLSA, .HTTPS, .SVCB]

/-- `setFields`: the types whose value is set. -/
def setFields (e : Entry) : List RRType := supportedTypes.filter e.has

/-- `jsonFieldFor`: the name of the field is that of the type in small letters. -/
def jsonFieldFor : Bytes := (typeText t).map Go.Bytes.lowerByte

/-- `validateName`: the owner name, as the backend will read it when the zone is known. -/
def validateName (name zone : Bytes) : Except Error Unit := do
  refuse (name = [])
    { msg := lit "record name is empty", fix := lit "use \"@\" for the zone apex" }
  let apex ←
    if zone ≠ [] then do
      let (norm, warns) ← normalizeNameWithWarnings U name zone
      refuse (warns ≠ [])
        { msg := lit "record name " ++ quoteStr name ++ lit " is outside zone " ++ quoteStr zone
          fix := lit "remove it, or use a name inside " ++ quoteStr (trimDot (toLower U zone)) ++
            lit (" — the DNS backend rejects the entire record set when one name is out of " ++
              "zone") }
      pure (isApex norm)
    else do
      refuse (namePattern name = false)
        { msg := lit "record name " ++ quoteStr name ++ lit " is not a valid owner name" }
      if isApex name = false then checkOwnerLabels name (trimDot name)
      pure (isApex name)
  refuse (t = .CNAME ∧ apex = true)
    { msg := lit "a CNAME record may not exist at the zone apex"
      fix := lit "use an ALIAS record, which resolves at the apex the way a CNAME cannot" }
  refuse (t = .SOA ∧ apex = false)
    { msg := lit "an SOA record may not exist at " ++ quoteStr name
      fix := lit "use \"@\" — a zone has exactly one SOA, at its apex" }

/-- `validateTTL`. -/
def validateTTL : Option Int → Except Error Unit
  | none => .ok ()
  | some ttl =>
    checkTTLRange ttl ((if ttl < 0 then lit "-" else []) ++ decimalText ttl.natAbs)

/-- `validateTypedField`: the value of the type is set, and no other. -/
def validateTypedField (e : Entry) : Except Error Unit :=
  let record := lit "record " ++ quoteStr e.name ++ lit " of type " ++ typeText t
  match setFields e with
  | [] => .error
      { msg := record ++ lit " has no " ++ typeText t ++ lit " value"
        fix := lit "set the " ++ quoteStr (jsonFieldFor t) ++
          lit " field, or change the record type to match the value you have" }
  | [f] => refuse (f ≠ t)
      { msg := record ++ lit " carries " ++ typeText f ++
          lit " data, which the DNS backend silently discards"
        fix := lit "the value must match the record type — either write it as " ++ typeText t ++
          lit " data, or create it as a " ++ typeText f ++ lit " record instead" }
  | fs => .error
      { msg := record ++ lit " sets " ++ decimalText fs.length ++
          lit " type-specific fields (" ++ (lit ", ").intercalate (fs.map jsonFieldFor) ++ lit ")"
        fix := lit "a record entry holds exactly one value — set only " ++
          quoteStr (jsonFieldFor t) }

/-- `validateValue`.  The value of the type is set by now. -/
def validateValue (t : RRType) (e : Entry) (zone : Bytes) : Except Error Unit :=
  let ok : Except Error Unit := .ok ()
  match t with
  | .A => e.a.elim ok fun v => checkIPv4 (trimSpace v)
  | .AAAA => e.aaaa.elim ok fun v => checkIPv6 (trimSpace v)
  | .CNAME => e.cname.elim ok fun v => checkTargetHost U (lit "CNAME target") v zone true false
  | .ALIAS => e.alias_.elim ok fun v => checkTargetHost U (lit "ALIAS target") v zone true false
  | .NS => e.ns.elim ok fun v => checkTargetHost U (lit "NS content") v zone false false
  | .PTR => e.ptr.elim ok fun v => checkTargetHost U (lit "PTR content") v zone true false
  | .TXT => e.txt.elim ok validateTXT
  | .MX => e.mx.elim ok fun v =>
      if trimSpace v.exchange = [byte '.'] then
        refuse (v.preference ≠ 0)
          { msg := lit ("MX exchange \".\" declares that the domain accepts no mail, so its " ++
              "preference must be 0, not ") ++ decimalText v.preference.toNat
            fix := lit "a null MX is written \"0 .\"" }
      else checkTargetHost U (lit "MX exchange") v.exchange zone false false
  | .SRV => e.srv.elim ok fun v => checkTargetHost U (lit "SRV target") v.target zone true true
  | .CAA => e.caa.elim ok validateCAA
  | .TLSA => e.tlsa.elim ok validateTLSA
  | .HTTPS => e.https.elim ok fun v => validateSVCB U t v zone
  | .SVCB => e.svcb.elim ok fun v => validateSVCB U t v zone
  | .SOA => e.soa.elim ok fun v => validateSOA U v zone

/-- `ValidateInZone`. -/
def validateInZone (t : RRType) (e : Entry) (zone : Bytes) : Except Error Unit := do
  validateName U t e.name zone
  validateTTL e.ttl
  validateTypedField t e
  validateValue U t e zone

/-- `Validate`. -/
def validate (t : RRType) (e : Entry) : Except Error Unit := validateInZone U t e []

/-- The entries of the owners seen so far: how many, and the keys of their values. -/
abbrev Owners := GoMap Bytes (Nat × List Bytes)

/-- The rules across the entries of an owner name. -/
def checkOwners (today : Bytes) (t : RRType) (zone : Bytes) :
    Owners → List Entry → Except Error Unit
  | _, [] => .ok ()
  | owners, e :: rest => do
    let owner := fqdn U e.name zone
    let (count, seen) := (owners.lookup owner).getD (0, [])
    refuse (isSingleValued t = true ∧ 1 < count + 1)
      { msg := typeText t ++ lit " record " ++ quoteStr e.name ++ lit " has " ++
          decimalText (count + 1) ++ lit " values but is single-valued"
        fix :=
          if t = .SOA then
            lit "keep one value — the DNS backend writes the last and discards the rest"
          else if t = .CNAME then
            lit ("a name may have exactly one CNAME (RFC 1034) — use several A or ALIAS records " ++
              "instead")
          else lit "keep one value — the DNS backend writes the first and discards the rest" }
    refuse (key U t e ∈ seen)
      { msg := typeText t ++ lit " record " ++ quoteStr e.name ++ lit " has a duplicate value " ++
          quoteStr (render today t e)
        fix := lit ("remove the duplicate — PowerDNS rejects the whole record set when a value " ++
          "repeats") }
    checkOwners today t zone (owners.insert owner (count + 1, key U t e :: seen)) rest

/-- `ValidateEntriesInZone`. -/
def validateEntriesInZone (today : Bytes) (t : RRType) (entries : List Entry) (zone : Bytes) :
    Except Error Unit := do
  refuse (entries = [])
    { msg := lit "a " ++ typeText t ++ lit " record set needs at least one value" }
  Go.forEach (fun e => validateInZone U t e zone) entries
  checkOwners U today t zone ∅ entries

end InternalDNS.Rdata
