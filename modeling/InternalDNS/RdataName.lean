import InternalDNS.RdataText

/-! # Owner names on the command line

An owner name may be spelled relative to the zone, absolutely with a trailing
dot, or as `@`; letters fold.  `fqdn` is the absolute name a spelling stands
for, `normalizeName` the spelling the command line stores.  Two packages
compare owner names in their own way, one by `FQDN` and one by
`ownername.Qualify`; both come to the same question, whether the name is one of
the spellings of the apex.
-/
namespace InternalDNS.Rdata

open Go (Bytes CaseMap)
open Go.Bytes (lit byte ofText toLower trimSpace)

/-- `strings.TrimSuffix(s, ".")`. -/
def trimDot (s : Bytes) : Bytes := if [byte '.'] <:+ s then s.dropLast else s

variable (U : CaseMap) (name zone : Bytes)

/-- The name of a zone as the package compares it. -/
def zoneName : Bytes := trimDot (toLower U (trimSpace zone))

/-- A name as it is compared: without white space around it, in small letters. -/
def foldName : Bytes := toLower U (trimSpace name)

/-- `IsApex`: one of the two literal spellings of the apex. -/
def isApex : Bool := name = [byte '@'] || name = []

/-- `FQDN`: the absolute name that the backend keys an RRset on. -/
def fqdn : Bytes :=
  let zone := zoneName U zone
  let name := foldName U name
  if isApex name then zone ++ [byte '.']
  else if [byte '.'] <:+ name then name
  else name ++ [byte '.'] ++ zone ++ [byte '.']

/-- `IsApexIn`. -/
def isApexIn : Bool := fqdn U name zone = fqdn U [byte '@'] zone

/-! ## Normalisation -/

def maxNameLength : Nat := 253

/-- A byte that the API admits in a record name. -/
def nameByte (c : UInt8) : Bool :=
  (byte 'A' ≤ c && c ≤ byte 'Z') || (byte 'a' ≤ c && c ≤ byte 'z') ||
    (byte '0' ≤ c && c ≤ byte '9') || c = byte '*' || c = byte '.' || c = byte '_' || c = byte '-'

/-- `namePattern`, `^(@|[A-Za-z0-9*._-]+)$`. -/
def namePattern (s : Bytes) : Bool := s = [byte '@'] || (s ≠ [] && s.all nameByte)

/-- The checks of one label and its position. -/
def checkOwnerLabel (orig : Bytes) (l : Bytes × Nat) : Except Error Unit := do
  refuse (l.1 = []) { msg := lit "record name " ++ quoteStr orig ++ lit " has an empty label" }
  refuse (63 < l.1.length)
    { msg := lit "record name " ++ quoteStr orig ++
        lit " has a label longer than 63 characters" }
  refuse (byte '*' ∈ l.1 ∧ l.1 ≠ [byte '*'])
    { msg := lit "record name " ++ quoteStr orig ++ lit " has a partial wildcard label " ++
        quoteStr l.1
      fix := lit "a wildcard must be a whole label, as in \"*\" or \"*.dev\"" }
  refuse (byte '*' ∈ l.1 ∧ l.2 ≠ 0)
    { msg := lit "record name " ++ quoteStr orig ++
        lit " has a wildcard that is not the leftmost label"
      fix := lit "a wildcard must be the leftmost label, as in \"*.dev\"" }

/-- `checkOwnerLabels`. -/
def checkOwnerLabels (orig bare : Bytes) : Except Error Unit := do
  refuse (maxNameLength < bare.length)
    { msg := lit "record name " ++ quoteStr orig ++ lit " is " ++ ofText (Go.itoa bare.length) ++
        lit " characters, the maximum is 253" }
  Go.forEach (checkOwnerLabel orig) (bare.splitOn (byte '.')).zipIdx

/-- `NormalizeNameWithWarnings`: the zone-relative spelling, with advisories. -/
def normalizeNameWithWarnings : Except Error (Bytes × List Bytes) := do
  let zone := zoneName U zone
  let raw := trimSpace name
  let lower := toLower U raw
  if isApex lower then return ([byte '@'], [])
  refuse (byte ' ' ∈ raw ∨ byte '\t' ∈ raw)
    { msg := lit "record name " ++ quoteStr name ++ lit " contains whitespace" }
  refuse (namePattern lower = false)
    { msg := lit "record name " ++ quoteStr name ++ lit " is not a valid owner name"
      fix := lit ("names may contain letters, digits, \"-\", \"_\", \".\" and \"*\", or be \"@\" " ++
        "for the apex") }
  let bare := trimDot lower
  if bare = [] then return ([byte '@'], [])
  checkOwnerLabels name bare
  if [byte '.'] <:+ lower then
    if zone = [] then return (bare ++ [byte '.'], [])
    if bare = zone then return ([byte '@'], [])
    if byte '.' :: zone <:+ bare then return (bare.take (bare.length - (zone.length + 1)), [])
    return (bare ++ [byte '.'],
      [lit "name " ++ quoteStr (bare ++ [byte '.']) ++ lit " is outside zone " ++ quoteStr zone ++
        lit " — the DNS backend will reject it as out-of-zone"])
  if zone ≠ [] then
    refuse (bare = zone)
      { msg := lit "record name " ++ quoteStr name ++ lit " is the zone itself"
        fix := lit "names are relative to the zone — use \"@\" for the apex" }
    refuse (byte '.' :: zone <:+ bare)
      { msg := lit "record name " ++ quoteStr name ++ lit " already includes the zone domain"
        fix := lit "names are relative to the zone — use " ++
          quoteStr (bare.take (bare.length - (zone.length + 1))) ++ lit ", or " ++
          quoteStr (bare ++ [byte '.']) ++ lit " with a trailing dot to force an absolute name" }
    refuse (maxNameLength < bare.length + 1 + zone.length)
      { msg := lit "record name " ++ quoteStr name ++ lit " is too long for zone " ++
          quoteStr zone ++ lit ", the maximum total length is 253" }
  return (bare, [])

/-- `NormalizeName`. -/
def normalizeName : Except Error Bytes :=
  (normalizeNameWithWarnings U name zone).map (·.1)

/-! ## Qualified names elsewhere -/

/-- `ownername.Qualify`. -/
def ownernameQualify (owner zone : Bytes) : Bytes :=
  let owner := toLower U owner
  let zone := toLower U zone
  if owner = [byte '@'] ∨ owner = [] then zone ++ [byte '.']
  else if [byte '.'] <:+ owner then owner
  else owner ++ [byte '.'] ++ zone ++ [byte '.']

/-- `qualifyOwner` of the shared utilities: `Qualify` for names that did not pass admission. -/
def qualifyOwner (owner zone : Bytes) : Bytes :=
  let owner := trimSpace owner
  let zone := trimDot (trimSpace zone)
  if zone ≠ [] then ownernameQualify U owner zone
  else if owner = [] then [byte '@'] else toLower U owner

/-! ## The spellings of the apex -/

/-- A name that refers to the apex of a zone: `@`, nothing, or the zone itself with a trailing
dot, in letters of any case and with white space around it.  Without a zone there is nothing an
absolute name could be compared with. -/
def ApexSpelling (name : Bytes) : Prop :=
  foldName U name = [byte '@'] ∨ foldName U name = [] ∨
    (trimDot (trimSpace zone) ≠ [] ∧
      foldName U name = toLower U (trimDot (trimSpace zone)) ++ [byte '.'])

instance (zone name : Bytes) : Decidable (ApexSpelling U zone name) := by
  unfold ApexSpelling
  infer_instance

/-- A relative name stands below the zone it is completed with. -/
theorem relative_ne_apex :
    name ++ [byte '.'] ++ zone ++ [byte '.'] ≠ zone ++ [byte '.'] := by
  intro h
  have hlength := congrArg List.length h
  simp only [List.length_append, List.length_singleton] at hlength
  omega

theorem ownernameQualify_eq_apex_iff :
    ownernameQualify U name zone = toLower U zone ++ [byte '.'] ↔
      toLower U name = [byte '@'] ∨ toLower U name = [] ∨
        toLower U name = toLower U zone ++ [byte '.'] := by
  simp only [ownernameQualify]
  split_ifs with hapex hdot
  · exact iff_of_true rfl (hapex.elim .inl fun h => .inr (.inl h))
  · rw [not_or] at hapex
    exact ⟨fun h => .inr (.inr h), fun h => (h.resolve_left hapex.1).resolve_left hapex.2⟩
  · rw [not_or] at hapex
    refine iff_of_false (relative_ne_apex _ _) ?_
    rintro (h | h | h)
    · exact hapex.1 h
    · exact hapex.2 h
    · exact hdot (h ▸ List.suffix_append ..)

/-- **The apex is recognised under every spelling**, and nothing else is. -/
theorem qualifyOwner_eq_apex_iff :
    qualifyOwner U name zone = qualifyOwner U [byte '@'] zone ↔ ApexSpelling U zone name := by
  have hat : trimSpace [byte '@'] = [byte '@'] := by decide
  have hlower : toLower U [byte '@'] = [byte '@'] := by
    rw [Go.Bytes.toLower_cons U (by decide), Go.Bytes.toLower_nil]
    decide
  simp only [qualifyOwner, ApexSpelling, foldName, hat]
  by_cases hzone : trimDot (trimSpace zone) = []
  · -- no zone: the two literal spellings
    by_cases hname : trimSpace name = []
    · simp [hzone, hname, hlower]
    · have hne : toLower U (trimSpace name) ≠ [] := by
        rwa [Ne, Go.Bytes.toLower_eq_nil]
      simp [hzone, hname, hlower, hne]
  · have hapex : ownernameQualify U [byte '@'] (trimDot (trimSpace zone)) =
        toLower U (trimDot (trimSpace zone)) ++ [byte '.'] :=
      (ownernameQualify_eq_apex_iff U _ _).mpr (.inl hlower)
    rw [if_pos hzone, if_pos hzone, hapex, ownernameQualify_eq_apex_iff]
    simp [hzone]

end InternalDNS.Rdata
