import InternalDNS.PowerDNS

/-! # Changes to a PowerDNS zone

The client reads a zone, compares it with a record set, and sends its changes in PATCH requests.
PowerDNS carries out a PATCH as a whole or not at all; a request that fails may have been carried out
nevertheless.  `Server` gives the answers to the requests in their order, and a `Session` is the zone
and the requests that were sent so far.

Comments on an RRset say which record set wrote it.  A DELETE travels with a REPLACE that clears the
comments; the two are one operation on the RRset.
-/
namespace InternalDNS.Pdns

open Go OwnerName

/-! ## Zones and changes -/

/-- `rrsetKey`. -/
structure RRKey where
  name : GoString
  typ : GoString
  deriving DecidableEq

/-- `zoneRRsetComment`. -/
structure Comment where
  account : GoString
  content : GoString
  modifiedAt : Int
  deriving DecidableEq

/-- `zoneRRset`; `comments` is `none` if PowerDNS sent no list. -/
structure ZoneRRset where
  ttl : Int
  records : List GoString
  comments : Option (List Comment)

/-- The RRsets of a zone, as `getPDNSZoneRRSets` indexes them. -/
abbrev ZoneContent := GoMap RRKey ZoneRRset

def accountOwner : GoString := lit "OWNER"
def accountObservedGeneration : GoString := lit "OBSERVED_GENERATION"
def accountObjectUID : GoString := lit "OBJECT_UID"

/-- `rrsetOwnerRef`: empty without an owner comment. -/
def rrsetOwnerRef (rr : ZoneRRset) : GoString :=
  ((rr.comments.getD []).find? fun comment => comment.account = accountOwner).elim [] (·.content)

inductive ChangeType where
  | replace
  | delete
  deriving DecidableEq

/-- `rrset`: a change of an RRset. -/
structure Change where
  name : GoString
  typ : GoString
  ttl : Int
  changeType : ChangeType
  records : List GoString
  comments : Option (List Comment)
  commentsOnly : Bool
  deriving DecidableEq

def Change.key (c : Change) : RRKey := ⟨c.name, c.typ⟩

/-- `newDeleteRRSet`. -/
def newDeleteRRSet (key : RRKey) : Change := ⟨key.name, key.typ, 0, .delete, [], none, false⟩

/-- `commentsOnlyReplace`. -/
def commentsOnlyReplace (key : RRKey) : Change := ⟨key.name, key.typ, 0, .replace, [], none, true⟩

/-- `patchIdentity`. -/
def patchIdentity (U : CaseMap) (c : Change) : RRKey := ⟨toLower U c.name, toUpper U c.typ⟩

/-- The order of `sortRRSets`: deletes first, then by type and name. -/
def Change.before (a b : Change) : Bool :=
  if a.changeType ≠ b.changeType then a.changeType = .delete
  else if a.typ ≠ b.typ then a.typ < b.typ
  else a.name < b.name

/-- `sortRRSets`. -/
def sortRRSets (patch : List Change) : List Change := patch.insertionSort fun a b => !b.before a

/-- `clearCommentsBehindDeletes`. -/
def clearCommentsBehindDeletes (U : CaseMap) (patch : List Change) : Except GoString (List Change) :=
  let replaced := (patch.filter (·.changeType = .replace)).map (patchIdentity U)
  match patch.find? fun c => c.changeType = .delete ∧ patchIdentity U c ∈ replaced with
  | some c => .error (lit "patch both replaces and deletes " ++ c.typ ++ [' '] ++ c.name)
  | none => .ok (patch.flatMap fun c =>
      if c.changeType = .delete then [c, commentsOnlyReplace c.key] else [c])

/-- What PowerDNS does with one change. -/
def applyChange (zone : ZoneContent) (c : Change) : ZoneContent :=
  match c.changeType with
  | .delete => zone.erase c.key
  | .replace =>
    if c.commentsOnly then
      match zone.lookup c.key with
      | some rr => zone.insert c.key { rr with comments := some [] }
      | none => zone
    else zone.insert c.key ⟨c.ttl, c.records, c.comments⟩

/-- A PATCH that is carried out. -/
def applyChanges (zone : ZoneContent) (changes : List Change) : ZoneContent :=
  changes.foldl applyChange zone

/-! ## Requests -/

/-- An error of a request, as far as the client looks into it. -/
structure PatchError where
  text : GoString
  /-- `IsTransient`. -/
  transient : Bool
  /-- `refusedRRSets`. -/
  refused : List RRKey
  deriving DecidableEq

/-- The answer to a PATCH.  A request without an error was carried out. -/
structure Answer where
  applied : Bool
  error : Option PatchError
  accepted : error = none → applied = true

/-- The answers of PowerDNS, by the number of the request. -/
abbrev Server := Nat → Answer

/-- A request that was sent, and whether it was carried out. -/
structure Sent where
  changes : List Change
  applied : Bool

structure Session where
  zone : ZoneContent
  sent : List Sent

variable (U : CaseMap) (server : Server)

/-- `applyRRSetPatch`. -/
def applyRRSetPatch (s : Session) (patch : List Change) : Session × Option PatchError :=
  if patch = [] then (s, none)
  else match clearCommentsBehindDeletes U (sortRRSets patch) with
    | .error text => (s, some ⟨lit "building the patch: " ++ text, true, []⟩)
    | .ok changes =>
      let answer := server s.sent.length
      ({ zone := if answer.applied then applyChanges s.zone changes else s.zone
         sent := s.sent ++ [⟨changes, answer.applied⟩] }, answer.error)

/-- `refusedIn`. -/
def refusedIn (change : List Change) (refused : List RRKey) : Bool :=
  change.any fun c => patchIdentity U c ∈ refused

/-- `applyIsolatingRefusals`, for the changes of some owners; with the owners whose changes failed.
Every round but the last refuses somebody, so the number of owners bounds the rounds. -/
def applyIsolatingRefusals : (rounds : Nat) → Session → List (GoString × List Change) →
    Session × List (GoString × PatchError)
  | 0, s, _ => (s, [])
  | rounds + 1, s, pending =>
    if pending = [] then (s, [])
    else match applyRRSetPatch U server s (pending.flatMap (·.2)) with
      | (s, none) => (s, [])
      | (s, some e) =>
        let refused := pending.filter fun p => refusedIn U p.2 e.refused
        let kept := pending.filter fun p => !refusedIn U p.2 e.refused
        if refused = [] then (s, pending.map fun p => (p.1, e))
        else
          let (s, errors) := applyIsolatingRefusals rounds s kept
          (s, refused.map (fun p => (p.1, e)) ++ errors)

/-- The loop of `chunkRRSets`; `rounds` bounds how often it is entered. -/
def chunksOf {α : Type} (size : Nat) : (rounds : Nat) → List α → List (List α)
  | 0, _ => []
  | rounds + 1, l => if l = [] then [] else l.take size :: chunksOf size rounds (l.drop size)

def patchChunkSize : Nat := 500

/-- `chunkRRSets`. -/
def chunkRRSets {α : Type} (l : List α) : List (List α) := chunksOf patchChunkSize l.length l

/-! ## Record sets -/

/-- `v1alpha1.RecordSetStatus`, with its `Programmed` condition. -/
structure RecordStatus where
  name : GoString
  programmed : Bool
  reason : GoString
  message : GoString
  transition : Time

/-- `v1alpha1.DNSRecordSet`, as the client reads it. -/
structure RecordSet where
  namespaceName : GoString
  name : GoString
  uid : GoString
  generation : Int
  recordType : RRType
  records : List Entry
  status : List RecordStatus

/-- `recordSetOwnerRef`. -/
def RecordSet.ownerRef (rs : RecordSet) : GoString := rs.namespaceName ++ [':'] ++ rs.name

/-- `rrsetMatchesObject`. -/
def rrsetMatchesObject (current : ZoneRRset) (rs : RecordSet) : Bool :=
  match current.comments with
  | none => false
  | some comments =>
    let generation := comments.foldl (fun generation comment =>
      if comment.account = accountObservedGeneration then (parseInt comment.content).getD generation
      else generation) 0
    let uid := comments.foldl (fun uid comment =>
      if comment.account = accountObjectUID then comment.content else uid) []
    generation = rs.generation && uid = rs.uid

/-- `strings.Fields`. -/
def fields (s : GoString) : List GoString := (s.splitOnP isSpace).filter (· ≠ [])

/-- `soaSerial`. -/
def soaSerial (content : GoString) : Option Nat :=
  match fields content with
  | [_, _, serial, _, _, _, _] => parseUint serial 32
  | _ => none

/-- `keepSOASerialRising`. -/
def keepSOASerialRising (desired : List GoString) (current : ZoneRRset) : List GoString :=
  let held := current.records.foldl (fun held content => max held ((soaSerial content).getD 0)) 0
  if held = 0 then desired
  else desired.map fun content =>
    match fields content with
    | [mname, rname, _, refresh, retry, expire, minimum] =>
      if (soaSerial content).any (held ≤ ·) then content
      else line [mname, rname, itoa held, refresh, retry, expire, minimum]
    | _ => content

/-- `stampComments`. -/
def stampComments (desired existing : List Comment) (now : Int) : List Comment :=
  desired.map fun comment =>
    match existing.find? fun current => current.account = comment.account &&
        current.content = comment.content && current.modifiedAt ≠ 0 with
    | some current => { comment with modifiedAt := current.modifiedAt }
    | none => { comment with modifiedAt := now }

/-- `buildReplaceRRSet`. -/
def buildReplaceRRSet (rs : RecordSet) (zoneName owner : GoString) (ttl : Int) (values : List GoString)
    (existing : List Comment) (now : Int) : Change :=
  let comments : List Comment :=
    [⟨accountOwner, rs.ownerRef, 0⟩, ⟨accountObservedGeneration, formatInt rs.generation, 0⟩] ++
      (if rs.uid = [] then [] else [⟨accountObjectUID, rs.uid, 0⟩])
  { name := qualify U owner zoneName
    typ := rs.recordType.text
    ttl
    changeType := .replace
    records := dedupeRecords (values.filter (· ≠ []))
    comments := some (stampComments comments existing now)
    commentsOnly := false }

end InternalDNS.Pdns
