import InternalDNS.PowerDNSPatch

/-! # The PowerDNS client

`EnsureRecordSet` writes what a record set asks for and deletes what it wrote before and no longer
wants; `DeleteRecordSet` deletes everything it wrote.  The changes at one name travel together: a
record of another type is deleted in the PATCH that writes the new one.

A read that fails ends both calls before anything is sent, so they are modelled from a read that
succeeded.  Log lines and the counter of pruned records are left out.
-/
namespace InternalDNS.Pdns

open Go OwnerName

/-! ## What to change -/

/-- `ownedSurplus`, with the names that are wanted for the record type. -/
def ownedSurplus (existing : ZoneContent) (ownerRef typ : GoString) (wanted : List GoString) :
    List RRKey :=
  existing.keys.filter fun key =>
    (existing.lookup key).any (fun current => rrsetOwnerRef current = ownerRef) &&
      !(wanted.contains key.name && key.typ = typ)

/-- `pairDeletes`: the change of every owner with the deletes at its name; the last of several
changes at one name takes them. -/
def pairDeletes : List (GoString × Change) → List Change → List (GoString × List Change)
  | [], _ => []
  | (owner, rr) :: rest, deletes =>
    (owner, rr :: if rest.any (·.2.name = rr.name) then [] else deletes.filter (·.name = rr.name)) ::
      pairDeletes rest deletes

/-- The deletes at names that are not written. -/
def unpairedDeletes (replaces : List (GoString × Change)) (deletes : List Change) : List Change :=
  deletes.filter fun d => !replaces.any (·.2.name = d.name)

/-- What is to be done for an owner name. -/
inductive Decision where
  | unbuilt
  | current
  | replace (change : Change)

variable (U : CaseMap) (today : GoString) (now : Int)

/-- The decision of `EnsureRecordSet` about an owner name. -/
def decideOwner (zoneName : GoString) (existing : ZoneContent) (rs : RecordSet) (owner : GoString) :
    Decision :=
  let entries := ((GoMap.group (·.name) rs.records).lookup owner).getD []
  match buildOwnerRRSet U today zoneName rs.recordType owner entries with
  | none => .unbuilt
  | some built =>
    match existing.lookup ⟨qualify U owner zoneName, rs.recordType.text⟩ with
    | none => .replace (buildReplaceRRSet U rs zoneName owner built.ttl built.records [] now)
    | some current =>
      if rrsetMatchesObject current rs then .current
      else
        let values := if rs.recordType = .SOA then keepSOASerialRising built.records current
          else built.records
        .replace (buildReplaceRRSet U rs zoneName owner built.ttl values (current.comments.getD []) now)

/-- What `EnsureRecordSet` is going to do. -/
structure Plan where
  decisions : List (GoString × Decision)
  surplus : List Change

/-- The plan of `EnsureRecordSet`, over the owner names in their order. -/
def ensurePlan (zoneName : GoString) (existing : ZoneContent) (rs : RecordSet) : Plan :=
  let owners := (GoMap.group (·.name) rs.records).keys.insertionSort (· ≤ ·)
  let decisions := owners.map fun owner => (owner, decideOwner U today now zoneName existing rs owner)
  let desired := decisions.filterMap fun (owner, d) =>
    match d with
    | .unbuilt => none
    | _ => some (qualify U owner zoneName)
  { decisions
    surplus := (ownedSurplus existing rs.ownerRef rs.recordType.text desired).map newDeleteRRSet }

def Plan.replaces (p : Plan) : List (GoString × Change) :=
  p.decisions.filterMap fun (owner, d) =>
    match d with
    | .replace c => some (owner, c)
    | _ => none

/-- The changes that travel together. -/
def Plan.changes (p : Plan) : List (GoString × List Change) := pairDeletes p.replaces p.surplus

/-- The deletes that travel alone. -/
def Plan.deletes (p : Plan) : List Change := sortRRSets (unpairedDeletes p.replaces p.surplus)

/-! ## Statuses -/

def makeStatus (owner : GoString) (programmed : Bool) (reason message : GoString) : RecordStatus :=
  ⟨owner, programmed, reason, message, now⟩

def errorStatus (owner text : GoString) : RecordStatus :=
  makeStatus now owner false (lit "PDNSError") text

def createdStatus (owner : GoString) : RecordStatus :=
  makeStatus now owner true (lit "Programmed") (lit "Record set successfully created")

/-- `recordSetSuccessStatus`. -/
def successStatus (owner : GoString) (previous : List RecordStatus) : RecordStatus :=
  match previous.find? (·.name = owner) with
  | some status => if status.programmed then status else createdStatus now owner
  | none => createdStatus now owner

/-- `recordSetRefusedStatus`. -/
def refusedStatus (owner qualified typ ownerRef : GoString) (existing : ZoneContent) : RecordStatus :=
  let holders := existing.keys.filterMap fun key =>
    (existing.lookup key).bind fun rr =>
      let ref := rrsetOwnerRef rr
      if !equalFold key.name qualified || equalFold key.typ typ || ref = ownerRef then none
      else some (key.typ ++ lit " record" ++
        if ref = [] then [] else lit " of DNSRecordSet " ++ ((ref.splitOn ':').getLast?.getD ref))
  let held := if holders = [] then lit "another record"
    else lit "the " ++ (lit " and the ").intercalate (holders.insertionSort (· ≤ ·))
  makeStatus now owner false (lit "Conflict") (trimSuffix qualified ['.'] ++
    lit " cannot be published because " ++ held ++
    lit " already holds the name. It will be published once that record is removed.")

/-- `keepTransitionTimes`. -/
def keepTransitionTimes (statuses previous : List RecordStatus) : List RecordStatus :=
  statuses.map fun status =>
    match previous.reverse.find? (·.name = status.name) with
    | some before =>
      if before.programmed = status.programmed then { status with transition := before.transition }
      else status
    | none => status

/-- The status of an owner name, from the decision and the error of its change. -/
def ownerStatus (zoneName : GoString) (existing : ZoneContent) (rs : RecordSet)
    (error : Option PatchError) (owner : GoString) : Decision → RecordStatus
  | .unbuilt => errorStatus now owner (lit "failed to build owner RRSet for owner " ++ owner)
  | .current => successStatus now owner rs.status
  | .replace c =>
    match error with
    | none => createdStatus now owner
    | some e =>
      if e.refused.contains (patchIdentity U c) then
        refusedStatus now owner (qualify U owner zoneName) rs.recordType.text rs.ownerRef existing
      else errorStatus now owner e.text

/-! ## The calls -/

variable (server : Server)

/-- The loop over the chunks of changes. -/
def applyChunks : Session → List (List (GoString × List Change)) →
    Session × List (GoString × PatchError)
  | s, [] => (s, [])
  | s, chunk :: rest =>
    let (s, errors) := applyIsolatingRefusals U server chunk.length s chunk
    let (s, more) := applyChunks s rest
    (s, errors ++ more)

/-- The loop over the chunks of deletes in `EnsureRecordSet`: an error is only logged. -/
def applyDeletes (s : Session) (chunks : List (List Change)) : Session :=
  chunks.foldl (fun s chunk => (applyRRSetPatch U server s chunk).1) s

/-- What a call of `EnsureRecordSet` returns; it returns no error if `transient` is empty. -/
structure EnsureResult where
  session : Session
  statuses : List RecordStatus
  transient : List PatchError

/-- The transient errors of the owners in their order, without repetitions. -/
def transientErrors (changes : List (GoString × List Change)) (errors : List (GoString × PatchError)) :
    List PatchError :=
  ((changes.filterMap fun p => errors.lookup p.1).filter (·.transient)).destutter (· ≠ ·)

/-- `EnsureRecordSet`, on a zone that was read. -/
def ensureRecordSet (zoneName : GoString) (zone : ZoneContent) (rs : RecordSet) : EnsureResult :=
  let plan := ensurePlan U today now zoneName zone rs
  let (s, errors) := applyChunks U server ⟨zone, []⟩ (chunkRRSets plan.changes)
  { session := applyDeletes U server s (chunkRRSets plan.deletes)
    statuses := keepTransitionTimes (plan.decisions.map fun (owner, d) =>
      ownerStatus U now zoneName zone rs (errors.lookup owner) owner d) rs.status
    transient := transientErrors plan.changes errors }

/-- The RRsets that `DeleteRecordSet` deletes. -/
def deleteTargets (zoneName : GoString) (existing : ZoneContent) (rs : RecordSet) : List RRKey :=
  let named := rs.records.map fun e => (⟨qualify U e.name zoneName, rs.recordType.text⟩ : RRKey)
  let own := named.filter fun key => (existing.lookup key).any fun current =>
    rrsetOwnerRef current = [] || rrsetOwnerRef current = rs.ownerRef
  (own ++ ownedSurplus existing rs.ownerRef rs.recordType.text []).dedup

/-- The loop over the chunks in `DeleteRecordSet`, which ends at the first error. -/
def deleteChunks : Session → List (List Change) → Session × Option PatchError
  | s, [] => (s, none)
  | s, chunk :: rest =>
    match applyRRSetPatch U server s chunk with
    | (s, some e) => (s, some e)
    | (s, none) => deleteChunks s rest

/-- `DeleteRecordSet`, on a zone that was read. -/
def deleteRecordSet (zoneName : GoString) (zone : ZoneContent) (rs : RecordSet) :
    Session × Option PatchError :=
  deleteChunks U server ⟨zone, []⟩
    (chunkRRSets (sortRRSets ((deleteTargets U zoneName zone rs).map newDeleteRRSet)))

end InternalDNS.Pdns
