import InternalDNS.Objects

/-! # Owner names of public zones

A record set of a public zone spells an owner name relative to the zone, with a trailing dot as an
absolute name, or as `@` for the apex.  `qualify` is the name in the DNS that a spelling stands for.
-/
namespace InternalDNS

open Go

/-- `v1alpha1.DNSRecordSet`, with its name. -/
structure RecordSetObject extends DNSRecordSet where
  name : GoString

namespace OwnerName

/-- `ownername.Qualify`. -/
def qualify (U : CaseMap) (owner zone : GoString) : GoString :=
  if toLower U owner = ['@'] ∨ toLower U owner = [] then toLower U zone ++ ['.']
  else if (toLower U owner).getLast? = some '.' then toLower U owner
  else toLower U owner ++ ['.'] ++ toLower U zone ++ ['.']

/-- A character that the API admits in a record name. -/
def nameChar (c : Char) : Bool :=
  c.isAlphanum || c = '*' || c = '.' || c = '_' || c = '-'

/-- The API's pattern of a record name, `^(@|[A-Za-z0-9*._-]+)$`. -/
def validRecordName (name : GoString) : Bool :=
  name = ['@'] || (name ≠ [] && name.all nameChar)

theorem ne_nil_of_validRecordName {name : GoString} (h : validRecordName name = true) : name ≠ [] := by
  rintro rfl
  simp [validRecordName] at h

end OwnerName

end InternalDNS
