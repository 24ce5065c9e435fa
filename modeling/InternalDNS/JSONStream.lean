import InternalDNS.GoControl

/-! # Reading JSON as a stream

`json.Decoder` hands out the tokens of a text one at a time and keeps track of where in an object or
array it stands, so that a program can read a large object entry by entry.  Text is a list of tokens
here; how characters make up a token is left to the library.  A value is read as a whole, from its
first token to the one that closes it.

The rules say what a loop over the entries of an object does, from what it does for one entry, and that
a map which is written in the order of its keys is read back with the same entries.
-/
namespace Go.JSON

open List

/-- A token.  Scalars are the numbers and the literals but `null`. -/
inductive Token (S : Type) where
  | openObject
  | closeObject
  | openArray
  | closeArray
  | comma
  | colon
  | string (s : GoString)
  | scalar (x : S)
  | null

variable {S : Type} {v : List (Token S)}

/-! ## Values -/

/-- How many more objects and arrays are open after a token. -/
def Token.depth (d : Nat) : Token S → Nat
  | .openObject | .openArray => d + 1
  | .closeObject | .closeArray => d - 1
  | _ => d

/-- The tokens up to the one that closes the last open object or array. -/
def closing : Nat → List (Token S) → Option (List (Token S) × List (Token S))
  | _, [] => none
  | d, t :: rest =>
    if t.depth d = 0 then some ([t], rest)
    else (closing (t.depth d) rest).map fun (v, rest) => (t :: v, rest)

/-- `Decoder.readValue`: the tokens of the next value. -/
def readValue : List (Token S) → Option (List (Token S) × List (Token S))
  | .openObject :: rest => (closing 1 rest).map fun (v, rest) => (.openObject :: v, rest)
  | .openArray :: rest => (closing 1 rest).map fun (v, rest) => (.openArray :: v, rest)
  | .string s :: rest => some ([.string s], rest)
  | .scalar x :: rest => some ([.scalar x], rest)
  | .null :: rest => some ([.null], rest)
  | _ => none

/-- The tokens leave open what was open before them, and close nothing of it. -/
def Inside (v : List (Token S)) : Prop :=
  ∀ d rest, closing (d + 1) (v ++ rest) = (closing (d + 1) rest).map fun (w, rest) => (v ++ w, rest)

/-- The tokens are those of one value. -/
structure IsValue (v : List (Token S)) : Prop where
  inside : Inside v
  read : ∀ rest, readValue (v ++ rest) = some (v, rest)

theorem inside_nil : Inside ([] : List (Token S)) := fun d rest => by simp

theorem Inside.append {v w : List (Token S)} (hv : Inside v) (hw : Inside w) : Inside (v ++ w) := by
  intro d rest
  rw [append_assoc, hv, hw, Option.map_map]
  simp [Function.comp_def]

/-- A token that opens and closes nothing. -/
theorem inside_singleton {t : Token S} (h : ∀ d, t.depth d = d) : Inside [t] := by
  intro d rest
  rw [singleton_append, closing, h, if_neg d.succ_ne_zero]
  rfl

theorem inside_object (h : Inside v) : Inside (.openObject :: v ++ [.closeObject]) := by
  intro d rest
  rw [cons_append, cons_append, closing, if_neg (by simp [Token.depth]), append_assoc]
  show (closing (d + 1 + 1) (v ++ (.closeObject :: rest))).map _ = _
  rw [h, closing, if_neg (by simp [Token.depth])]
  simp [Function.comp_def, Token.depth]

theorem isValue_scalar (x : S) : IsValue [Token.scalar x] := ⟨inside_singleton fun _ => rfl, fun _ => rfl⟩

/-- What stands between braces is a value. -/
theorem isValue_object (h : Inside v) : IsValue (.openObject :: v ++ [.closeObject]) := by
  refine ⟨inside_object h, fun rest => ?_⟩
  rw [cons_append, cons_append, readValue, append_assoc]
  rw [show closing 1 (v ++ ([.closeObject] ++ rest)) = _ from h 0 _]
  simp [closing, Token.depth]

/-! ## Writing objects -/

/-- A field, or an entry of a map. -/
abbrev Field (S : Type) := GoString × List (Token S)

variable {fs : List (Field S)}

def Field.tokens (f : Field S) : List (Token S) := .string f.1 :: .colon :: f.2

/-- The fields behind another one. -/
def tailTokens (fs : List (Field S)) : List (Token S) := fs.flatMap fun f => .comma :: Field.tokens f

def fieldTokens : List (Field S) → List (Token S)
  | [] => []
  | f :: rest => Field.tokens f ++ tailTokens rest

/-- The text of an object. -/
def objectOf (fs : List (Field S)) : List (Token S) := .openObject :: fieldTokens fs ++ [.closeObject]

theorem inside_field {f : Field S} (h : IsValue f.2) : Inside (Field.tokens f) :=
  Inside.append (v := [.string f.1]) (inside_singleton fun _ => rfl)
    (Inside.append (v := [.colon]) (inside_singleton fun _ => rfl) h.inside)

theorem inside_tailTokens (h : ∀ f ∈ fs, IsValue f.2) : Inside (tailTokens fs) := by
  induction fs with
  | nil => exact inside_nil
  | cons f rest ih =>
    obtain ⟨hf, hrest⟩ := forall_mem_cons.mp h
    exact Inside.append (v := .comma :: Field.tokens f)
      (Inside.append (v := [.comma]) (inside_singleton fun _ => rfl) (inside_field hf)) (ih hrest)

theorem isValue_objectOf (h : ∀ f ∈ fs, IsValue f.2) : IsValue (objectOf fs) := by
  refine isValue_object ?_
  cases fs with
  | nil => exact inside_nil
  | cons f rest =>
    obtain ⟨hf, hrest⟩ := forall_mem_cons.mp h
    exact (inside_field hf).append (inside_tailTokens hrest)

theorem tailTokens_append (fs gs : List (Field S)) :
    tailTokens (fs ++ gs) = tailTokens fs ++ tailTokens gs := flatMap_append

/-- Fields can be written behind those of an object that is not closed yet. -/
theorem fieldTokens_append (h : fs ≠ []) (gs : List (Field S)) :
    fieldTokens (fs ++ gs) = fieldTokens fs ++ tailTokens gs := by
  cases fs with
  | nil => exact absurd rfl h
  | cons f rest => simp [fieldTokens, tailTokens_append]

/-! ## The decoder -/

/-- Where in an object or array the decoder stands. -/
inductive TokenState where
  | topValue
  | arrayStart
  | arrayValue
  | arrayComma
  | objectStart
  | objectKey
  | objectColon
  | objectValue
  | objectComma
  deriving DecidableEq

inductive StreamError where
  | eof
  | malformed
  deriving DecidableEq

/-- `json.Decoder`. -/
structure Decoder (S : Type) where
  input : List (Token S)
  state : TokenState
  stack : List TokenState

/-- `tokenValueAllowed`. -/
def TokenState.valueAllowed : TokenState → Bool
  | .topValue | .arrayStart | .arrayValue | .objectValue => true
  | _ => false

/-- `tokenValueEnd`. -/
def TokenState.valueEnd : TokenState → TokenState
  | .arrayStart | .arrayValue => .arrayComma
  | .objectValue => .objectComma
  | st => st

/-- `json.NewDecoder`. -/
def newDecoder (input : List (Token S)) : Decoder S := ⟨input, .topValue, []⟩

/-- The decoder behind the token that closes an object or array. -/
def closed (rest : List (Token S)) : List TokenState → Except StreamError (Decoder S)
  | [] => .error .malformed
  | st :: stack => .ok ⟨rest, st.valueEnd, stack⟩

/-- `Decoder.Token`; commas and colons are skipped where they belong. -/
def nextToken (stack : List TokenState) :
    TokenState → List (Token S) → Except StreamError (Token S × Decoder S)
  | _, [] => .error .eof
  | st, t :: rest =>
    match t with
    | .openArray =>
      if st.valueAllowed then .ok (t, ⟨rest, .arrayStart, st :: stack⟩) else .error .malformed
    | .openObject =>
      if st.valueAllowed then .ok (t, ⟨rest, .objectStart, st :: stack⟩) else .error .malformed
    | .closeArray =>
      if st = .arrayStart ∨ st = .arrayComma then (closed rest stack).map fun d => (t, d)
      else .error .malformed
    | .closeObject =>
      if st = .objectStart ∨ st = .objectComma then (closed rest stack).map fun d => (t, d)
      else .error .malformed
    | .colon => if st = .objectColon then nextToken stack .objectValue rest else .error .malformed
    | .comma =>
      if st = .arrayComma then nextToken stack .arrayValue rest
      else if st = .objectComma then nextToken stack .objectKey rest
      else .error .malformed
    | .string _ =>
      if st = .objectStart ∨ st = .objectKey then .ok (t, ⟨rest, .objectColon, stack⟩)
      else if st.valueAllowed then .ok (t, ⟨rest, st.valueEnd, stack⟩)
      else .error .malformed
    | .scalar _ | .null =>
      if st.valueAllowed then .ok (t, ⟨rest, st.valueEnd, stack⟩) else .error .malformed

def Decoder.token (d : Decoder S) : Except StreamError (Token S × Decoder S) :=
  nextToken d.stack d.state d.input

/-- `Decoder.More`. -/
def Decoder.more (d : Decoder S) : Bool :=
  match d.input with
  | [] | .closeArray :: _ | .closeObject :: _ => false
  | _ => true

/-- `tokenPrepareForDecode`: the comma or colon before a value is passed. -/
def Decoder.prepare (d : Decoder S) : Except StreamError (Decoder S) :=
  match d.state, d.input with
  | .arrayComma, .comma :: rest => .ok ⟨rest, .arrayValue, d.stack⟩
  | .objectColon, .colon :: rest => .ok ⟨rest, .objectValue, d.stack⟩
  | .arrayComma, _ | .objectColon, _ => .error .malformed
  | _, _ => .ok d

/-- `Decoder.Decode` into a `json.RawMessage`. -/
def Decoder.decode (d : Decoder S) : Except StreamError (List (Token S) × Decoder S) := do
  let d ← d.prepare
  if d.state.valueAllowed then
    match readValue d.input with
    | some (v, rest) => .ok (v, ⟨rest, d.state.valueEnd, d.stack⟩)
    | none => .error .malformed
  else .error .malformed

/-! ## Reading objects -/

def Token.opensObject : Token S → Bool
  | .openObject => true
  | _ => false

def Token.closesObject : Token S → Bool
  | .closeObject => true
  | _ => false

/-- The delimiter that must come next. -/
def Decoder.expectDelim (d : Decoder S) (isDelim : Token S → Bool) : Except StreamError (Decoder S) :=
  match d.token with
  | .ok (t, d) => if isDelim t then .ok d else .error .malformed
  | .error e => .error e

section Loop

variable {A : Type}

/-- What is done for one entry of an object, with the decoder behind the key. -/
abbrev Reader (S A : Type) := GoString → Decoder S → A → Except StreamError (A × Decoder S)

/-- `for dec.More() { tok, err := dec.Token(); ...; err = each(tok) }`.  Every turn takes a token, so there
are no more turns than tokens. -/
def entryLoop (each : Reader S A) : Nat → Decoder S → A → Except StreamError (A × Decoder S)
  | 0, _, _ => .error .malformed
  | turns + 1, d, acc =>
    if d.more then
      match d.token with
      | .ok (.string k, d) =>
        match each k d acc with
        | .ok (acc, d) => entryLoop each turns d acc
        | .error e => .error e
      | .ok _ => .error .malformed
      | .error e => .error e
    else .ok (acc, d)

def Decoder.entries (d : Decoder S) (each : Reader S A) (acc : A) :
    Except StreamError (A × Decoder S) :=
  entryLoop each (d.input.length + 1) d acc

/-- `decodeMapEntries`: the entries of the object or null that comes next. -/
def decodeMapEntries (each : Reader S A) (d : Decoder S) (acc : A) :
    Except StreamError (A × Decoder S) := do
  let (t, d) ← d.token
  match t with
  | .null => .ok (acc, d)
  | .openObject => do
    let (acc, d) ← d.entries each acc
    let d ← d.expectDelim Token.closesObject
    .ok (acc, d)
  | _ => .error .malformed

/-- The reader takes one entry with this text from `acc` to `acc'`. -/
def Reads (each : Reader S A) (f : Field S) (acc acc' : A) : Prop :=
  ∀ rest stack, each f.1 ⟨.colon :: f.2 ++ rest, .objectColon, stack⟩ acc =
    .ok (acc', ⟨rest, .objectComma, stack⟩)

/-- The reader takes the entries one by one. -/
inductive ReadsAll (each : Reader S A) : List (Field S) → A → A → Prop where
  | nil (acc : A) : ReadsAll each [] acc acc
  | cons {f : Field S} {fs : List (Field S)} {a b c : A} (head : Reads each f a b)
      (tail : ReadsAll each fs b c) : ReadsAll each (f :: fs) a c

variable {each : Reader S A} {acc acc' : A} {rest : List (Token S)} {stack : List TokenState}
  {fs : List (Field S)}

theorem ReadsAll.append {fs gs : List (Field S)} {a b c : A} (hf : ReadsAll each fs a b)
    (hg : ReadsAll each gs b c) : ReadsAll each (fs ++ gs) a c := by
  induction hf with
  | nil => exact hg
  | cons head _ ih => exact .cons head (ih hg)

/-- One turn of the loop. -/
theorem entryLoop_entry {d : Decoder S} {f : Field S} (head : Reads each f acc acc') (turns : Nat)
    (hmore : d.more = true)
    (htoken : d.token = .ok (.string f.1, ⟨.colon :: f.2 ++ rest, .objectColon, stack⟩)) :
    entryLoop each (turns + 1) d acc = entryLoop each turns ⟨rest, .objectComma, stack⟩ acc' := by
  rw [entryLoop, if_pos hmore, htoken]
  simp only [head rest stack]

theorem entryLoop_tail (h : ReadsAll each fs acc acc') {turns : Nat} (hturns : fs.length < turns) :
    entryLoop each turns ⟨tailTokens fs ++ .closeObject :: rest, .objectComma, stack⟩ acc =
      .ok (acc', ⟨.closeObject :: rest, .objectComma, stack⟩) := by
  induction h generalizing turns with
  | nil acc =>
    obtain ⟨turns, rfl⟩ := Nat.exists_eq_add_of_lt hturns
    rfl
  | @cons f fs a b c head _ ih =>
    obtain ⟨turns, rfl⟩ : ∃ n, turns = n + 1 := ⟨turns - 1, by simp at hturns; omega⟩
    have htokens : tailTokens (f :: fs) ++ .closeObject :: rest =
        .comma :: .string f.1 :: .colon :: f.2 ++ (tailTokens fs ++ .closeObject :: rest) := by
      simp [tailTokens, Field.tokens]
    rw [htokens, entryLoop_entry head turns rfl rfl]
    exact ih (by simpa using hturns)

/-- **The loop over the entries of an object** does what the reader does for each of them. -/
theorem entryLoop_fields (rest : List (Token S)) (stack : List TokenState)
    (h : ReadsAll each fs acc acc') {turns : Nat} (hturns : fs.length < turns) :
    ∃ st, (st = .objectStart ∨ st = .objectComma) ∧
      entryLoop each turns ⟨fieldTokens fs ++ .closeObject :: rest, .objectStart, stack⟩ acc =
        .ok (acc', ⟨.closeObject :: rest, st, stack⟩) := by
  cases h with
  | nil =>
    obtain ⟨turns, rfl⟩ := Nat.exists_eq_add_of_lt hturns
    exact ⟨.objectStart, .inl rfl, rfl⟩
  | @cons f fs _ b _ head tail =>
    refine ⟨.objectComma, .inr rfl, ?_⟩
    obtain ⟨turns, rfl⟩ : ∃ n, turns = n + 1 := ⟨turns - 1, by simp at hturns; omega⟩
    have htokens : fieldTokens (f :: fs) ++ .closeObject :: rest =
        .string f.1 :: .colon :: f.2 ++ (tailTokens fs ++ .closeObject :: rest) := by
      simp [fieldTokens, Field.tokens]
    rw [htokens, entryLoop_entry head turns rfl rfl]
    exact entryLoop_tail tail (by simpa using hturns)

theorem length_le_tailTokens (fs : List (Field S)) : fs.length ≤ (tailTokens fs).length := by
  induction fs with
  | nil => exact le_rfl
  | cons f fs ih =>
    rw [tailTokens, flatMap_cons, length_append, length_cons, length_cons, Nat.add_comm]
    exact Nat.add_le_add (Nat.le_add_left 1 _) ih

theorem length_le_fieldTokens (fs : List (Field S)) : fs.length ≤ (fieldTokens fs).length := by
  cases fs with
  | nil => exact le_rfl
  | cons f fs =>
    rw [fieldTokens, Field.tokens, length_append, length_cons, length_cons, length_cons,
      Nat.add_comm]
    exact Nat.add_le_add (Nat.le_add_left 1 _) (length_le_tailTokens fs)

/-- **The entries of an object that has been opened** are read one by one, and it is closed. -/
theorem entries_fields (rest : List (Token S)) (stack : List TokenState)
    (h : ReadsAll each fs acc acc') (st : TokenState) :
    ∃ d, Decoder.entries ⟨fieldTokens fs ++ .closeObject :: rest, .objectStart, st :: stack⟩ each acc =
        .ok (acc', d) ∧
      d.expectDelim Token.closesObject = .ok ⟨rest, st.valueEnd, stack⟩ := by
  have hturns : fs.length < (fieldTokens fs ++ .closeObject :: rest).length + 1 := by
    have := length_le_fieldTokens fs
    rw [length_append]
    omega
  obtain ⟨inner, hinner, hloop⟩ := entryLoop_fields rest (st :: stack) h hturns
  refine ⟨_, hloop, ?_⟩
  rcases hinner with rfl | rfl <;> rfl

theorem decodeMapEntries_of_open (h : ReadsAll each fs acc acc') {d : Decoder S} (st : TokenState)
    (hopen : d.token =
      .ok (.openObject, ⟨fieldTokens fs ++ .closeObject :: rest, .objectStart, st :: stack⟩)) :
    decodeMapEntries each d acc = .ok (acc', ⟨rest, st.valueEnd, stack⟩) := by
  obtain ⟨d', hentries, hclose⟩ := entries_fields rest stack h st
  rw [decodeMapEntries, hopen]
  show (Decoder.entries _ _ _ >>= fun p => p.2.expectDelim _ >>= fun d => _) = _
  rw [hentries]
  show (Decoder.expectDelim _ _ >>= fun d => _) = _
  rw [hclose]
  rfl

/-- **The entries of a field are read as if they stood alone.** -/
theorem decodeMapEntries_objectOf (h : ReadsAll each fs acc acc') :
    decodeMapEntries each ⟨.colon :: objectOf fs ++ rest, .objectColon, stack⟩ acc =
      .ok (acc', ⟨rest, .objectComma, stack⟩) := by
  have htokens : Token.colon :: objectOf fs ++ rest =
      .colon :: .openObject :: (fieldTokens fs ++ .closeObject :: rest) := by
    simp [objectOf]
  rw [htokens]
  exact decodeMapEntries_of_open h .objectValue rfl

/-- A value behind a key is read as a whole. -/
theorem decode_value {v : List (Token S)} (h : IsValue v) :
    Decoder.decode ⟨.colon :: v ++ rest, .objectColon, stack⟩ = .ok (v, ⟨rest, .objectComma, stack⟩) := by
  show (match readValue (v ++ rest) with
    | some (v, rest) => Except.ok (v, Decoder.mk rest .objectComma stack)
    | none => .error StreamError.malformed) = _
  rw [h.read]

end Loop

/-! ## Maps -/

section

variable {V : Type}

/-- The entries of a map in the order of its keys. -/
def sortedEntries (m : GoMap GoString V) : List (GoString × V) :=
  (m.keys.insertionSort (· ≤ ·)).filterMap fun k => (m.lookup k).map fun v => (k, v)

theorem mem_sortedEntries {m : GoMap GoString V} {k : GoString} {v : V} :
    (k, v) ∈ sortedEntries m ↔ m.lookup k = some v := by
  simp only [sortedEntries, mem_filterMap, mem_insertionSort, Option.map_eq_some_iff, Prod.mk.injEq]
  constructor
  · rintro ⟨k', -, v', hv, rfl, rfl⟩
    exact hv
  · intro h
    exact ⟨k, AList.mem_keys.mpr (AList.lookup_isSome.mp (by rw [h]; rfl)), v, h, rfl, rfl⟩

/-- **A map is made again of its entries**, whatever their order. -/
theorem lookup_rebuilt {W : Type} (m : GoMap GoString V) (g : V → W) (k : GoString) :
    ((sortedEntries m).foldl (fun acc e => acc.insert e.1 (g e.2)) (∅ : GoMap GoString W)).lookup k =
      (m.lookup k).map g := by
  have hfill : ∀ w, ((sortedEntries m).foldl (fun acc e => acc.insert e.1 (g e.2))
      (∅ : GoMap GoString W)).lookup k = some w → ∃ v, m.lookup k = some v ∧ g v = w := by
    intro w hw
    obtain ⟨e, he, rfl, rfl⟩ := GoMap.lookup_fill hw
    exact ⟨e.2, mem_sortedEntries.mp he, rfl⟩
  cases hlookup : m.lookup k with
  | none =>
    refine Option.eq_none_iff_forall_ne_some.mpr fun w hw => ?_
    obtain ⟨v, hv, -⟩ := hfill w hw
    cases hlookup.symm.trans hv
  | some v =>
    obtain ⟨w, hw⟩ := GoMap.exists_lookup_fill (·.1) (fun e => g e.2) (mem_sortedEntries.mpr hlookup)
    obtain ⟨v', hv, rfl⟩ := hfill w hw
    rw [Option.mem_unique hlookup hv]
    exact hw

/-- How values of a type are written and read.  What is read again is the same up to `same`, which is not
equality where a map has no order. -/
structure Codec (S V : Type) where
  marshal : V → List (Token S)
  unmarshal : List (Token S) → Option V
  same : V → V → Prop
  isValue : ∀ v, IsValue (marshal v)
  notNull : ∀ v, marshal v ≠ [.null]
  decodes : ∀ v, ∃ v', unmarshal (marshal v) = some v' ∧ same v' v

/-- Values that are read again as they were. -/
structure Exact (S V : Type) extends Codec S V where
  exact : ∀ v w, same v w → v = w

/-- Values that are written as one scalar. -/
def Exact.ofScalar (put : V → S) (get : S → Option V) (h : ∀ v, get (put v) = some v) :
    Exact S V where
  marshal v := [.scalar (put v)]
  unmarshal
    | [.scalar x] => get x
    | _ => none
  same := Eq
  isValue v := isValue_scalar _
  notNull _ h := by cases h
  decodes v := ⟨v, h v, rfl⟩
  exact _ _ h := h

/-- Maps with the same entries, up to `same`. -/
def SameMap (same : V → V → Prop) (m n : GoMap GoString V) : Prop :=
  ∀ k, Option.Rel same (m.lookup k) (n.lookup k)

theorem SameMap.refl (m : GoMap GoString V) : SameMap Eq m m := by
  intro k
  cases m.lookup k with
  | none => exact .none
  | some v => exact .some rfl

theorem SameMap.imp {r r' : V → V → Prop} {m n : GoMap GoString V} (h : SameMap r m n)
    (himp : ∀ v w, r v w → r' v w) : SameMap r' m n := by
  intro k
  have hk := h k
  generalize m.lookup k = v, n.lookup k = w at hk ⊢
  cases hk with
  | some hvw => exact .some (himp _ _ hvw)
  | none => exact .none

theorem SameMap.lookup_eq {m n : GoMap GoString V} (h : SameMap Eq m n) (k : GoString) :
    m.lookup k = n.lookup k := by
  have hk := h k
  generalize m.lookup k = v, n.lookup k = w at hk
  cases hk with
  | some hvw => rw [hvw]
  | none => rfl

end

section Map

variable {V : Type} (C : Codec S V)

/-- The entries of a map, written. -/
def mapFields (m : GoMap GoString V) : List (Field S) :=
  (sortedEntries m).map fun e => (e.1, C.marshal e.2)

/-- The reader that puts the entries into a map. -/
def insertEntry : Reader S (GoMap GoString V) := fun k d m => do
  let (raw, d) ← d.decode
  match C.unmarshal raw with
  | some v => .ok (m.insert k v, d)
  | none => .error .malformed

/-- What a written value is read as. -/
def Codec.again (v : V) : V := (C.unmarshal (C.marshal v)).getD v

theorem Codec.unmarshal_marshal (v : V) : C.unmarshal (C.marshal v) = some (C.again v) := by
  obtain ⟨v', hv, -⟩ := C.decodes v
  rw [Codec.again, hv, Option.getD_some]

theorem Codec.same_again (v : V) : C.same (C.again v) v := by
  obtain ⟨v', hv, hsame⟩ := C.decodes v
  rw [Codec.again, hv, Option.getD_some]
  exact hsame

theorem Exact.again_eq (C : Exact S V) (v : V) : C.again v = v := C.exact _ _ (C.same_again v)

theorem isValue_of_mem_mapFields {m : GoMap GoString V} {f : Field S} (h : f ∈ mapFields C m) :
    IsValue f.2 := by
  obtain ⟨e, -, rfl⟩ := mem_map.mp h
  exact C.isValue e.2

/-- **The entries of a map are read back.** -/
theorem readsAll_mapFields (m : GoMap GoString V) :
    ∃ n, ReadsAll (insertEntry C) (mapFields C m) ∅ n ∧ SameMap C.same n m := by
  refine ⟨(sortedEntries m).foldl (fun acc e => acc.insert e.1 (C.again e.2)) ∅, ?_, fun k => ?_⟩
  · unfold mapFields
    generalize sortedEntries m = l, (∅ : GoMap GoString V) = acc
    induction l generalizing acc with
    | nil => exact .nil _
    | cons e l ih =>
      refine .cons (fun rest stack => ?_) (ih _)
      show (Decoder.decode _ >>= fun p => _) = _
      rw [decode_value (C.isValue e.2)]
      show (match C.unmarshal (C.marshal e.2) with
        | some v => Except.ok (acc.insert e.1 v, _)
        | none => .error StreamError.malformed) = _
      rw [C.unmarshal_marshal]
  · rw [lookup_rebuilt]
    cases m.lookup k with
    | none => exact .none
    | some v => exact .some (C.same_again v)

/-- `json.Unmarshal` of a map. -/
def unmarshalMap (input : List (Token S)) : Option (GoMap GoString V) :=
  match decodeMapEntries (insertEntry C) (newDecoder input) ∅ with
  | .ok (m, ⟨[], _, _⟩) => some m
  | _ => none

/-- Maps of values. -/
def Codec.map : Codec S (GoMap GoString V) where
  marshal m := objectOf (mapFields C m)
  unmarshal := unmarshalMap C
  same := SameMap C.same
  isValue m := isValue_objectOf fun _ h => isValue_of_mem_mapFields C h
  notNull m h := by cases h
  decodes m := by
    obtain ⟨n, hreads, hsame⟩ := readsAll_mapFields C m
    refine ⟨n, ?_, hsame⟩
    have htop : decodeMapEntries (insertEntry C) (newDecoder (objectOf (mapFields C m))) ∅ =
        .ok (n, ⟨[], .topValue, []⟩) := decodeMapEntries_of_open hreads .topValue rfl
    rw [unmarshalMap, htop]

end Map

end Go.JSON
