import InternalDNS.GoStrings

/-! # JSON text

The text that `encoding/json` writes for strings, numbers and lists of strings.  Hashes
are taken over such text, so what matters is that the text determines the value: every
encoder here is *self-delimiting*, its output can be split off the front of a longer
text in one way only, and so are the records built from them.
-/
namespace Go

open List

/-- The output of `enc` can be split off the front of any text in one way only. -/
def SelfDelimiting {α : Type} (enc : α → GoString) : Prop :=
  ∀ {a b : α} {r s : GoString}, enc a ++ r = enc b ++ s → a = b ∧ r = s

/-! ## Strings -/

variable (c : Char)

/-- The letter of a two-character escape. -/
def shortEscape : Option Char :=
  if c = '"' then some '"' else if c = '\\' then some '\\'
  else if c.toNat = 8 then some 'b' else if c.toNat = 12 then some 'f'
  else if c = '\n' then some 'n' else if c = '\r' then some 'r'
  else if c = '\t' then some 't' else none

/-- The characters written as `\u` and four digits: the other control characters, the
ones HTML cares about, and the two Unicode line separators. -/
def hexEscaped : Bool :=
  c.toNat < 0x20 || c = '<' || c = '>' || c = '&' || c.toNat = 0x2028 || c.toNat = 0x2029

/-- Four hexadecimal digits. -/
def hex4 (n : Nat) : GoString := (digits 16 4 n).map Nat.digitChar

/-- The text of one character inside a JSON string. -/
def escapeChar : GoString :=
  match shortEscape c with
  | some e => ['\\', e]
  | none => if hexEscaped c then '\\' :: 'u' :: hex4 c.toNat else [c]

/-- The JSON text of a string. -/
def jsonString (s : GoString) : GoString := '"' :: s.flatMap escapeChar ++ ['"']

/-- The character a short escape stands for. -/
def unescape (e : Char) : Char :=
  if e = 'b' then Char.ofNat 8 else if e = 'f' then Char.ofNat 12 else if e = 'n' then '\n'
  else if e = 'r' then '\r' else if e = 't' then '\t' else e

theorem unescape_of_shortEscape {c e : Char} (h : shortEscape c = some e) :
    unescape e = c ∧ e ≠ 'u' := by
  unfold shortEscape at h
  have hofNat {n : Nat} (hc : c.toNat = n) : Char.ofNat n = c := by rw [← hc, Char.ofNat_toNat]
  split_ifs at h with h1 h2 h3 h4 h5 h6 h7 <;> cases h
  · subst h1
    decide
  · subst h2
    decide
  · exact ⟨hofNat h3, by decide⟩
  · exact ⟨hofNat h4, by decide⟩
  · subst h5
    decide
  · subst h6
    decide
  · subst h7
    decide

/-- The value of a lower-case hexadecimal digit. -/
def hexValue : Nat := if c.toNat ≤ '9'.toNat then c.toNat - 48 else c.toNat - 87

theorem hexValue_digitChar : ∀ d < 16, hexValue (Nat.digitChar d) = d := by decide

theorem digits_lt {base : Nat} (hb : 0 < base) (width n : Nat) :
    ∀ d ∈ digits base width n, d < base := by
  induction width generalizing n with
  | zero => simp [digits]
  | succ width ih =>
    intro d hd
    rw [digits, mem_append, mem_singleton] at hd
    rcases hd with hd | rfl
    · exact ih _ d hd
    · exact Nat.mod_lt _ hb

/-- Four digits hold every number below 65536, so they can be read back. -/
theorem ofDigits_hex4 {n : Nat} (h : n < 65536) : ofDigits 16 ((hex4 n).map hexValue) = n := by
  have hmap : (hex4 n).map hexValue = digits 16 4 n := by
    rw [hex4, map_map]
    exact (map_congr_left fun d hd =>
      hexValue_digitChar d (digits_lt (by omega) _ _ d hd)).trans (map_id _)
  rw [hmap, ofDigits_digits h]

theorem hexEscaped_lt {c : Char} (h : hexEscaped c = true) : c.toNat < 65536 := by
  simp only [hexEscaped, Bool.or_eq_true, decide_eq_true_eq] at h
  rcases h with ((((h | rfl) | rfl) | rfl) | h) | h
  · omega
  · decide
  · decide
  · decide
  · omega
  · omega

/-- The three shapes a character's text can have. -/
theorem escapeChar_cases : (∃ e, shortEscape c = some e ∧ escapeChar c = ['\\', e]) ∨
    (hexEscaped c = true ∧ escapeChar c = '\\' :: 'u' :: hex4 c.toNat) ∨
    (c ≠ '"' ∧ c ≠ '\\' ∧ escapeChar c = [c]) := by
  cases hs : shortEscape c with
  | some e => exact .inl ⟨e, rfl, by simp [escapeChar, hs]⟩
  | none =>
    by_cases hh : hexEscaped c = true
    · exact .inr (.inl ⟨hh, by simp [escapeChar, hs, hh]⟩)
    · refine .inr (.inr ⟨?_, ?_, by simp [escapeChar, hs, hh]⟩)
      · rintro rfl
        simp [shortEscape] at hs
      · rintro rfl
        simp [shortEscape] at hs

theorem escapeChar_selfDelimiting : SelfDelimiting escapeChar := by
  intro c d r s h
  rcases escapeChar_cases c with ⟨e, hc, hce⟩ | ⟨hc, hce⟩ | ⟨hc1, hc2, hce⟩ <;>
    rcases escapeChar_cases d with ⟨f, hd, hdf⟩ | ⟨hd, hdf⟩ | ⟨hd1, hd2, hdf⟩ <;>
    rw [hce, hdf] at h
  · obtain ⟨rfl, rfl⟩ : e = f ∧ r = s := by simpa using h
    exact ⟨(unescape_of_shortEscape hc).1.symm.trans (unescape_of_shortEscape hd).1, rfl⟩
  · exact absurd (by simpa using (cons.inj (cons.inj h).2).1)
      (unescape_of_shortEscape hc).2
  · exact absurd (cons.inj h).1.symm hd2
  · exact absurd (cons.inj (cons.inj h).2).1.symm (unescape_of_shortEscape hd).2
  · have h' : hex4 c.toNat ++ r = hex4 d.toNat ++ s := by simpa using h
    obtain ⟨hhex, hrs⟩ := append_inj h' (by simp [hex4])
    have hn : c.toNat = d.toNat := by
      rw [← ofDigits_hex4 (hexEscaped_lt hc), hhex, ofDigits_hex4 (hexEscaped_lt hd)]
    exact ⟨Char.toNat_inj.mp hn, hrs⟩
  · exact absurd (cons.inj h).1.symm hd2
  · exact absurd (cons.inj h).1 hc2
  · exact absurd (cons.inj h).1 hc2
  · exact cons.inj h

theorem escapeChar_ne_quote (r s : GoString) : escapeChar c ++ r ≠ '"' :: s := by
  intro h
  rcases escapeChar_cases c with ⟨e, -, hce⟩ | ⟨-, hce⟩ | ⟨hc, -, hce⟩ <;> rw [hce] at h
  · exact absurd (cons.inj h).1 (by decide)
  · exact absurd (cons.inj h).1 (by decide)
  · exact hc (cons.inj h).1

theorem jsonString_selfDelimiting : SelfDelimiting jsonString := by
  intro s t r r' h
  have h' : s.flatMap escapeChar ++ ('"' :: r) = t.flatMap escapeChar ++ ('"' :: r') := by
    simpa [jsonString] using h
  clear h
  induction s generalizing t with
  | nil =>
    cases t with
    | nil => exact ⟨rfl, (cons.inj h').2⟩
    | cons d t =>
      rw [flatMap_cons, append_assoc] at h'
      exact absurd h'.symm (escapeChar_ne_quote d _ _)
  | cons c s ih =>
    cases t with
    | nil =>
      rw [flatMap_cons, append_assoc] at h'
      exact absurd h' (escapeChar_ne_quote c _ _)
    | cons d t =>
      rw [flatMap_cons, flatMap_cons, append_assoc, append_assoc] at h'
      obtain ⟨rfl, hrest⟩ := escapeChar_selfDelimiting h'
      obtain ⟨rfl, hr⟩ := ih hrest
      exact ⟨rfl, hr⟩

/-! ## Lists of strings -/

/-- The JSON text of a list of strings; a nil slice is `null`. -/
def jsonStrings (ss : List GoString) : GoString :=
  if ss = [] then lit "null" else ['['] ++ List.intercalate [','] (ss.map jsonString) ++ [']']

theorem intercalate_cons_eq (sep a : GoString) (l : List GoString) :
    intercalate sep (a :: l) = a ++ l.flatMap (sep ++ ·) := by
  induction l generalizing a with
  | nil => simp [intercalate]
  | cons b l ih =>
    rw [intercalate_cons_cons, ih]
    simp

theorem jsonStrings_selfDelimiting : SelfDelimiting jsonStrings := by
  have htail : ∀ {xs ys : List GoString} {r s : GoString},
      xs.flatMap (fun x => ',' :: jsonString x) ++ ']' :: r =
        ys.flatMap (fun y => ',' :: jsonString y) ++ ']' :: s → xs = ys ∧ r = s := by
    intro xs
    induction xs with
    | nil =>
      intro ys r s h
      cases ys with
      | nil => exact ⟨rfl, (cons.inj h).2⟩
      | cons y ys => exact absurd (cons.inj h).1 (by decide)
    | cons x xs ih =>
      intro ys r s h
      cases ys with
      | nil => exact absurd (cons.inj h).1 (by decide)
      | cons y ys =>
        simp only [flatMap_cons, cons_append, append_assoc] at h
        obtain ⟨rfl, hrest⟩ := jsonString_selfDelimiting (cons.inj h).2
        obtain ⟨rfl, rfl⟩ := ih hrest
        exact ⟨rfl, rfl⟩
  have hnull : ∀ {r s : GoString}, lit "null" ++ r ≠ '[' :: s := by
    intro r s h
    exact absurd (cons.inj h).1 (by decide)
  have hcons : ∀ x xs (r : GoString), jsonStrings (x :: xs) ++ r =
      '[' :: (jsonString x ++ (xs.flatMap (fun x => ',' :: jsonString x) ++ ']' :: r)) := by
    intro x xs r
    simp [jsonStrings, intercalate_cons_eq, flatMap_map]
  intro xs ys r s h
  cases xs with
  | nil =>
    cases ys with
    | nil => exact ⟨rfl, append_cancel_left h⟩
    | cons y ys => exact absurd (h.trans (hcons y ys s)) hnull
  | cons x xs =>
    cases ys with
    | nil => exact absurd (h.symm.trans (hcons x xs r)) hnull
    | cons y ys =>
      rw [hcons, hcons] at h
      obtain ⟨rfl, hrest⟩ := jsonString_selfDelimiting (cons.inj h).2
      obtain ⟨rfl, rfl⟩ := htail hrest
      exact ⟨rfl, rfl⟩

/-! ## Values and their sizes -/

/-- The JSON text of a boolean. -/
def jsonBool (b : Bool) : GoString := if b then lit "true" else lit "false"

/-- The JSON text of a slice of values, given by their texts; a nil slice is `null`. -/
def jsonSlice (values : List GoString) : GoString :=
  if values = [] then lit "null" else ['['] ++ List.intercalate [','] values ++ [']']

/-- The JSON text of a struct, from the names and texts of the fields that are written. -/
def jsonObject (fields : List (GoString × GoString)) : GoString :=
  lit "\x7b" ++ List.intercalate [','] (fields.map fun f => jsonString f.1 ++ ':' :: f.2) ++ lit "\x7d"

/-- A field that is left out if it is empty. -/
def omitEmpty (isEmpty : Bool) (name value : GoString) : List (GoString × GoString) :=
  if isEmpty then [] else [(name, value)]

/-- The length of a string in bytes. -/
def byteLength (s : GoString) : Nat := (s.map Char.utf8Size).sum

end Go
