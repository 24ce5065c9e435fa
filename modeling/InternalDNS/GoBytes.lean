import InternalDNS.GoStrings

/-! # Go strings as bytes

A Go string is a sequence of bytes, and a program that reads a file or a command
line sees bytes that need not be UTF-8.  Where escapes, quotes and lengths are
counted in bytes the string is modelled as the list of them.  The functions of
the `strings` package that work on characters decode the bytes first: a byte
that starts no well-formed character is the replacement character of width one,
which is what `utf8.DecodeRuneInString` answers.

The decoder is the one of Lean's core library.  What is added here is the loop
over a whole string, and the fact the callers rest on: text that starts with an
ASCII byte is decoded the same whatever bytes stand in front of it.
-/
namespace Go

open List Option

/-- A Go string, as the list of its bytes. -/
abbrev Bytes := List UInt8

/-! ## Reading a list piece by piece

The loop `for i < len(s)` whose body consumes at least one element.  The fuel is
the length, which is always enough. -/

section Pieces

variable {α β ε : Type}

/-- The loop with explicit fuel. -/
def piecesUpTo (read : List β → Option α × List β) : Nat → List β → List α
  | 0, _ => []
  | _ + 1, [] => []
  | n + 1, b :: s => (read (b :: s)).1.toList ++ piecesUpTo read n (read (b :: s)).2

/-- The pieces a reader takes off the front of a list until nothing is left. -/
def pieces (read : List β → Option α × List β) (s : List β) : List α :=
  piecesUpTo read s.length s

/-- A reader that consumes at least one element of every list that has one. -/
def Consumes (read : List β → Option α × List β) : Prop :=
  ∀ b s, (read (b :: s)).2.length ≤ s.length

variable {read : List β → Option α × List β} {s : List β}

/-- Any fuel that covers the list gives the same pieces. -/
theorem piecesUpTo_congr (h : Consumes read) {n m : Nat} (hn : s.length ≤ n) (hm : s.length ≤ m) :
    piecesUpTo read n s = piecesUpTo read m s := by
  induction n generalizing m s with
  | zero =>
    obtain rfl : s = [] := length_eq_zero_iff.mp (Nat.le_zero.mp hn)
    cases m <;> rfl
  | succ n ih =>
    cases s with
    | nil => cases m <;> rfl
    | cons b s =>
      simp only [length_cons] at hn hm
      obtain ⟨m, rfl⟩ : ∃ k, m = k + 1 := ⟨m - 1, by omega⟩
      have hread := h b s
      rw [piecesUpTo, piecesUpTo, ih (m := m) (by omega) (by omega)]

/-- One round of the loop. -/
theorem pieces_cons (h : Consumes read) (b : β) (s : List β) :
    pieces read (b :: s) = (read (b :: s)).1.toList ++ pieces read (read (b :: s)).2 := by
  rw [pieces, length_cons, piecesUpTo, piecesUpTo_congr h (h b s) le_rfl]
  rfl

/-- The loop of a reader that may fail, with explicit fuel. -/
def tryPiecesUpTo (read : List β → Except ε (Option α × List β)) :
    Nat → List β → Except ε (List α)
  | 0, _ => .ok []
  | _ + 1, [] => .ok []
  | n + 1, b :: s => do
    let (piece, rest) ← read (b :: s)
    return piece.toList ++ (← tryPiecesUpTo read n rest)

/-- The pieces a reader takes off the front of a list until nothing is left or one fails. -/
def tryPieces (read : List β → Except ε (Option α × List β)) (s : List β) :
    Except ε (List α) :=
  tryPiecesUpTo read s.length s

/-- A reader that consumes at least one element whenever it succeeds. -/
def TryConsumes (read : List β → Except ε (Option α × List β)) : Prop :=
  ∀ b s piece rest, read (b :: s) = .ok (piece, rest) → rest.length ≤ s.length

variable {try_ : List β → Except ε (Option α × List β)}

/-- Any fuel that covers the list gives the same outcome. -/
theorem tryPiecesUpTo_congr (h : TryConsumes try_) {n m : Nat} (hn : s.length ≤ n)
    (hm : s.length ≤ m) :
    tryPiecesUpTo try_ n s = tryPiecesUpTo try_ m s := by
  induction n generalizing m s with
  | zero =>
    obtain rfl : s = [] := length_eq_zero_iff.mp (Nat.le_zero.mp hn)
    cases m <;> rfl
  | succ n ih =>
    cases s with
    | nil => cases m <;> rfl
    | cons b s =>
      simp only [length_cons] at hn hm
      obtain ⟨m, rfl⟩ : ∃ k, m = k + 1 := ⟨m - 1, by omega⟩
      rw [tryPiecesUpTo, tryPiecesUpTo]
      cases hread : try_ (b :: s) with
      | error e => rfl
      | ok out =>
        have hrest := h b s out.1 out.2 hread
        simp only [bind, Except.bind]
        rw [ih (m := m) (by omega) (by omega)]

/-- One round of the loop. -/
theorem tryPieces_ok (h : TryConsumes try_) {s rest : List β} {piece : Option α} (hs : s ≠ [])
    (hread : try_ s = .ok (piece, rest)) :
    tryPieces try_ s = (tryPieces try_ rest).map (piece.toList ++ ·) := by
  obtain ⟨b, s, rfl⟩ := exists_cons_of_ne_nil hs
  rw [tryPieces, length_cons, tryPiecesUpTo, hread]
  simp only [bind, Except.bind]
  rw [tryPiecesUpTo_congr h (h b s piece rest hread) le_rfl, tryPieces]
  cases tryPiecesUpTo try_ rest.length rest <;> rfl

end Pieces

namespace Bytes

/-! ## Characters -/

/-- The UTF-8 encoding of a text. -/
def encode (cs : List Char) : Bytes := cs.flatMap String.utf8EncodeChar

/-- A string literal. -/
abbrev lit (s : String) : Bytes := encode s.toList

/-- The byte of an ASCII character. -/
abbrev byte (c : Char) : UInt8 := c.toUInt8

/-- `utf8.DecodeRuneInString`: the character a string starts with, nothing where the bytes
are not the encoding of one. -/
def decodeRune (s : Bytes) : Option Char := s.toByteArray.utf8DecodeChar? 0

@[simp] theorem encode_nil : encode [] = [] := rfl

@[simp] theorem encode_cons (c : Char) (cs : List Char) :
    encode (c :: cs) = String.utf8EncodeChar c ++ encode cs := rfl

@[simp] theorem encode_append (cs ds : List Char) :
    encode (cs ++ ds) = encode cs ++ encode ds := flatMap_append ..

/-- An encoded character is read back, whatever follows it. -/
@[simp] theorem decodeRune_encode (c : Char) (t : Bytes) :
    decodeRune (String.utf8EncodeChar c ++ t) = some c := by
  rw [decodeRune, toByteArray_append, ByteArray.utf8DecodeChar?_utf8EncodeChar_append]

variable {s : Bytes} {c : Char} {b : UInt8}

/-- A character is read only where its encoding stands. -/
theorem eq_of_decodeRune (h : decodeRune s = some c) : ∃ t, s = String.utf8EncodeChar c ++ t := by
  obtain ⟨rest, hrest⟩ := ByteArray.exists_of_utf8DecodeChar?_eq_some h
  refine ⟨rest.data.toList, toByteArray_inj.mp ?_⟩
  rw [hrest, toByteArray_append]
  exact congrArg _ (ByteArray.ext (by simp))

/-- The character of a byte, read as Latin-1. -/
def char (b : UInt8) : Char := Char.ofNat b.toNat

theorem toNat_char (b : UInt8) : (char b).toNat = b.toNat := by
  have hb : b.toNat < 256 := b.toNat_lt
  have hvalid : b.toNat.isValidChar := .inl (by omega)
  rw [char, Char.ofNat, dif_pos hvalid]
  rfl

@[simp] theorem byte_char (b : UInt8) : byte (char b) = b := by
  apply UInt8.toNat.inj
  rw [byte, Char.toUInt8, UInt32.toNat_toUInt8]
  have hchar : (char b).val.toNat = b.toNat := toNat_char b
  rw [hchar]
  exact Nat.mod_eq_of_lt b.toNat_lt

@[simp] theorem encode_char (hb : b < 0x80) : String.utf8EncodeChar (char b) = [b] := by
  have hn : b.toNat < 128 := hb
  have hchar := toNat_char b
  rw [Char.toNat] at hchar
  simp only [String.utf8EncodeChar, hchar]
  rw [if_pos (by omega), UInt8.ofNat_toNat]

@[simp] theorem decodeRune_ascii (hb : b < 0x80) (t : Bytes) :
    decodeRune (b :: t) = some (char b) := by
  have h := decodeRune_encode (char b) t
  rwa [encode_char hb] at h

/-- The byte that starts an encoded character stands nowhere else in one. -/
theorem not_firstByte_of_encode {front back : Bytes}
    (h : String.utf8EncodeChar c = front ++ b :: back) (hfront : front ≠ []) :
    ¬ b.IsUTF8FirstByte := by
  intro hb
  have hlen : front.length < (String.utf8EncodeChar c).length := by
    rw [h]
    simp
  have hget : (String.utf8EncodeChar c)[front.length] = b := by
    simp [h]
  have hzero : front.length = 0 :=
    UInt8.isUTF8FirstByte_getElem_utf8EncodeChar.mp (hget ▸ hb)
  exact hfront (length_eq_zero_iff.mp hzero)

theorem firstByte_of_ascii (hb : b < 0x80) : b.IsUTF8FirstByte := by
  have hall : ∀ n : Fin 256, n.val < 128 → (UInt8.ofFin n).IsUTF8FirstByte := by decide +kernel
  exact hall b.toFin hb

theorem exists_firstByte (c : Char) :
    ∃ b s, String.utf8EncodeChar c = b :: s ∧ b.IsUTF8FirstByte := by
  obtain ⟨b, s, hs⟩ := exists_cons_of_ne_nil (String.utf8EncodeChar_ne_nil (c := c))
  have hlen : 0 < (String.utf8EncodeChar c).length := by
    rw [hs]
    simp
  have hget : (String.utf8EncodeChar c)[0] = b := by
    simp [hs]
  exact ⟨b, s, hs, hget ▸ UInt8.isUTF8FirstByte_getElem_utf8EncodeChar.mpr rfl⟩

theorem encodeChar_injective : Function.Injective String.utf8EncodeChar := by
  intro c d h
  have hc := decodeRune_encode c []
  rw [h, decodeRune_encode] at hc
  exact (some.inj hc).symm

/-- No encoded character is the end of another. -/
theorem encodeChar_end_unique {c d : Char} {s t : Bytes}
    (h : s ++ String.utf8EncodeChar c = t ++ String.utf8EncodeChar d) : c = d := by
  have hend : ∀ {c d : Char} {front : Bytes},
      String.utf8EncodeChar c = front ++ String.utf8EncodeChar d → c = d := by
    intro c d front h
    cases front with
    | nil => exact encodeChar_injective h
    | cons x front =>
      obtain ⟨b, back, hd, hb⟩ := exists_firstByte d
      rw [hd] at h
      exact absurd hb (not_firstByte_of_encode h (cons_ne_nil x front))
  obtain ⟨front, -, hsplit⟩ | ⟨front, -, hsplit⟩ := append_eq_append_iff.mp h
  · exact hend hsplit
  · exact (hend hsplit).symm

/-- The next character of a string and what follows it. -/
def readRune : Bytes → Option Char × Bytes
  | [] => (none, [])
  | b :: s =>
    match decodeRune (b :: s) with
    | some c => (some c, (b :: s).drop c.utf8Size)
    | none => (some (Char.ofNat 0xFFFD), s)

/-- The characters a `range` loop over a string visits. -/
def runes (s : Bytes) : List Char := pieces readRune s

theorem readRune_consumes : Consumes readRune := by
  intro b s
  simp only [readRune]
  split
  · rename_i c _
    have := c.utf8Size_pos
    simp only [length_drop, length_cons]
    omega
  · exact le_rfl

@[simp] theorem runes_nil : runes [] = [] := rfl

@[simp] theorem runes_encode_append (c : Char) (t : Bytes) :
    runes (String.utf8EncodeChar c ++ t) = c :: runes t := by
  obtain ⟨b, s, hs⟩ := exists_cons_of_ne_nil (String.utf8EncodeChar_ne_nil (c := c))
  have hdecode : decodeRune (b :: (s ++ t)) = some c := by
    rw [← cons_append, ← hs, decodeRune_encode]
  have hdrop : (b :: (s ++ t)).drop c.utf8Size = t := by
    rw [← cons_append, ← hs, ← String.length_utf8EncodeChar, drop_left]
  rw [hs, cons_append, runes, pieces_cons readRune_consumes]
  simp only [readRune, hdecode, hdrop, toList_some, singleton_append]
  rfl

theorem runes_invalid (h : decodeRune (b :: s) = none) :
    runes (b :: s) = Char.ofNat 0xFFFD :: runes s := by
  rw [runes, pieces_cons readRune_consumes]
  simp only [readRune, h, toList_some, singleton_append]
  rfl

@[simp] theorem runes_encode (cs : List Char) : runes (encode cs) = cs := by
  induction cs with
  | nil => rfl
  | cons c cs ih => rw [encode_cons, runes_encode_append, ih]

/-- Induction over a string the way it is decoded. -/
theorem runes_induction {P : Bytes → Prop} (hnil : P [])
    (hvalid : ∀ c t, P t → P (String.utf8EncodeChar c ++ t))
    (hinvalid : ∀ b s, decodeRune (b :: s) = none → P s → P (b :: s)) (s : Bytes) : P s := by
  induction hn : s.length using Nat.strong_induction_on generalizing s with
  | _ n ih =>
    cases s with
    | nil => exact hnil
    | cons b s =>
      cases hdecode : decodeRune (b :: s) with
      | none =>
        exact hinvalid b s hdecode (ih s.length (by rw [← hn]; exact Nat.lt_succ_self _) s rfl)
      | some c =>
        obtain ⟨t, ht⟩ := eq_of_decodeRune hdecode
        rw [ht]
        refine hvalid c t (ih t.length ?_ t rfl)
        have hpos := length_pos_iff.mpr (String.utf8EncodeChar_ne_nil (c := c))
        rw [← hn, ht, length_append]
        omega

/-! ## ASCII -/

theorem runes_cons_ascii (hb : b < 0x80) (s : Bytes) : runes (b :: s) = char b :: runes s := by
  have h := runes_encode_append (char b) s
  rwa [encode_char hb] at h

/-- Every byte as a character, read as Latin-1.  On ASCII this is the text itself. -/
def text (s : Bytes) : GoString := s.map char

/-- The bytes of a text of ASCII characters. -/
def ofText (s : GoString) : Bytes := s.map byte

theorem mem_encodeChar (hb : b < 0x80) : b ∈ String.utf8EncodeChar c ↔ c = char b := by
  constructor
  · intro h
    obtain ⟨front, back, hsplit⟩ := append_of_mem h
    cases front with
    | nil =>
      have hdecode := decodeRune_encode c []
      rw [append_nil, hsplit, nil_append, decodeRune_ascii hb] at hdecode
      exact (some.inj hdecode).symm
    | cons x front =>
      exact absurd (firstByte_of_ascii hb) (not_firstByte_of_encode hsplit (cons_ne_nil x front))
  · rintro rfl
    rw [encode_char hb]
    exact mem_singleton_self b

/-- An ASCII byte of an encoded text is a character of it. -/
theorem mem_encode (hb : b < 0x80) {cs : List Char} : b ∈ encode cs ↔ char b ∈ cs := by
  simp [encode, mem_encodeChar hb]

/-- An ASCII character is decoded exactly where its byte stands. -/
theorem mem_runes (hb : b < 0x80) : char b ∈ runes s ↔ b ∈ s := by
  induction s using runes_induction with
  | hnil => simp
  | hvalid c t ih =>
    rw [runes_encode_append, mem_cons, mem_append, mem_encodeChar hb, ih, eq_comm]
  | hinvalid x s hdecode ih =>
    have hx : b ≠ x := by
      rintro rfl
      rw [decodeRune_ascii hb] at hdecode
      cases hdecode
    have hchar : char b ≠ Char.ofNat 0xFFFD := by
      intro h
      have hnat := congrArg Char.toNat h
      rw [toNat_char] at hnat
      have : b.toNat < 128 := hb
      rw [show (Char.ofNat 0xFFFD).toNat = 0xFFFD by decide] at hnat
      omega
    rw [runes_invalid hdecode, mem_cons, mem_cons, ih]
    simp [hx, hchar]

/-! ## Case -/

variable (U : CaseMap)

/-- `strings.ToLower`. -/
def toLower (s : Bytes) : Bytes := encode ((runes s).map U.lower)

/-- `strings.ToUpper`. -/
def toUpper (s : Bytes) : Bytes := encode ((runes s).map U.upper)

/-- The small letter of an ASCII letter. -/
def lowerByte (b : UInt8) : UInt8 := if 0x41 ≤ b ∧ b ≤ 0x5A then b + 32 else b

@[simp] theorem toLower_nil : toLower U [] = [] := rfl

@[simp] theorem runes_toLower (s : Bytes) : runes (toLower U s) = (runes s).map U.lower :=
  runes_encode _

theorem toLower_eq_nil : toLower U s = [] ↔ s = [] := by
  constructor
  · intro h
    have hrunes : runes s = [] := by
      have := congrArg runes h
      rwa [runes_toLower, runes_nil, map_eq_nil_iff] at this
    induction s using runes_induction with
    | hnil => rfl
    | hvalid c t _ => simp [runes_encode_append] at hrunes
    | hinvalid b s hb _ => simp [runes_invalid hb] at hrunes
  · rintro rfl
    rfl

theorem lowerByte_lt (hb : b < 0x80) : lowerByte b < 0x80 := by
  have hall : ∀ n : Fin 256, n.val < 128 → lowerByte (UInt8.ofFin n) < 0x80 := by decide +kernel
  exact hall b.toFin hb

theorem char_lowerByte (hb : b < 0x80) : char (lowerByte b) = (char b).toLower := by
  have hall : ∀ n : Fin 256, n.val < 128 →
      char (lowerByte (UInt8.ofFin n)) = (char (UInt8.ofFin n)).toLower := by decide +kernel
  exact hall b.toFin hb

theorem toLower_cons (hb : b < 0x80) (s : Bytes) :
    toLower U (b :: s) = lowerByte b :: toLower U s := by
  have hchar : (char b).toNat < 128 := by rw [toNat_char]; exact hb
  rw [toLower, runes_cons_ascii hb, map_cons, encode_cons, U.lower_ascii _ hchar,
    ← char_lowerByte hb, encode_char (lowerByte_lt hb), toLower]
  rfl

/-- Lowering neither makes nor removes an ASCII byte that is no letter. -/
theorem mem_toLower (hb : b < 0x41 ∨ (0x5A < b ∧ b < 0x61)) : b ∈ toLower U s ↔ b ∈ s := by
  have hnat : b.toNat < 65 ∨ (90 < b.toNat ∧ b.toNat < 97) := hb
  have hascii : b < 0x80 := show b.toNat < 128 by omega
  rw [toLower, mem_encode hascii, List.mem_map, ← mem_runes hascii]
  constructor
  · rintro ⟨c, hc, hlower⟩
    rw [lower_eq_iff_of_caseless U (by rw [toNat_char]; exact hnat)] at hlower
    exact hlower ▸ hc
  · intro h
    exact ⟨char b, h, (lower_eq_iff_of_caseless U (by rw [toNat_char]; exact hnat) _).mpr rfl⟩

/-! ## White space at the ends -/

/-- `utf8.DecodeLastRuneInString`: the character whose encoding ends a string.  At most one
width fits, since no encoding is the end of another. -/
def lastRune (s : Bytes) : Option Char :=
  [1, 2, 3, 4].findSome? fun width =>
    (decodeRune (s.drop (s.length - width))).filter fun c => c.utf8Size = width

/-- White space removed from the front, with explicit fuel. -/
def trimLeftUpTo : Nat → Bytes → Bytes
  | 0, s => s
  | n + 1, s =>
    match decodeRune s with
    | some c => if isSpace c then trimLeftUpTo n (s.drop c.utf8Size) else s
    | none => s

/-- White space removed from the end, with explicit fuel. -/
def trimRightUpTo : Nat → Bytes → Bytes
  | 0, s => s
  | n + 1, s =>
    match lastRune s with
    | some c => if isSpace c then trimRightUpTo n (s.take (s.length - c.utf8Size)) else s
    | none => s

/-- `strings.TrimLeftFunc` with `unicode.IsSpace`. -/
def trimLeft (s : Bytes) : Bytes := trimLeftUpTo s.length s

/-- `strings.TrimRightFunc` with `unicode.IsSpace`. -/
def trimRight (s : Bytes) : Bytes := trimRightUpTo s.length s

/-- `strings.TrimSpace`. -/
def trimSpace (s : Bytes) : Bytes := trimRight (trimLeft s)

/-- The first character, if the bytes are one, is not white space. -/
def LeftTrimmed (s : Bytes) : Prop := ∀ c, decodeRune s = some c → isSpace c = false

/-- The last character, if the bytes are one, is not white space. -/
def RightTrimmed (s : Bytes) : Prop := ∀ c, lastRune s = some c → isSpace c = false

/-- A string without white space at its ends. -/
def Trimmed (s : Bytes) : Prop := LeftTrimmed s ∧ RightTrimmed s

theorem utf8Size_mem (c : Char) : c.utf8Size ∈ [1, 2, 3, 4] := by
  have hpos := c.utf8Size_pos
  have hle := c.utf8Size_le_four
  simp only [mem_cons, not_mem_nil, or_false]
  omega

theorem lastRune_ends (h : lastRune s = some c) : ∃ t, s = t ++ String.utf8EncodeChar c := by
  obtain ⟨width, -, hw⟩ := exists_of_findSome?_eq_some h
  simp only [filter_eq_some_iff, decide_eq_true_eq] at hw
  obtain ⟨hdecode, rfl⟩ := hw
  obtain ⟨rest, hrest⟩ := eq_of_decodeRune hdecode
  have hlen := congrArg length hrest
  rw [length_drop, length_append, String.length_utf8EncodeChar] at hlen
  have hpos := c.utf8Size_pos
  obtain rfl : rest = [] := length_eq_zero_iff.mp (by omega)
  refine ⟨s.take (s.length - c.utf8Size), ?_⟩
  rw [append_nil] at hrest
  rw [← hrest, take_append_drop]

@[simp] theorem lastRune_append (t : Bytes) (c : Char) :
    lastRune (t ++ String.utf8EncodeChar c) = some c := by
  -- the width of this character fits, so some width does, and what it finds ends the string
  have hsome : (lastRune (t ++ String.utf8EncodeChar c)).isSome := by
    rw [lastRune, findSome?_isSome_iff]
    refine ⟨c.utf8Size, utf8Size_mem c, ?_⟩
    have hdrop : (t ++ String.utf8EncodeChar c).drop
        ((t ++ String.utf8EncodeChar c).length - c.utf8Size) = String.utf8EncodeChar c := by
      rw [length_append, String.length_utf8EncodeChar, Nat.add_sub_cancel, drop_left]
    have hdecode := decodeRune_encode c []
    rw [append_nil] at hdecode
    rw [hdrop, hdecode]
    simp
  obtain ⟨d, hd⟩ := isSome_iff_exists.mp hsome
  obtain ⟨t', ht'⟩ := lastRune_ends hd
  rw [hd, encodeChar_end_unique ht']

theorem trimLeftUpTo_spec {n : Nat} (hn : s.length ≤ n) :
    (∃ cs, (∀ c ∈ cs, isSpace c = true) ∧ s = encode cs ++ trimLeftUpTo n s) ∧
      LeftTrimmed (trimLeftUpTo n s) := by
  induction n generalizing s with
  | zero =>
    obtain rfl : s = [] := length_eq_zero_iff.mp (Nat.le_zero.mp hn)
    exact ⟨⟨[], nofun, rfl⟩, nofun⟩
  | succ n ih =>
    rw [trimLeftUpTo]
    cases hdecode : decodeRune s with
    | none => exact ⟨⟨[], nofun, rfl⟩, fun c hc => by rw [hdecode] at hc; cases hc⟩
    | some c =>
      obtain ⟨t, rfl⟩ := eq_of_decodeRune hdecode
      by_cases hspace : isSpace c = true
      · have hpos := c.utf8Size_pos
        rw [length_append, String.length_utf8EncodeChar] at hn
        simp only [hspace, if_true]
        rw [← String.length_utf8EncodeChar, drop_left]
        obtain ⟨⟨cs, hcs, ht⟩, htrim⟩ := ih (s := t) (by omega)
        refine ⟨⟨c :: cs, forall_mem_cons.mpr ⟨hspace, hcs⟩, ?_⟩, htrim⟩
        rw [encode_cons, append_assoc, ← ht]
      · simp only [hspace, if_false, Bool.false_eq_true]
        refine ⟨⟨[], nofun, rfl⟩, fun d hd => ?_⟩
        rw [hdecode, some.injEq] at hd
        exact hd ▸ Bool.eq_false_iff.mpr hspace

theorem trimRightUpTo_spec {n : Nat} (hn : s.length ≤ n) :
    (∃ cs, (∀ c ∈ cs, isSpace c = true) ∧ s = trimRightUpTo n s ++ encode cs) ∧
      RightTrimmed (trimRightUpTo n s) := by
  induction n generalizing s with
  | zero =>
    obtain rfl : s = [] := length_eq_zero_iff.mp (Nat.le_zero.mp hn)
    exact ⟨⟨[], nofun, rfl⟩, nofun⟩
  | succ n ih =>
    rw [trimRightUpTo]
    cases hlast : lastRune s with
    | none =>
      exact ⟨⟨[], nofun, (append_nil s).symm⟩, fun c hc => by rw [hlast] at hc; cases hc⟩
    | some c =>
      obtain ⟨t, rfl⟩ := lastRune_ends hlast
      by_cases hspace : isSpace c = true
      · have hpos := c.utf8Size_pos
        rw [length_append, String.length_utf8EncodeChar] at hn
        simp only [hspace, if_true]
        rw [length_append, String.length_utf8EncodeChar, Nat.add_sub_cancel, take_left]
        obtain ⟨⟨cs, hcs, ht⟩, htrim⟩ := ih (s := t) (by omega)
        refine ⟨⟨cs ++ [c], forall_mem_append.mpr ⟨hcs, by simpa using hspace⟩, ?_⟩, htrim⟩
        rw [encode_append, ← append_assoc, ← ht, encode_cons, encode_nil, append_nil]
      · simp only [hspace, if_false, Bool.false_eq_true]
        refine ⟨⟨[], nofun, (append_nil _).symm⟩, fun d hd => ?_⟩
        rw [hlast, some.injEq] at hd
        exact hd ▸ Bool.eq_false_iff.mpr hspace

theorem LeftTrimmed.of_append {s t : Bytes} (h : LeftTrimmed (s ++ t)) : LeftTrimmed s := by
  intro c hc
  obtain ⟨u, rfl⟩ := eq_of_decodeRune hc
  exact h c (by rw [append_assoc, decodeRune_encode])

/-- What `strings.TrimSpace` removes is white space, and it removes all of it. -/
theorem trimSpace_spec (s : Bytes) :
    (∃ cs ds, (∀ c ∈ cs, isSpace c = true) ∧ (∀ c ∈ ds, isSpace c = true) ∧
      s = encode cs ++ trimSpace s ++ encode ds) ∧ Trimmed (trimSpace s) := by
  obtain ⟨⟨cs, hcs, hleft⟩, hl⟩ := trimLeftUpTo_spec (le_refl s.length)
  obtain ⟨⟨ds, hds, hright⟩, hr⟩ := trimRightUpTo_spec (le_refl (trimLeft s).length)
  refine ⟨⟨cs, ds, hcs, hds, ?_⟩, LeftTrimmed.of_append (t := encode ds) ?_, hr⟩
  · calc s = encode cs ++ trimLeft s := hleft
      _ = encode cs ++ (trimSpace s ++ encode ds) := congrArg _ hright
      _ = encode cs ++ trimSpace s ++ encode ds := (append_assoc ..).symm
  · exact hright ▸ hl

theorem trimmed_trimSpace (s : Bytes) : Trimmed (trimSpace s) := (trimSpace_spec s).2

theorem trimLeft_of_leftTrimmed (h : LeftTrimmed s) : trimLeft s = s := by
  rw [trimLeft]
  cases s.length with
  | zero => rfl
  | succ n =>
    rw [trimLeftUpTo]
    cases hdecode : decodeRune s with
    | none => rfl
    | some c => simp [h c hdecode]

theorem trimRight_of_rightTrimmed (h : RightTrimmed s) : trimRight s = s := by
  rw [trimRight]
  cases s.length with
  | zero => rfl
  | succ n =>
    rw [trimRightUpTo]
    cases hlast : lastRune s with
    | none => rfl
    | some c => simp [h c hlast]

theorem trimSpace_of_trimmed (h : Trimmed s) : trimSpace s = s := by
  rw [trimSpace, trimLeft_of_leftTrimmed h.1, trimRight_of_rightTrimmed h.2]

@[simp] theorem trimSpace_trimSpace (s : Bytes) : trimSpace (trimSpace s) = trimSpace s :=
  trimSpace_of_trimmed (trimmed_trimSpace s)

theorem mem_of_mem_trimSpace (h : b ∈ trimSpace s) : b ∈ s := by
  obtain ⟨⟨cs, ds, -, -, hs⟩, -⟩ := trimSpace_spec s
  rw [hs]
  simp [h]

end Bytes

end Go
