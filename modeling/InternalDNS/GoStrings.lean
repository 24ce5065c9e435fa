import Mathlib

/-! # Go strings

A Go string that reached a program through JSON is a sequence of Unicode code
points.  It is modelled here as the list of its characters, which gives suffixes
and concatenation their usual list lemmas.  The operations are those of the
`strings`, `strconv` and `unicode` packages.

Go folds case with the Unicode tables.  The tables themselves are not needed:
`CaseMap` records the few facts about them that name handling rests on, so that
everything proved for a `CaseMap` holds for the real tables.
-/
namespace Go

open List Nat

/-- A Go string, as the list of its code points. -/
abbrev GoString := List Char

instance : LawfulBEq GoString := instLawfulBEq

/-- A string literal. -/
abbrev lit (s : String) : GoString := s.toList

/-- `%q` of a text without special characters. -/
def quoted (s : GoString) : GoString := ['"'] ++ s ++ ['"']

/-- `unicode.IsSpace`: the characters with the White Space property. -/
def isSpace (c : Char) : Bool :=
  let n := c.toNat
  (9 ≤ n && n ≤ 13) || n == 0x20 || n == 0x85 || n == 0xA0 || n == 0x1680 ||
    (0x2000 ≤ n && n ≤ 0x200A) || n == 0x2028 || n == 0x2029 || n == 0x202F || n == 0x205F ||
    n == 0x3000

/-! ## Case -/

/-- The ASCII letter a character folds to.  Besides the letters of the other case only the
long s and the Kelvin sign fold to one. -/
def foldASCII (c : Char) : Char :=
  if c.toNat = 0x17F then 's' else if c.toNat = 0x212A then 'k' else c.toLower

/-- The simple case mappings of the Unicode tables.  Only two characters outside
ASCII fold into it, the Turkish dotted capital I and the Kelvin sign. -/
structure CaseMap where
  lower : Char → Char
  upper : Char → Char
  lower_ascii : ∀ c, c.toNat < 128 → lower c = c.toLower
  upper_ascii : ∀ c, c.toNat < 128 → upper c = c.toUpper
  lower_other : ∀ c, 128 ≤ c.toNat → lower c = 'i' ∨ lower c = 'k' ∨ 128 ≤ (lower c).toNat
  lower_idem : ∀ c, lower (lower c) = lower c
  lower_space : ∀ c, isSpace (lower c) = isSpace c
  upper_fold : ∀ c, (foldASCII c).toNat < 128 → foldASCII (upper c) = foldASCII c

variable {c : Char} {s : GoString} {n : Nat}

theorem toLower_of_not_upper (h : c.toNat < 65 ∨ 90 < c.toNat) : c.toLower = c := by
  have hn : ¬ (c.val ≥ 'A'.val ∧ c.val ≤ 'Z'.val) := by
    rintro ⟨h1, h2⟩
    have h1' : 65 ≤ c.toNat := h1
    have h2' : c.toNat ≤ 90 := h2
    omega
  simp only [Char.toLower, hn, dite_false]

theorem toLower_of_upper (h : 65 ≤ c.toNat ∧ c.toNat ≤ 90) : c.toLower.toNat = c.toNat + 32 := by
  have hy : c.val ≥ 'A'.val ∧ c.val ≤ 'Z'.val := ⟨h.1, h.2⟩
  have hlt : c.val.toNat + 32 < 2 ^ 32 := by
    have : c.val.toNat ≤ 90 := h.2
    omega
  simp only [Char.toLower, hy, dite_true, and_self]
  exact mod_eq_of_lt hlt

theorem toUpper_of_not_lower (h : c.toNat < 97 ∨ 122 < c.toNat) : c.toUpper = c := by
  have hn : ¬ (c.val ≥ 'a'.val ∧ c.val ≤ 'z'.val) := by
    rintro ⟨h1, h2⟩
    have h1' : 97 ≤ c.toNat := h1
    have h2' : c.toNat ≤ 122 := h2
    omega
  simp only [Char.toUpper, hn, dite_false]

theorem foldASCII_toUpper (hc : c.toNat < 128) : foldASCII c.toUpper = foldASCII c := by
  have hall : ∀ n : Fin 128, foldASCII (Char.ofNat n).toUpper = foldASCII (Char.ofNat n) := by
    decide
  simpa using hall ⟨c.toNat, hc⟩

/-- The mapping that folds ASCII letters only. -/
def CaseMap.ascii : CaseMap where
  lower := Char.toLower
  upper := Char.toUpper
  lower_ascii _ _ := rfl
  upper_ascii _ _ := rfl
  lower_other c h := by
    rw [toLower_of_not_upper (by omega)]
    exact Or.inr (Or.inr h)
  lower_idem c := by
    by_cases h : 65 ≤ c.toNat ∧ c.toNat ≤ 90
    · exact toLower_of_not_upper (by rw [toLower_of_upper h]; omega)
    · have hc : c.toLower = c := toLower_of_not_upper (by omega)
      rw [hc, hc]
  lower_space c := by
    by_cases h : 65 ≤ c.toNat ∧ c.toNat ≤ 90
    · have hl := toLower_of_upper h
      rw [Bool.eq_iff_iff]
      simp only [isSpace, hl, Bool.or_eq_true, Bool.and_eq_true, decide_eq_true_eq, beq_iff_eq]
      omega
    · rw [toLower_of_not_upper (by omega)]
  upper_fold c h := by
    by_cases hc : c.toNat < 128
    · exact foldASCII_toUpper hc
    · rw [toUpper_of_not_lower (by omega)]

variable (U : CaseMap)

/-- `strings.ToLower`. -/
def toLower (s : GoString) : GoString := s.map U.lower

/-- `strings.ToUpper`. -/
def toUpper (s : GoString) : GoString := s.map U.upper

@[simp] theorem toLower_append (s t : GoString) :
    toLower U (s ++ t) = toLower U s ++ toLower U t := map_append

@[simp] theorem length_toLower (s : GoString) : (toLower U s).length = s.length :=
  length_map ..

@[simp] theorem toLower_toLower (s : GoString) : toLower U (toLower U s) = toLower U s := by
  simp [toLower, U.lower_idem]

/-- A character that is not an ASCII letter has no other preimage under folding. -/
theorem lower_eq_iff_of_caseless {d : Char}
    (hd : d.toNat < 65 ∨ (90 < d.toNat ∧ d.toNat < 97)) (c : Char) :
    U.lower c = d ↔ c = d := by
  have hself : U.lower d = d := by
    rw [U.lower_ascii d (by omega), toLower_of_not_upper (by omega)]
  refine ⟨fun h => ?_, fun h => h ▸ hself⟩
  by_cases hc : c.toNat < 128
  · rw [U.lower_ascii c hc] at h
    by_cases hu : 65 ≤ c.toNat ∧ c.toNat ≤ 90
    · have := toLower_of_upper hu
      rw [h] at this
      omega
    · rwa [toLower_of_not_upper (by omega)] at h
  · rcases U.lower_other c (by omega) with hi | hk | ho
    · exact absurd hd (by rw [← h, hi]; decide)
    · exact absurd hd (by rw [← h, hk]; decide)
    · exact absurd hd (by rw [← h]; omega)

@[simp] theorem lower_eq_dot (c : Char) : U.lower c = '.' ↔ c = '.' :=
  lower_eq_iff_of_caseless U (by decide) c

@[simp] theorem lower_eq_backslash (c : Char) : U.lower c = '\\' ↔ c = '\\' :=
  lower_eq_iff_of_caseless U (by decide) c

/-- `strings.EqualFold` of a string and an ASCII text. -/
def equalFold (s ascii : GoString) : Bool := s.map foldASCII = ascii.map foldASCII

/-- Upper case keeps what a string folds to, if that is ASCII text. -/
theorem equalFold_toUpper {s ascii : GoString}
    (hascii : ascii.all (fun c => (foldASCII c).toNat < 128) = true)
    (h : equalFold s ascii = true) : equalFold (toUpper U s) ascii = true := by
  simp only [equalFold, decide_eq_true_eq] at h ⊢
  rw [← h, toUpper, map_map]
  refine map_congr_left fun c hc => U.upper_fold c ?_
  have hmem : foldASCII c ∈ ascii.map foldASCII := h ▸ mem_map_of_mem hc
  obtain ⟨d, hd, hdc⟩ := mem_map.mp hmem
  exact hdc ▸ of_decide_eq_true (all_eq_true.mp hascii d hd)

/-! ## Trimming and suffixes -/

/-- `strings.TrimSpace`. -/
def trimSpace (s : GoString) : GoString := (s.dropWhile isSpace).rdropWhile isSpace

/-- No white space at either end. -/
def Trimmed (s : GoString) : Prop :=
  (∀ c ∈ s.head?, isSpace c = false) ∧ ∀ c ∈ s.getLast?, isSpace c = false

theorem trimSpace_of_trimmed (h : Trimmed s) : trimSpace s = s := by
  have hfront : s.dropWhile isSpace = s := by
    cases s with
    | nil => rfl
    | cons c s => simp [h.1 c rfl]
  rw [trimSpace, hfront]
  cases s using reverseRecOn with
  | nil => rfl
  | append_singleton s c => exact rdropWhile_concat_neg _ _ _ (by simp [h.2 c (by simp)])

theorem trimmed_trimSpace (s : GoString) : Trimmed (trimSpace s) := by
  unfold trimSpace
  constructor
  · intro c hc
    -- what the second trim keeps is a front part of what the first one keeps
    obtain ⟨rest, hrest⟩ := rdropWhile_prefix isSpace (s.dropWhile isSpace)
    have hhead : (s.dropWhile isSpace).head? = some c := by
      rw [← hrest, head?_append, Option.mem_def.mp hc]
      rfl
    simpa [hhead] using head?_dropWhile_not isSpace s
  · intro c hc
    have hne : (s.dropWhile isSpace).rdropWhile isSpace ≠ [] := by
      rintro hnil
      simp [hnil] at hc
    rw [getLast?_eq_some_getLast hne, Option.mem_some] at hc
    simpa [hc] using rdropWhile_last_not isSpace _ hne

theorem Trimmed.toLower (h : Trimmed s) : Trimmed (toLower U s) := by
  simp only [Trimmed, Go.toLower, head?_map, getLast?_map, Option.mem_def,
    Option.map_eq_some_iff]
  constructor
  · rintro _ ⟨c, hc, rfl⟩
    rw [U.lower_space, h.1 c hc]
  · rintro _ ⟨c, hc, rfl⟩
    rw [U.lower_space, h.2 c hc]

/-- Text that ends in something other than white space stays trimmed. -/
theorem Trimmed.append {s t : GoString} (hs : Trimmed s) (ht : Trimmed t) : Trimmed (s ++ t) := by
  constructor
  · intro c hc
    cases s with
    | nil => exact ht.1 c hc
    | cons d s => exact hs.1 c hc
  · intro c hc
    cases t using reverseRecOn with
    | nil => exact hs.2 c (by simpa using hc)
    | append_singleton t d => exact ht.2 c (by simpa using hc)

/-- `strings.HasSuffix`. -/
def hasSuffix (s suffix : GoString) : Bool := suffix.isSuffixOf s

/-- `strings.HasPrefix`. -/
def hasPrefix (s pre : GoString) : Bool := pre.isPrefixOf s

/-- `strings.TrimSuffix`. -/
def trimSuffix (s suffix : GoString) : GoString :=
  if hasSuffix s suffix then s.take (s.length - suffix.length) else s

@[simp] theorem hasSuffix_iff {s suffix : GoString} : hasSuffix s suffix = true ↔ suffix <:+ s :=
  isSuffixOf_iff_suffix

@[simp] theorem trimSuffix_append (s suffix : GoString) : trimSuffix (s ++ suffix) suffix = s := by
  have h : hasSuffix (s ++ suffix) suffix = true := hasSuffix_iff.mpr (suffix_append ..)
  simp [trimSuffix, h]

theorem trimSuffix_of_not_suffix {s suffix : GoString} (h : ¬ suffix <:+ s) :
    trimSuffix s suffix = s := by
  simp [trimSuffix, h]

/-- Trimming a suffix either leaves the string alone or undoes an append. -/
theorem trimSuffix_cases (s suffix : GoString) :
    (¬ suffix <:+ s ∧ trimSuffix s suffix = s) ∨ s = trimSuffix s suffix ++ suffix := by
  by_cases h : suffix <:+ s
  · obtain ⟨t, rfl⟩ := h
    exact .inr (by rw [trimSuffix_append])
  · exact .inl ⟨h, trimSuffix_of_not_suffix h⟩

/-- Text before the first separator is determined by the whole. -/
theorem append_separator_inj {x y r s : GoString} (hx : c ∉ x) (hy : c ∉ y)
    (h : x ++ c :: r = y ++ c :: s) : x = y ∧ r = s := by
  rcases append_eq_append_iff.mp h with ⟨t, rfl, ht⟩ | ⟨t, rfl, ht⟩ <;> cases t <;> simp_all

/-! ## Numbers -/

/-- Big-endian value of a list of digits in the given base. -/
def ofDigits (base : Nat) (ds : List Nat) : Nat := ds.foldl (fun acc d => acc * base + d) 0

/-- The digits of `n` in the given base, most significant first, at the given width. -/
def digits (base : Nat) : (width n : Nat) → List Nat
  | 0, _ => []
  | width + 1, n => digits base width (n / base) ++ [n % base]

@[simp] theorem length_digits (base width n : Nat) : (digits base width n).length = width := by
  induction width generalizing n with
  | zero => rfl
  | succ width ih => simp [digits, ih]

/-- Digits at a width that holds the number give the number back. -/
theorem ofDigits_digits {base width n : Nat} (h : n < base ^ width) :
    ofDigits base (digits base width n) = n := by
  induction width generalizing n with
  | zero =>
    have : n = 0 := by simpa using h
    simp [digits, ofDigits, this]
  | succ width ih =>
    have hq : n / base < base ^ width := by
      rw [Nat.pow_succ] at h
      exact Nat.div_lt_of_lt_mul (by rwa [Nat.mul_comm] at h)
    have hfold : ofDigits base (digits base width (n / base) ++ [n % base]) =
        ofDigits base (digits base width (n / base)) * base + n % base := by
      simp [ofDigits, foldl_append]
    rw [digits, hfold, ih hq, Nat.mul_comm]
    exact Nat.div_add_mod n base

/-- `strconv.Itoa` of a natural number. -/
def itoa (n : Nat) : GoString := Nat.toDigits 10 n

/-- `strconv.ParseUint(s, 10, bits)`. -/
def parseUint (s : GoString) (bits : Nat) : Option Nat :=
  if s ≠ [] ∧ s.all Char.isDigit ∧ Nat.ofDigitChars 10 s 0 < 2 ^ bits then
    some (Nat.ofDigitChars 10 s 0)
  else none

theorem isDigit_of_mem_itoa (h : c ∈ itoa n) : c.isDigit = true :=
  isDigit_of_mem_toDigits (by omega) (by omega) h

theorem itoa_ne_nil (n : Nat) : itoa n ≠ [] := toDigits_ne_nil

/-- What `Itoa` prints, `ParseUint` reads back. -/
theorem parseUint_itoa {n bits : Nat} (h : n < 2 ^ bits) : parseUint (itoa n) bits = some n := by
  have hval : ofDigitChars 10 (itoa n) 0 = n :=
    ofDigitChars_toDigits (by omega) (by omega)
  have hdigits : (itoa n).all Char.isDigit = true :=
    all_eq_true.mpr fun _ => isDigit_of_mem_itoa
  simp [parseUint, hval, hdigits, itoa_ne_nil, h]

theorem itoa_injective : Function.Injective itoa := by
  intro m n h
  have hm : ofDigitChars 10 (itoa m) 0 = m := ofDigitChars_toDigits (by omega) (by omega)
  have hn : ofDigitChars 10 (itoa n) 0 = n := ofDigitChars_toDigits (by omega) (by omega)
  rw [← hm, ← hn, h]

/-- `strconv.FormatInt(i, 10)`. -/
def formatInt (i : Int) : GoString := if i < 0 then '-' :: itoa i.natAbs else itoa i.natAbs

/-- The magnitude that a text of digits has, if it is at most `limit`. -/
def parseMagnitude (s : GoString) (limit : Nat) : Option Nat :=
  (parseUint s 64).filter (· ≤ limit)

/-- `strconv.ParseInt(s, 10, 64)`. -/
def parseInt (s : GoString) : Option Int :=
  match s with
  | '-' :: s => (parseMagnitude s (2 ^ 63)).map fun n => -(n : Int)
  | '+' :: s => (parseMagnitude s (2 ^ 63 - 1)).map fun n => (n : Int)
  | s => (parseMagnitude s (2 ^ 63 - 1)).map fun n => (n : Int)

theorem parseMagnitude_itoa {n limit : Nat} (hlimit : limit < 2 ^ 64) (h : n ≤ limit) :
    parseMagnitude (itoa n) limit = some n := by
  rw [parseMagnitude, parseUint_itoa (by omega), Option.filter_some, if_pos (by simpa using h)]

/-- What `FormatInt` prints, `ParseInt` reads back. -/
theorem parseInt_formatInt {i : Int} (hlow : -2 ^ 63 ≤ i) (hhigh : i < 2 ^ 63) :
    parseInt (formatInt i) = some i := by
  unfold formatInt
  split_ifs with hneg
  · rw [parseInt, parseMagnitude_itoa (by omega) (by omega)]
    exact congrArg some (show -(i.natAbs : Int) = i by omega)
  · -- the first character is a digit, so the sign branches do not apply
    obtain ⟨c, s, hcs⟩ := exists_cons_of_ne_nil (itoa_ne_nil i.natAbs)
    have hdigit : c.isDigit = true := isDigit_of_mem_itoa (hcs ▸ mem_cons_self)
    have hparse : parseInt (c :: s) =
        (parseMagnitude (c :: s) (2 ^ 63 - 1)).map fun n => (n : Int) := by
      unfold parseInt
      split
      · next h => exact absurd hdigit (by rw [(cons.inj h).1]; decide)
      · next h => exact absurd hdigit (by rw [(cons.inj h).1]; decide)
      · rfl
    rw [hcs, hparse, ← hcs, parseMagnitude_itoa (by omega) (by omega)]
    exact congrArg some (show (i.natAbs : Int) = i by omega)

/-! ## Cutting -/

/-- `strings.Cut` at a character; `none` is a text without it. -/
def cut (sep : Char) : GoString → Option (GoString × GoString)
  | [] => none
  | c :: s => if c = sep then some ([], s) else (cut sep s).map fun (before, after) => (c :: before, after)

theorem cut_eq_some {sep : Char} {s before after : GoString} :
    cut sep s = some (before, after) ↔ s = before ++ sep :: after ∧ sep ∉ before := by
  induction s generalizing before with
  | nil => simp [cut]
  | cons c s ih =>
    by_cases hc : c = sep
    · subst hc
      cases before with
      | nil => simp [cut, eq_comm]
      | cons d before =>
        simp only [cut, if_true, cons_append, cons.injEq, mem_cons, not_or,
          Option.some.injEq, Prod.mk.injEq, nil_eq, reduceCtorEq, false_and, false_iff]
        rintro ⟨⟨hcd, -⟩, hne, -⟩
        exact hne hcd
    · cases before with
      | nil => simp [cut, hc]
      | cons d before =>
        simp only [cut, if_neg hc, Option.map_eq_some_iff, Prod.mk.injEq, cons.injEq,
          cons_append, mem_cons, not_or]
        constructor
        · rintro ⟨⟨b, r⟩, hcut, ⟨rfl, rfl⟩, rfl⟩
          obtain ⟨rfl, hnot⟩ := ih.mp hcut
          exact ⟨⟨rfl, rfl⟩, Ne.symm hc, hnot⟩
        · rintro ⟨⟨rfl, rfl⟩, -, hnot⟩
          exact ⟨(before, after), ih.mpr ⟨rfl, hnot⟩, ⟨rfl, rfl⟩, rfl⟩

end Go
