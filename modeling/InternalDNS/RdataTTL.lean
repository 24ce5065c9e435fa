import InternalDNS.RdataText

/-! # TTL spellings

A TTL is written as a number of seconds or as counts with units, `1h30m`.  The
parser adds count times unit in 64-bit integers, and checks the total against
the maximum inside the loop so that it cannot overflow on the way.  The check
comes after the multiplication, though, and the product of one count and its
unit may wrap before anything looks at it.

The exact value of a spelling is defined here over unbounded integers, from its
parts alone, and the parser is compared with it.
-/
namespace InternalDNS.Rdata

open List
open Go (Bytes CaseMap)
open Go.Bytes (lit byte text toLower trimSpace)

/-- `MaxTTL`: a TTL is a 31-bit quantity. -/
def maxTTL : Int := 2147483647

/-- The units a TTL may be written in, largest first. -/
def ttlUnits : List (UInt8 × Int) :=
  [(byte 'w', 604800), (byte 'd', 86400), (byte 'h', 3600), (byte 'm', 60), (byte 's', 1)]

def unitSeconds (c : UInt8) : Option Int := (ttlUnits.find? fun u => u.1 = c).map (·.2)

def badTTL (orig : Bytes) : Error :=
  { msg := lit "invalid TTL " ++ quoteStr orig
    fix := lit ("give TTL in seconds (\"300\") or as a duration (\"5m\", \"1h\", \"1d\"), or " ++
      "\"auto\"") }

def exceedsMaximum (orig : Bytes) : Error :=
  { msg := lit "TTL " ++ quoteStr orig ++ lit " exceeds the maximum of 2147483647 seconds"
    ttlRange := true }

/-- `checkTTLRange`. -/
def checkTTLRange (secs : Int) (orig : Bytes) : Except Error Unit := do
  refuse (secs < 0)
    { msg := lit "TTL " ++ quoteStr orig ++ lit " is negative", ttlRange := true }
  refuse (secs > maxTTL) (exceedsMaximum orig)

/-- The value an `int64` holds after an operation with this exact result. -/
def int64 (n : Int) : Int := n.bmod (2 ^ 64)

/-- One part of a TTL: its digits, its unit and what follows. -/
def ttlPart (v : Bytes) : Option (Int × Int × Bytes) :=
  match v.takeWhile isDigit, v.dropWhile isDigit with
  | [], _ => none
  | _ :: _, [] => none
  | d :: ds, c :: rest => do
    let mult ← unitSeconds c
    let n ← Go.parseInt (text (d :: ds))
    return (n, mult, rest)

/-- The loop over the parts.  The fuel is the length of the text. -/
def ttlLoop (orig : Bytes) : (fuel : Nat) → (total : Int) → Bytes → Except Error Int
  | 0, total, _ => .ok total
  | _ + 1, total, [] => .ok total
  | fuel + 1, total, c :: v =>
    match ttlPart (c :: v) with
    | none => .error (badTTL orig)
    | some (n, mult, rest) =>
      let total := int64 (total + int64 (n * mult))
      if total > maxTTL then .error (exceedsMaximum orig) else ttlLoop orig fuel total rest

/-- The text after an optional sign. -/
def unsigned (v : Bytes) : Bytes :=
  let v := if [byte '-'] <+: v then v.drop 1 else v
  if [byte '+'] <+: v then v.drop 1 else v

/-- `parseTTLSeconds`.  A text with a decimal point goes to `time.ParseDuration`, whose
result in nanoseconds is a parameter. -/
def parseTTLSeconds (parseDuration : Bytes → Option Int) (v orig : Bytes) : Except Error Int :=
  match Go.parseInt (text v) with
  | some n => .ok n
  | none =>
    if byte '.' ∈ v then
      match parseDuration v with
      | none => .error (badTTL orig)
      | some d =>
        if d.tmod 1000000000 ≠ 0 then
          .error { msg := lit "TTL " ++ quoteStr orig ++ lit " is not a whole number of seconds" }
        else .ok (d.tdiv 1000000000)
    else do
      let total ← ttlLoop orig (unsigned v).length 0 (unsigned v)
      return if [byte '-'] <+: v then int64 (-total) else total

variable (U : CaseMap) (parseDuration : Bytes → Option Int) {ds v orig : Bytes} {n : Int}
  {parts : List (Nat × Int)}

/-- The text of a TTL as it is read: without white space around it, in small letters. -/
def ttlText (s : Bytes) : Bytes := toLower U (trimSpace s)

/-- `ParseTTL`: no value stands for the backend's choice. -/
def parseTTL (s : Bytes) : Except Error (Option Int) :=
  let v := ttlText U s
  if v = [] ∨ v = lit "auto" then .ok none
  else do
    let secs ← parseTTLSeconds parseDuration v s
    checkTTLRange secs s
    return some secs

/-- `ParseTTLSeconds`: a TTL slot that always holds a value. -/
def parseTTLValue (s : Bytes) : Except Error Int := do
  let secs ← parseTTLSeconds parseDuration (ttlText U s) s
  checkTTLRange secs s
  return secs

/-! ## The exact value of a spelling -/

/-- The counts and units of a text, read from left to right; `count` is the value of the
digits since the last unit. -/
def partsFrom : (count : Option Nat) → Bytes → Option (List (Nat × Int))
  | none, [] => some []
  | some _, [] => none
  | count, c :: v =>
    if isDigit c then partsFrom (some (10 * count.getD 0 + (c.toNat - 48))) v
    else do
      let n ← count
      let unit ← unitSeconds c
      return (n, unit) :: (← partsFrom none v)

/-- The value of a text of digits. -/
def decimal (ds : Bytes) : Nat := Nat.ofDigitChars 10 (text ds) 0

/-- The parts of an unsigned TTL.  A bare number counts seconds. -/
def ttlParts (v : Bytes) : Option (List (Nat × Int)) :=
  if v ≠ [] ∧ v.all isDigit then some [(decimal v, 1)] else partsFrom none v

/-- The exact number of seconds of a list of parts. -/
def seconds (parts : List (Nat × Int)) : Int := (parts.map fun p => (p.1 : Int) * p.2).sum

/-- The exact number of seconds a spelling denotes. -/
def exactSeconds (v : Bytes) : Option Int :=
  (ttlParts (unsigned v)).map fun parts =>
    if [byte '-'] <+: v then -seconds parts else seconds parts

/-- Every part by itself is within the maximum. -/
def SmallParts (parts : List (Nat × Int)) : Prop := ∀ p ∈ parts, (p.1 : Int) * p.2 ≤ maxTTL

theorem unitSeconds_pos {c : UInt8} {m : Int} (h : unitSeconds c = some m) : 0 < m := by
  obtain ⟨u, hu, rfl⟩ := Option.map_eq_some_iff.mp h
  have hmem := mem_of_find?_eq_some hu
  have hall : ∀ u ∈ ttlUnits, 0 < u.2 := by decide
  exact hall u hmem

theorem isDigit_char (c : UInt8) : (Go.Bytes.char c).isDigit = isDigit c := by
  have hall : ∀ n : Fin 256, (Go.Bytes.char (UInt8.ofFin n)).isDigit = isDigit (UInt8.ofFin n) := by
    decide +kernel
  exact hall c.toFin

theorem all_isDigit_text (s : Bytes) : (text s).all Char.isDigit = s.all isDigit := by
  simp only [text, all_map, Function.comp_def, isDigit_char]

theorem ofDigitChars_text_cons (c : UInt8) (ds : Bytes) (acc : Nat) :
    Nat.ofDigitChars 10 (text (c :: ds)) acc =
      Nat.ofDigitChars 10 (text ds) (10 * acc + (c.toNat - 48)) := by
  rw [text, map_cons, Nat.ofDigitChars_cons, Go.Bytes.toNat_char]
  rfl

theorem partsFrom_digits (hds : ∀ c ∈ ds, isDigit c = true) (acc : Nat) (t : Bytes) :
    partsFrom (some acc) (ds ++ t) = partsFrom (some (Nat.ofDigitChars 10 (text ds) acc)) t := by
  induction ds generalizing acc with
  | nil => rfl
  | cons c ds ih =>
    rw [forall_mem_cons] at hds
    rw [cons_append, partsFrom, if_pos hds.1, ih hds.2, ofDigitChars_text_cons]
    rfl

/-- Digits and a unit are one part. -/
theorem partsFrom_part (hne : ds ≠ []) (hds : ∀ c ∈ ds, isDigit c = true) {u : UInt8}
    (hu : isDigit u = false) (rest : Bytes) :
    partsFrom none (ds ++ u :: rest) =
      (unitSeconds u).bind fun m => (partsFrom none rest).map ((decimal ds, m) :: ·) := by
  obtain ⟨d, ds, rfl⟩ := exists_cons_of_ne_nil hne
  have hd := (forall_mem_cons.mp hds)
  have hstart : partsFrom none (d :: ds ++ u :: rest) =
      partsFrom (some (decimal (d :: ds))) (u :: rest) := by
    rw [cons_append, partsFrom, if_pos hd.1, partsFrom_digits hd.2, decimal, ofDigitChars_text_cons]
    rfl
  rw [hstart, partsFrom]
  simp only [hu, Bool.false_eq_true, if_false]
  cases unitSeconds u with
  | none => rfl
  | some m => cases partsFrom none rest <;> rfl

theorem parseMagnitude_text {limit : Nat}
    (h : (Go.parseMagnitude (text v) limit >>= fun m => some (m : Int)) = some n) :
    v ≠ [] ∧ v.all isDigit = true ∧ n = decimal v := by
  obtain ⟨m, hm, hn⟩ := Option.bind_eq_some_iff.mp h
  cases hn
  simp only [Go.parseMagnitude, Option.filter_eq_some_iff, Go.parseUint,
    Option.ite_none_right_eq_some, Option.some.injEq] at hm
  obtain ⟨⟨⟨hne, hall, -⟩, rfl⟩, -⟩ := hm
  refine ⟨fun hv => hne (by rw [hv]; rfl), ?_, rfl⟩
  rwa [all_isDigit_text] at hall

/-- What `strconv.ParseInt` accepts is digits after an optional sign, with their value. -/
theorem parseInt_text (h : Go.parseInt (text v) = some n) : ∃ ds, ds ≠ [] ∧ ds.all isDigit = true ∧
      ((v = byte '-' :: ds ∧ n = -decimal ds) ∨ (v = byte '+' :: ds ∧ n = decimal ds) ∨
        (v = ds ∧ n = decimal ds)) := by
  have hsign : ∀ {c : Char} {t : Go.GoString}, c.toNat < 128 → text v = c :: t →
      ∃ ds, v = byte c :: ds ∧ text ds = t := by
    intro c t hc hv
    cases v with
    | nil => cases hv
    | cons b ds =>
      obtain ⟨rfl, rfl⟩ := List.cons.inj hv
      refine ⟨ds, ?_, rfl⟩
      rw [Go.Bytes.byte_char]
  unfold Go.parseInt at h
  split at h
  · rename_i t hv
    obtain ⟨m, hm, rfl⟩ := Option.map_eq_some_iff.mp h
    obtain ⟨ds, rfl, rfl⟩ := hsign (by decide) hv
    obtain ⟨hne, hall, rfl⟩ := parseMagnitude_text hm
    exact ⟨ds, hne, hall, .inl ⟨rfl, rfl⟩⟩
  · rename_i t hv
    obtain ⟨m, hm, rfl⟩ := Option.map_eq_some_iff.mp h
    obtain ⟨ds, rfl, rfl⟩ := hsign (by decide) hv
    obtain ⟨hne, hall, rfl⟩ := parseMagnitude_text hm
    exact ⟨ds, hne, hall, .inr (.inl ⟨rfl, rfl⟩)⟩
  · obtain ⟨m, hm, rfl⟩ := Option.map_eq_some_iff.mp h
    obtain ⟨hne, hall, rfl⟩ := parseMagnitude_text hm
    exact ⟨v, hne, hall, .inr (.inr ⟨rfl, rfl⟩)⟩

theorem not_sign_of_digits (hall : ds.all isDigit = true) {c : UInt8} (hc : isDigit c = false) :
    ¬ [c] <+: ds := by
  rintro ⟨t, rfl⟩
  rw [singleton_append, all_cons, hc, Bool.false_and] at hall
  cases hall

/-- A bare number is one part, and its exact value is the number. -/
theorem exactSeconds_number (h : Go.parseInt (text v) = some n) :
    exactSeconds v = some n ∧ ttlParts (unsigned v) = some [(n.natAbs, 1)] := by
  obtain ⟨ds, hne, hall, hcases⟩ := parseInt_text h
  have hplus : ¬ [byte '+'] <+: ds := not_sign_of_digits hall (by decide)
  have hminus : ¬ [byte '-'] <+: ds := not_sign_of_digits hall (by decide)
  have hparts : ttlParts ds = some [(decimal ds, 1)] := by rw [ttlParts, if_pos ⟨hne, hall⟩]
  have hseconds : seconds [(decimal ds, 1)] = decimal ds := by simp [seconds]
  rcases hcases with ⟨rfl, rfl⟩ | ⟨rfl, rfl⟩ | ⟨rfl, rfl⟩
  · have hunsigned : unsigned (byte '-' :: ds) = ds := by simp [unsigned, hplus]
    simp [exactSeconds, hunsigned, hparts, hseconds]
  · have hunsigned : unsigned (byte '+' :: ds) = ds := by
      simp [unsigned, show ¬ byte '-' = byte '+' by decide]
    simp [exactSeconds, hunsigned, hparts, hseconds, show ¬ byte '-' = byte '+' by decide]
  · have hunsigned : unsigned v = v := by simp [unsigned, hplus, hminus]
    simp [exactSeconds, hunsigned, hparts, hseconds, hminus]

theorem parseInt_digits (hall : ds.all isDigit = true) (h : Go.parseInt (text ds) = some n) :
    n = decimal ds := by
  obtain ⟨ds', -, -, hcases⟩ := parseInt_text h
  rcases hcases with ⟨rfl, -⟩ | ⟨rfl, -⟩ | ⟨rfl, hn⟩
  · exact absurd ⟨ds', rfl⟩ (not_sign_of_digits hall (by decide))
  · exact absurd ⟨ds', rfl⟩ (not_sign_of_digits hall (by decide))
  · exact hn

/-- A part the loop reads is the next part of the spelling. -/
theorem ttlPart_spec {v rest : Bytes} {n mult : Int} (h : ttlPart v = some (n, mult, rest)) :
    0 ≤ n ∧ 0 < mult ∧ rest.length < v.length ∧
      partsFrom none v = (partsFrom none rest).map ((n.toNat, mult) :: ·) := by
  have hsplit : v.takeWhile isDigit ++ v.dropWhile isDigit = v := takeWhile_append_dropWhile
  have hdigits : ∀ c ∈ v.takeWhile isDigit, isDigit c = true := fun c hc => mem_takeWhile_imp hc
  unfold ttlPart at h
  split at h
  · cases h
  · cases h
  · rename_i d ds c after htake hdrop
    simp only [Option.bind_eq_bind, Option.bind_eq_some_iff, Option.pure_def,
      Option.some.injEq, Prod.mk.injEq] at h
    obtain ⟨m, hm, k, hk, rfl, rfl, rfl⟩ := h
    have hall : (d :: ds).all isDigit = true := all_eq_true.mpr (htake ▸ hdigits)
    have hstop : isDigit c = false := by
      have hne : v.dropWhile isDigit ≠ [] := by rw [hdrop]; exact cons_ne_nil _ _
      have := head_dropWhile_not isDigit hne
      simpa [hdrop] using this
    obtain rfl := parseInt_digits hall hk
    rw [htake, hdrop] at hsplit
    refine ⟨Int.natCast_nonneg _, unitSeconds_pos hm, ?_, ?_⟩
    · rw [← hsplit]
      simp only [length_append, length_cons]
      omega
    · rw [← hsplit, partsFrom_part (cons_ne_nil d ds) (all_eq_true.mp hall) hstop, hm]
      rfl

theorem int64_of_small (hlow : 0 ≤ n) (hhigh : n ≤ 2 * maxTTL) : int64 n = n := by
  simp only [maxTTL] at hhigh
  exact Int.bmod_eq_of_le (by omega) (by omega)

/-- The loop adds exactly when no part by itself exceeds the maximum. -/
theorem ttlLoop_spec {fuel : Nat} {total out : Int} (hfuel : v.length ≤ fuel)
    (h : ttlLoop orig fuel total v = .ok out) :
    ∃ parts, partsFrom none v = some parts ∧ (∀ p ∈ parts, 0 ≤ (p.1 : Int) * p.2) ∧
      (total ≤ maxTTL → out ≤ maxTTL) ∧
      (SmallParts parts → 0 ≤ total → total ≤ maxTTL → out = total + seconds parts) := by
  induction fuel generalizing total v with
  | zero =>
    obtain rfl : v = [] := length_eq_zero_iff.mp (Nat.le_zero.mp hfuel)
    cases h
    exact ⟨[], rfl, nofun, id, fun _ _ _ => (Int.add_zero _).symm⟩
  | succ fuel ih =>
    cases v with
    | nil =>
      cases h
      exact ⟨[], rfl, nofun, id, fun _ _ _ => (Int.add_zero _).symm⟩
    | cons c v =>
      rw [ttlLoop] at h
      cases hpart : ttlPart (c :: v) with
      | none => rw [hpart] at h; cases h
      | some part =>
        obtain ⟨n, mult, rest⟩ := part
        obtain ⟨hn, hmult, hrest, hparts⟩ := ttlPart_spec hpart
        simp only [hpart] at h
        split_ifs at h with hmax
        obtain ⟨parts, hread, hnonneg, hout, hexact⟩ := ih (by omega) h
        have hpos : 0 ≤ n * mult := Int.mul_nonneg hn hmult.le
        refine ⟨(n.toNat, mult) :: parts, by rw [hparts, hread, Option.map_some],
          forall_mem_cons.mpr ⟨by rwa [Int.toNat_of_nonneg hn], hnonneg⟩,
          fun _ => hout (by omega), ?_⟩
        intro hsmall hlow hhigh
        obtain ⟨hpart_small, hsmall⟩ := forall_mem_cons.mp hsmall
        simp only [Int.toNat_of_nonneg hn] at hpart_small
        rw [int64_of_small hpos (by omega), int64_of_small (by omega) (by omega)] at hmax hexact
        rw [hexact hsmall (by omega) (by omega), seconds, seconds, map_cons, sum_cons,
          Int.toNat_of_nonneg hn, Int.add_assoc]

/-- Digits without a unit are no sequence of parts. -/
theorem not_number_of_parts (h : partsFrom none v = some parts) :
    ¬ (v ≠ [] ∧ v.all isDigit = true) := by
  rintro ⟨hne, hall⟩
  obtain ⟨d, ds, rfl⟩ := exists_cons_of_ne_nil hne
  obtain ⟨hd, hds⟩ := forall_mem_cons.mp (all_eq_true.mp hall)
  have hend := partsFrom_digits hds (10 * (none : Option Nat).getD 0 + (d.toNat - 48)) []
  rw [append_nil] at hend
  rw [partsFrom, if_pos hd, hend, partsFrom] at h
  cases h

theorem seconds_nonneg (h : ∀ p ∈ parts, 0 ≤ (p.1 : Int) * p.2) : 0 ≤ seconds parts :=
  sum_nonneg (forall_mem_map.mpr h)

theorem le_seconds (h : ∀ p ∈ parts, 0 ≤ (p.1 : Int) * p.2) {p : Nat × Int} (hp : p ∈ parts) :
    (p.1 : Int) * p.2 ≤ seconds parts :=
  single_le_sum (forall_mem_map.mpr h) _ (mem_map_of_mem hp)

@[simp] theorem checkTTLRange_eq_ok {secs : Int} {u : Unit} :
    checkTTLRange secs orig = .ok u ↔ 0 ≤ secs ∧ secs ≤ maxTTL := by
  simp [checkTTLRange]

/-- Whatever the total came to, the loop's answer is exact just when every part is small. -/
theorem ttlLoop_exact_iff {total secs : Int}
    (h : ttlLoop orig (unsigned v).length 0 (unsigned v) = .ok total)
    (hsecs : secs = if [byte '-'] <+: v then int64 (-total) else total) (hlow : 0 ≤ secs)
    (hhigh : secs ≤ maxTTL) :
    exactSeconds v = some secs ↔
      ∃ parts, ttlParts (unsigned v) = some parts ∧ SmallParts parts := by
  obtain ⟨parts, hread, hnonneg, hmax, hexact⟩ := ttlLoop_spec le_rfl h
  have hparts : ttlParts (unsigned v) = some parts := by
    rw [ttlParts, if_neg (not_number_of_parts hread), hread]
  have hvalue : exactSeconds v =
      some (if [byte '-'] <+: v then -seconds parts else seconds parts) := by
    rw [exactSeconds, hparts, Option.map_some]
  rw [hvalue, hparts, Option.some.injEq]
  constructor
  · intro hval
    refine ⟨parts, rfl, fun p hp => ?_⟩
    have hle := le_seconds hnonneg hp
    have hzero : (0 : Int) ≤ maxTTL := by decide
    split_ifs at hval <;> omega
  · rintro ⟨_, heq, hsmall⟩
    cases heq
    have htotal := hexact hsmall le_rfl (by decide)
    rw [Int.zero_add] at htotal
    rw [hsecs, htotal]
    split_ifs with hneg
    · have hbound := hmax (by decide)
      have hpos := seconds_nonneg hnonneg
      simp only [maxTTL] at hbound
      exact (Int.bmod_eq_of_le (by omega) (by omega)).symm
    · rfl

variable {U parseDuration}

/-- **A TTL is read exactly when no part of it wraps.**  For every text without a decimal
point that is accepted as a value, the number of seconds returned is the exact sum of
count times unit, between zero and the maximum, just when every single part is within the
maximum. -/
theorem parseTTL_exact_iff {s : Bytes} {secs : Int} (hdot : byte '.' ∉ s)
    (h : parseTTL U parseDuration s = .ok (some secs)) :
    (exactSeconds (ttlText U s) = some secs ∧ 0 ≤ secs ∧ secs ≤ maxTTL) ↔
      ∃ parts, ttlParts (unsigned (ttlText U s)) = some parts ∧ SmallParts parts := by
  have hdot : byte '.' ∉ ttlText U s := fun hmem =>
    hdot (Go.Bytes.mem_of_mem_trimSpace ((Go.Bytes.mem_toLower U (by decide)).mp hmem))
  simp only [parseTTL] at h
  split_ifs at h with hauto
  · cases h
  obtain ⟨secs', hread, h⟩ := Go.Except.bind_eq_ok.mp h
  obtain ⟨_, hrange, h⟩ := Go.Except.bind_eq_ok.mp h
  cases h
  obtain ⟨hlow, hhigh⟩ := checkTTLRange_eq_ok.mp hrange
  rw [parseTTLSeconds] at hread
  split at hread
  · rename_i n hn
    cases hread
    obtain ⟨hexact, hparts⟩ := exactSeconds_number hn
    refine iff_of_true ⟨hexact, hlow, hhigh⟩ ⟨_, hparts, ?_⟩
    simp only [SmallParts, mem_singleton, forall_eq, Int.mul_one]
    omega
  · rw [if_neg hdot] at hread
    obtain ⟨total, hloop, hsecs⟩ := Go.Except.bind_eq_ok.mp hread
    cases hsecs
    rw [← ttlLoop_exact_iff hloop rfl hlow hhigh]
    exact and_iff_left ⟨hlow, hhigh⟩

theorem compound_read_exactly :
    exactSeconds (ttlText CaseMap.ascii (lit "1h30m")) = some 5400 ∧
      0 ≤ (5400 : Int) ∧ (5400 : Int) ≤ maxTTL :=
  (parseTTL_exact_iff (by decide +kernel)
    (by decide +kernel : parseTTL CaseMap.ascii (fun _ => none) (lit "1h30m") = .ok (some 5400))).mpr
    ⟨[(1, 3600), (30, 60)], by decide +kernel, by unfold SmallParts; decide +kernel⟩

/-- A count of weeks whose product with the unit wraps is accepted as less than a week. -/
theorem wrapped_weeks_accepted :
    parseTTL CaseMap.ascii (fun _ => none) (lit "30500568904944w") = .ok (some 579584) ∧
      exactSeconds (ttlText CaseMap.ascii (lit "30500568904944w")) =
        some 18446744073710131200 := by
  decide +kernel

end InternalDNS.Rdata
