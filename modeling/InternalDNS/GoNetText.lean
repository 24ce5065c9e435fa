import InternalDNS.GoNet

/-! # Addresses are read back as they are written

`netip.ParseAddr` returns the address that `Addr.String` has written.  The text of an IPv6 address
leaves out its longest run of zero groups, so the proof goes over the groups before and after the run;
an IPv4-mapped address ends in a dotted quad.
-/
namespace Go.Addr

open List Nat

/-! ## One group -/

variable {d n : Nat} {rest s : GoString}

theorem hexDigit_digitChar (h : d < 16) : hexDigit (digitChar d) = some d := by
  interval_cases d <;> decide

/-- Every character of a number is a hexadecimal digit. -/
theorem hexDigit_of_mem_toDigits {base : Nat} (hbase : 1 < base) (hle : base ≤ 16) {c : Char}
    (h : c ∈ Nat.toDigits base n) : (hexDigit c).isSome := by
  induction n using Nat.strongRecOn with
  | ind n ih =>
    rw [Nat.toDigits_eq_if hbase] at h
    split_ifs at h with hsmall
    · obtain rfl := mem_singleton.mp h
      rw [hexDigit_digitChar (by omega)]
      rfl
    · rcases mem_append.mp h with h | h
      · exact ih (n / base) (div_lt_self (by omega) hbase) h
      · obtain rfl := mem_singleton.mp h
        have hlast := mod_lt n (by omega : base > 0)
        rw [hexDigit_digitChar (by omega)]
        rfl

theorem hexRun_cons {c : Char} (hc : hexDigit c = some d) {off : Nat} (hoff : off ≤ 3) (acc : Nat)
    (rest : GoString) : hexRun (c :: rest) off acc = hexRun rest (off + 1) (acc * 16 + d) := by
  rw [hexRun, hc]
  exact if_neg (by omega)

/-- The digits of a number are read one after the other. -/
theorem hexRun_toDigits {off l : Nat} (hl : (Nat.toDigits 16 n).length = l) (hoff : off + l ≤ 4)
    (acc : Nat) (rest : GoString) :
    hexRun (Nat.toDigits 16 n ++ rest) off acc = hexRun rest (off + l) (acc * 16 ^ l + n) := by
  induction n using Nat.strongRecOn generalizing l rest with
  | ind n ih =>
    rw [toDigits_eq_if (by omega)] at hl ⊢
    subst hl
    split_ifs at hoff ⊢ with hsmall
    · rw [length_singleton] at hoff
      rw [singleton_append, hexRun_cons (hexDigit_digitChar hsmall) (by omega), length_singleton, pow_one]
    · have hlast : n % 16 < 16 := mod_lt _ (by omega)
      rw [length_append, length_singleton] at hoff ⊢
      rw [append_assoc, singleton_append, ih (n / 16) (by omega) rfl (by omega),
        hexRun_cons (hexDigit_digitChar hlast) (by omega), ← add_assoc]
      congr 1
      rw [add_mul, pow_succ, ← mul_assoc, add_assoc]
      omega

/-- What follows a group: nothing, or a character that is not a digit. -/
def EndsGroup (rest : GoString) : Prop := ∀ c ∈ rest.head?, hexDigit c = none

theorem hexRun_of_endsGroup (h : EndsGroup rest) (off acc : Nat) :
    hexRun rest off acc = some (off, acc, rest) := by
  cases rest with
  | nil => rfl
  | cons c rest =>
    rw [hexRun, h c rfl]

/-- **A group is read back.** -/
theorem hexRun_group {g : Nat} (hg : g < 65536) (h : EndsGroup rest) :
    ∃ l, 1 ≤ l ∧ hexRun (toDigits 16 g ++ rest) 0 0 = some (l, g, rest) := by
  have hfour : (toDigits 16 g).length ≤ 4 := (length_toDigits_le_iff (by omega) (by omega)).mpr hg
  refine ⟨(toDigits 16 g).length, length_pos_iff.mpr toDigits_ne_nil, ?_⟩
  rw [hexRun_toDigits rfl (by omega), hexRun_of_endsGroup h]
  simp

theorem endsGroup_colon (rest : GoString) : EndsGroup (':' :: rest) := by
  intro c hc
  cases hc
  decide

/-! ## All groups -/

theorem hexGroups_singleton (g : Nat) : hexGroups [g] = toDigits 16 g := by
  simp [hexGroups, List.intercalate]

theorem hexGroups_cons_cons (g g' : Nat) (gs : List Nat) :
    hexGroups (g :: g' :: gs) = toDigits 16 g ++ ':' :: hexGroups (g' :: gs) := by
  simp [hexGroups, List.intercalate]

/-- The text of some groups has digits and colons, and starts with a digit. -/
theorem mem_hexGroups {gs : List Nat} {c : Char} (h : c ∈ hexGroups gs) :
    c = ':' ∨ (hexDigit c).isSome := by
  match gs with
  | [] => cases h
  | [g] =>
    rw [hexGroups_singleton] at h
    exact .inr (hexDigit_of_mem_toDigits (by omega) le_rfl h)
  | g :: g' :: gs =>
    rw [hexGroups_cons_cons] at h
    rcases mem_append.mp h with h | h
    · exact .inr (hexDigit_of_mem_toDigits (by omega) le_rfl h)
    · rcases mem_cons.mp h with h | h
      · exact .inl h
      · exact mem_hexGroups h

theorem hexGroups_head (g : Nat) (gs : List Nat) :
    ∃ c cs, hexGroups (g :: gs) = c :: cs ∧ c ≠ ':' := by
  obtain ⟨c, cs, hc⟩ := exists_cons_of_ne_nil (toDigits_ne_nil (b := 16) (n := g))
  have hne : c ≠ ':' := by
    rintro rfl
    have hdigit := hexDigit_of_mem_toDigits (by omega) le_rfl (by simp [hc] : ':' ∈ toDigits 16 g)
    exact absurd hdigit (by decide)
  cases gs with
  | nil => exact ⟨c, cs, by rw [hexGroups_singleton, hc], hne⟩
  | cons g' gs =>
    exact ⟨c, cs ++ ':' :: hexGroups (g' :: gs), by rw [hexGroups_cons_cons, hc]; rfl, hne⟩

/-- A group that a single colon follows. -/
theorem parseIPv6Groups_colon {s cs : GoString} {c : Char} {l g : Nat}
    (hrun : hexRun s 0 0 = some (l, g, ':' :: c :: cs)) (hl : 1 ≤ l) (hc : c ≠ ':') (fuel : Nat)
    (groups : List Nat) (ellipsis : Option Nat) :
    parseIPv6Groups (fuel + 1) s groups ellipsis =
      parseIPv6Groups fuel (c :: cs) (groups ++ [g]) ellipsis := by
  rw [parseIPv6Groups, hrun]
  simp only
  rw [if_neg (by omega)]
  split
  · simp_all
  · simp_all
  · simp_all
  · simp_all
  · rename_i heq
    rw [(List.cons.inj heq).2]
  · simp_all

/-- **Groups are read back**, up to the end of the text. -/
theorem parseIPv6Groups_hexGroups {gs : List Nat} (hgs : ∀ g ∈ gs, g < 65536) (hne : gs ≠ [])
    {fuel : Nat} (hfuel : gs.length ≤ fuel) (groups : List Nat) (ellipsis : Option Nat) :
    parseIPv6Groups fuel (hexGroups gs) groups ellipsis = some (groups ++ gs, ellipsis, []) := by
  induction gs generalizing fuel groups with
  | nil => exact absurd rfl hne
  | cons g gs ih =>
    obtain ⟨hg, hrest⟩ := forall_mem_cons.mp hgs
    obtain ⟨fuel, rfl⟩ := Nat.exists_eq_add_of_le' (Nat.le_trans (by simp) hfuel : 1 ≤ fuel)
    cases gs with
    | nil =>
      have hend : EndsGroup [] := nofun
      obtain ⟨l, hl, hrun⟩ := hexRun_group hg hend
      rw [append_nil] at hrun
      rw [hexGroups_singleton, parseIPv6Groups, hrun]
      simp only
      rw [if_neg (by omega)]
    | cons g' gs =>
      obtain ⟨l, hl, hrun⟩ := hexRun_group hg (endsGroup_colon (hexGroups (g' :: gs)))
      obtain ⟨c, cs, hhead, hcolon⟩ := hexGroups_head g' gs
      have hlen : (g' :: gs).length ≤ fuel := by simpa using hfuel
      have hnext := ih hrest (cons_ne_nil _ _) hlen (groups ++ [g])
      rw [hhead] at hrun hnext
      rw [hexGroups_cons_cons, hhead, parseIPv6Groups_colon hrun hl hcolon, hnext, append_assoc,
        singleton_append]

/-- Groups are read up to an ellipsis, and those that follow it. -/
theorem parseIPv6Groups_ellipsis {as bs : List Nat} (has : ∀ g ∈ as, g < 65536)
    (hbs : ∀ g ∈ bs, g < 65536) (hne : as ≠ []) {fuel : Nat} (hfuel : as.length + bs.length ≤ fuel)
    (groups : List Nat) :
    parseIPv6Groups fuel (hexGroups as ++ ':' :: ':' :: hexGroups bs) groups none =
      some (groups ++ as ++ bs, some (groups.length + as.length), []) := by
  induction as generalizing fuel groups with
  | nil => exact absurd rfl hne
  | cons g as ih =>
    obtain ⟨hg, hrest⟩ := forall_mem_cons.mp has
    obtain ⟨fuel, rfl⟩ := Nat.exists_eq_add_of_le' (Nat.le_trans (by simp; omega) hfuel : 1 ≤ fuel)
    simp only [length_cons] at hfuel
    cases as with
    | nil =>
      obtain ⟨l, hl, hrun⟩ := hexRun_group hg (endsGroup_colon (':' :: hexGroups bs))
      rw [hexGroups_singleton, parseIPv6Groups, hrun]
      simp only
      rw [if_neg (by omega)]
      cases bs with
      | nil => simp [hexGroups, List.intercalate]
      | cons b bs =>
        obtain ⟨c, cs, hhead, -⟩ := hexGroups_head b bs
        have hnonempty : hexGroups (b :: bs) ≠ [] := by simp [hhead]
        simp only [Option.isSome_none, Bool.false_eq_true, if_false, if_neg hnonempty]
        rw [parseIPv6Groups_hexGroups hbs (cons_ne_nil _ _) (by simp at hfuel ⊢; omega)]
        simp
    | cons g' as =>
      obtain ⟨l, hl, hrun⟩ := hexRun_group hg
        (endsGroup_colon (hexGroups (g' :: as) ++ ':' :: ':' :: hexGroups bs))
      obtain ⟨c, cs, hhead, hcolon⟩ := hexGroups_head g' as
      have hlen : (g' :: as).length + bs.length ≤ fuel := by omega
      have hnext := ih hrest (cons_ne_nil _ _) hlen (groups ++ [g])
      rw [hhead, cons_append] at hrun hnext
      rw [hexGroups_cons_cons, append_assoc, cons_append, hhead, cons_append,
        parseIPv6Groups_colon hrun hl hcolon, hnext]
      have hpos : (groups ++ [g]).length + (g' :: as).length = groups.length + (g :: g' :: as).length := by
        simp
        omega
      rw [hpos, append_assoc groups [g], singleton_append]

/-! ## The run of zero groups -/

/-- The groups that are left out are zeros. -/
def ZeroRun (gs : List Nat) (run : Nat × Nat) : Prop :=
  run.1 + 2 ≤ run.2 ∧ run.2 ≤ gs.length ∧
    gs = gs.take run.1 ++ List.replicate (run.2 - run.1) 0 ++ gs.drop run.2

theorem zeroRun_spec (gs : List Nat) :
    zeroRun gs ≤ gs.length ∧ gs = List.replicate (zeroRun gs) 0 ++ gs.drop (zeroRun gs) := by
  induction gs with
  | nil => exact ⟨le_rfl, rfl⟩
  | cons g gs ih =>
    cases g with
    | zero =>
      rw [zeroRun]
      refine ⟨by simpa using ih.1, ?_⟩
      rw [replicate_succ, cons_append, drop_succ_cons, ← ih.2]
    | succ g => exact ⟨zero_le _, rfl⟩

theorem longestZeroRun_spec {all rest done : List Nat} {best : Option (Nat × Nat)}
    (hall : all = done ++ rest) (hbest : ∀ r ∈ best, ZeroRun all r) :
    ∀ r ∈ longestZeroRun rest done.length best, ZeroRun all r := by
  induction rest generalizing done best with
  | nil => exact hbest
  | cons g gs ih =>
    have hdone : all = (done ++ [g]) ++ gs := by simp [hall]
    have hlen : done.length + 1 = (done ++ [g]).length := by simp
    unfold longestZeroRun
    rw [hlen]
    refine ih hdone fun r hr => ?_
    split_ifs at hr with hlonger
    · cases hr
      obtain ⟨hle, hzeros⟩ := zeroRun_spec (g :: gs)
      refine ⟨by simpa using hlonger.1, by simpa [hall] using hle, ?_⟩
      have hdrop : all.drop (done.length + zeroRun (g :: gs)) = (g :: gs).drop (zeroRun (g :: gs)) := by
        rw [hall, drop_append]
        simp
      rw [hdrop, Nat.add_sub_cancel_left, append_assoc, ← hzeros, hall, take_left]
    · exact hbest r hr

/-! ## The whole text -/

theorem lt_of_mem_digits {base width n d : Nat} (hbase : 0 < base) (h : d ∈ digits base width n) :
    d < base := by
  induction width generalizing n with
  | zero => cases h
  | succ width ih =>
    rcases mem_append.mp h with h | h
    · exact ih h
    · exact mem_singleton.mp h ▸ mod_lt _ hbase

/-- A text without zone, once its groups are read. -/
theorem parseIPv6_of_groups (hzone : ∀ c ∈ s, c ≠ '%') {groups gs : List Nat}
    {ellipsis : Option Nat} (hexpand : expandGroups groups ellipsis = some gs)
    (hparse : (s = [':', ':'] ∧ groups = [] ∧ ellipsis = some 0) ∨
      (∃ more, s = ':' :: ':' :: more ∧ more ≠ [] ∧
        parseIPv6Groups 8 more [] (some 0) = some (groups, ellipsis, [])) ∨
      (∃ c cs, s = c :: cs ∧ c ≠ ':' ∧ parseIPv6Groups 8 s [] none = some (groups, ellipsis, []))) :
    parseIPv6 s = some (v6 (BitVec.ofNat 128 (ofDigits 65536 gs)) []) := by
  have htake : s.takeWhile (· ≠ '%') = s := takeWhile_eq_self_iff.mpr (by simpa using hzone)
  have hdrop : s.dropWhile (· ≠ '%') = [] := dropWhile_eq_nil_iff.mpr (by simpa using hzone)
  unfold parseIPv6
  simp only [htake, hdrop]
  rcases hparse with ⟨rfl, rfl, rfl⟩ | ⟨more, rfl, hne, hparse⟩ | ⟨c, cs, rfl, hc, hparse⟩
  · simp [hexpand]
  · obtain ⟨d, ds, rfl⟩ := exists_cons_of_ne_nil hne
    simp [hparse, hexpand]
  · rw [if_neg (by decide)]
    split
    · rename_i groups' ellipsis' heq
      split at heq <;> simp_all
    · rename_i hnone
      refine absurd ?_ (hnone groups ellipsis)
      split <;> simp_all

/-- Digits and colons. -/
def ColonHex (s : GoString) : Prop := ∀ c ∈ s, c = ':' ∨ (hexDigit c).isSome

theorem ColonHex.ne_percent (h : ColonHex s) : ∀ c ∈ s, c ≠ '%' := by
  rintro c hc rfl
  exact absurd (h '%' hc) (by decide)

/-- The only separator of a text is found. -/
theorem find?_separator {sep : Char} (hsep : sep = '.' ∨ sep = ':' ∨ sep = '%') (hmem : sep ∈ s)
    (honly : ∀ c ∈ s, c = '.' ∨ c = ':' ∨ c = '%' → c = sep) :
    s.find? (fun c => c = '.' ∨ c = ':' ∨ c = '%') = some sep := by
  cases hfind : s.find? (fun c => c = '.' ∨ c = ':' ∨ c = '%') with
  | none => exact absurd (List.find?_eq_none.mp hfind sep hmem) (by simpa [or_iff_not_imp_left] using hsep)
  | some c => rw [honly c (mem_of_find?_eq_some hfind) (by simpa using List.find?_some hfind)]

theorem parseAddr_of_colonHex (h : ColonHex s) (hcolon : ':' ∈ s) : parseAddr s = parseIPv6 s := by
  rw [parseAddr, find?_separator (by simp) hcolon]
  · rfl
  rintro c hc (rfl | rfl | rfl)
  · exact absurd (h '.' hc) (by decide)
  · rfl
  · exact absurd (h '%' hc) (by decide)

/-- **What is written of an IPv6 address is read back.** -/
theorem parseAddr_string6 (bits : BitVec 128) : parseAddr (string6 bits) = some (v6 bits []) := by
  have hlen : (digits 65536 8 bits.toNat).length = 8 := length_digits ..
  have hlt : ∀ g ∈ digits 65536 8 bits.toNat, g < 65536 := fun g hg => lt_of_mem_digits (by omega) hg
  have hvalue : v6 (BitVec.ofNat 128 (ofDigits 65536 (digits 65536 8 bits.toNat))) [] = v6 bits [] := by
    rw [ofDigits_digits (by simpa using bits.isLt), BitVec.ofNat_toNat, BitVec.setWidth_eq]
  rw [string6]
  generalize digits 65536 8 bits.toNat = gs at hlen hlt hvalue
  rw [← hvalue]
  have hrun : ∀ r ∈ longestZeroRun gs 0 none, ZeroRun gs r :=
    longestZeroRun_spec (nil_append gs).symm nofun
  cases hzero : longestZeroRun gs 0 none with
  | none =>
    obtain ⟨g, g', rest, rfl⟩ : ∃ g g' rest, gs = g :: g' :: rest := by
      match gs, hlen with
      | g :: g' :: rest, _ => exact ⟨g, g', rest, rfl⟩
    have hchars : ColonHex (hexGroups (g :: g' :: rest)) := fun c hc => mem_hexGroups hc
    obtain ⟨c, cs, hhead, hc⟩ := hexGroups_head g (g' :: rest)
    rw [parseAddr_of_colonHex hchars (by simp [hexGroups_cons_cons])]
    have hexpand : expandGroups (g :: g' :: rest) none = some (g :: g' :: rest) := by
      rw [expandGroups, if_neg (by omega)]
    exact parseIPv6_of_groups hchars.ne_percent hexpand (.inr (.inr ⟨c, cs, hhead, hc,
      parseIPv6Groups_hexGroups hlt (cons_ne_nil _ _) (by omega) [] none⟩))
  | some r =>
    obtain ⟨start, stop⟩ := r
    obtain ⟨htwo, hstop, hgs⟩ := hrun _ hzero
    have hchars : ColonHex (hexGroups (gs.take start) ++ [':', ':'] ++ hexGroups (gs.drop stop)) := by
      intro c hc
      simp only [append_assoc, mem_append, mem_cons, not_mem_nil, or_false] at hc
      rcases hc with hc | (hc | hc) | hc
      · exact mem_hexGroups hc
      · exact .inl hc
      · exact .inl hc
      · exact mem_hexGroups hc
    have htake : ∀ g ∈ gs.take start, g < 65536 := fun g hg => hlt g (mem_of_mem_take hg)
    have hdrop : ∀ g ∈ gs.drop stop, g < 65536 := fun g hg => hlt g (mem_of_mem_drop hg)
    have hlens : (gs.take start).length = start ∧ (gs.drop stop).length = 8 - stop := by
      rw [length_take, length_drop, hlen]
      omega
    rw [parseAddr_of_colonHex hchars (by simp)]
    have hexpand : expandGroups (gs.take start ++ gs.drop stop) (some start) = some gs := by
      have hcount : (gs.take start ++ gs.drop stop).length = 8 - (stop - start) := by
        rw [length_append, hlens.1, hlens.2]
        omega
      rw [expandGroups, if_pos (by omega), hcount, Nat.sub_sub_self (by omega),
        take_left' hlens.1, drop_left' hlens.1, ← hgs]
    refine parseIPv6_of_groups hchars.ne_percent hexpand ?_
    rw [append_assoc]
    cases hfront : gs.take start with
    | nil =>
      have hstart : start = 0 := by rw [← hlens.1, hfront, length_nil]
      subst hstart
      cases hback : gs.drop stop with
      | nil => exact .inl ⟨rfl, rfl, rfl⟩
      | cons b bs =>
        obtain ⟨c, cs, hhead, -⟩ := hexGroups_head b bs
        refine .inr (.inl ⟨hexGroups (b :: bs), rfl, by simp [hhead], ?_⟩)
        rw [hback] at hdrop hlens
        exact parseIPv6Groups_hexGroups hdrop (cons_ne_nil _ _) (by omega) [] (some 0)
    | cons a as =>
      obtain ⟨c, cs, hhead, hc⟩ := hexGroups_head a as
      refine .inr (.inr ⟨c, cs ++ ([':', ':'] ++ hexGroups (gs.drop stop)), by rw [hhead]; rfl, hc, ?_⟩)
      rw [hfront] at htake hlens
      have hfuel : (a :: as).length + (gs.drop stop).length ≤ 8 := by omega
      have hparse := parseIPv6Groups_ellipsis htake hdrop (cons_ne_nil _ _) hfuel []
      rw [hlens.1] at hparse
      simpa using hparse

/-! ## Dotted quads -/

theorem decDigit_digitChar (h : d < 10) : decDigit (digitChar d) = some d := by
  interval_cases d <;> decide

/-- One digit of an octet, unless it follows a leading zero. -/
theorem parseIPv4Fields_digit {d val digLen : Nat} (hd : d < 10) (hlead : ¬ (digLen = 1 ∧ val = 0))
    (hmax : val * 10 + d < 256) (rest : GoString) (fields : List Nat) :
    parseIPv4Fields (digitChar d :: rest) val digLen fields =
      parseIPv4Fields rest (val * 10 + d) (digLen + 1) fields := by
  rw [parseIPv4Fields, decDigit_digitChar hd]
  simp only
  rw [if_neg hlead, if_neg (by omega)]

/-- **An octet is read back.** -/
theorem parseIPv4Fields_octet {o : Nat} (ho : o < 256) : ∃ l, 1 ≤ l ∧ ∀ rest fields,
    parseIPv4Fields (Nat.toDigits 10 o ++ rest) 0 0 fields = parseIPv4Fields rest o l fields := by
  induction o using Nat.strongRecOn with
  | ind o ih =>
    rw [toDigits_eq_if (by omega)]
    split_ifs with hone
    · refine ⟨1, le_rfl, fun rest fields => ?_⟩
      rw [singleton_append, parseIPv4Fields_digit hone (by omega) (by omega), zero_mul, zero_add]
    · obtain ⟨l, -, hfront⟩ := ih (o / 10) (by omega) (by omega)
      refine ⟨l + 1, by omega, fun rest fields => ?_⟩
      rw [append_assoc, singleton_append, hfront,
        parseIPv4Fields_digit (mod_lt _ (by omega)) (by omega) (by omega), Nat.div_add_mod']

theorem parseIPv4Fields_dot {l val : Nat} (hl : 1 ≤ l) (hrest : rest ≠ []) {fields : List Nat}
    (hfields : fields.length < 3) :
    parseIPv4Fields ('.' :: rest) val l fields = parseIPv4Fields rest 0 0 (fields ++ [val]) := by
  have hnone : decDigit '.' = none := by decide
  rw [parseIPv4Fields, hnone]
  simp only [if_true]
  rw [if_neg (by simp [hrest]; omega), if_neg (by omega)]

variable (bits : BitVec 32)

/-- The octets of a dotted quad. -/
theorem exists_octets : ∃ a b c d, a < 256 ∧ b < 256 ∧ c < 256 ∧ d < 256 ∧
    digits 256 4 bits.toNat = [a, b, c, d] ∧
    string4 bits = toDigits 10 a ++ '.' :: (toDigits 10 b ++ '.' :: (toDigits 10 c ++
      '.' :: toDigits 10 d)) := by
  refine ⟨_, _, _, _, ?_, ?_, ?_, ?_, rfl, ?_⟩
  · exact mod_lt _ (by omega)
  · exact mod_lt _ (by omega)
  · exact mod_lt _ (by omega)
  · exact mod_lt _ (by omega)
  · simp [string4, digits, List.intercalate]

/-- **A dotted quad is read back.** -/
theorem parseIPv4Fields_string4 :
    parseIPv4Fields (string4 bits) 0 0 [] = some (digits 256 4 bits.toNat) := by
  obtain ⟨a, b, c, d, ha, hb, hc, hd, hdigits, htext⟩ := exists_octets bits
  rw [hdigits, htext]
  obtain ⟨_, hla, hfirst⟩ := parseIPv4Fields_octet ha
  obtain ⟨_, hlb, hsecond⟩ := parseIPv4Fields_octet hb
  obtain ⟨_, hlc, hthird⟩ := parseIPv4Fields_octet hc
  obtain ⟨_, -, hlast⟩ := parseIPv4Fields_octet hd
  rw [hfirst, parseIPv4Fields_dot hla (by simp) (by simp), hsecond,
    parseIPv4Fields_dot hlb (by simp) (by simp), hthird,
    parseIPv4Fields_dot hlc toDigits_ne_nil (by simp), ← append_nil (toDigits 10 d), hlast]
  rfl

theorem parseAddr_string4 : parseAddr (string4 bits) = some (v4 bits) := by
  have hfields := parseIPv4Fields_string4 bits
  have hchars := parseIPv4Fields_chars hfields
  have hdot : '.' ∈ string4 bits := by
    obtain ⟨a, b, c, d, -, -, -, -, -, htext⟩ := exists_octets bits
    simp [htext]
  have hparse : parseIPv4 (string4 bits) = some (v4 bits) := by
    rw [parseIPv4, hfields, Option.map_some, ofDigits_digits (by simpa using bits.isLt),
      BitVec.ofNat_toNat, BitVec.setWidth_eq]
  rw [parseAddr, find?_separator (by simp) hdot]
  · exact hparse
  rintro c hc (rfl | rfl | rfl)
  · rfl
  · exact absurd (hchars ':' hc) (by decide)
  · exact absurd (hchars '%' hc) (by decide)

theorem exists_hexRun_append (hs : ∀ c ∈ s, (hexDigit c).isSome) {off : Nat}
    (hoff : off + s.length ≤ 4) (acc : Nat) (rest : GoString) :
    ∃ acc', hexRun (s ++ rest) off acc = hexRun rest (off + s.length) acc' := by
  induction s generalizing off acc with
  | nil => exact ⟨acc, rfl⟩
  | cons c s ih =>
    obtain ⟨hc, hs⟩ := forall_mem_cons.mp hs
    obtain ⟨d, hd⟩ := Option.isSome_iff_exists.mp hc
    rw [length_cons, add_comm s.length, ← add_assoc] at hoff ⊢
    rw [cons_append, hexRun_cons hd (by omega)]
    exact ih hs hoff _

/-- The first octet of a dotted quad also reads as hexadecimal digits. -/
theorem hexRun_octet {o : Nat} (ho : o < 256) (rest : GoString) : ∃ l acc, 1 ≤ l ∧
    hexRun (toDigits 10 o ++ '.' :: rest) 0 0 = some (l, acc, '.' :: rest) := by
  have hend : EndsGroup ('.' :: rest) := by
    intro c hc
    cases hc
    decide
  have hlen : (toDigits 10 o).length ≤ 3 :=
    (length_toDigits_le_iff (by omega) (by omega)).mpr (by omega)
  have hdigits : ∀ c ∈ toDigits 10 o, (hexDigit c).isSome := fun _ =>
    hexDigit_of_mem_toDigits (by omega) (by omega)
  obtain ⟨acc, hacc⟩ := exists_hexRun_append hdigits (by omega : 0 + _ ≤ 4) 0 ('.' :: rest)
  rw [hacc, hexRun_of_endsGroup hend]
  exact ⟨_, acc, le_add_left_of_le (length_pos_iff.mpr toDigits_ne_nil), rfl⟩

/-- A dotted quad takes the place of the last two groups. -/
theorem parseIPv6Groups_string4 (fuel : Nat) {groups : List Nat} (hroom : groups.length ≤ 6)
    (e : Nat) : ∃ a b c d, digits 256 4 bits.toNat = [a, b, c, d] ∧
      parseIPv6Groups (fuel + 1) (string4 bits) groups (some e) =
        some (groups ++ [a * 256 + b, c * 256 + d], some e, []) := by
  obtain ⟨a, b, c, d, ha, -, -, -, hdigits, htext⟩ := exists_octets bits
  obtain ⟨l, acc, hl, hrun⟩ := hexRun_octet ha (toDigits 10 b ++ '.' :: (toDigits 10 c ++
    '.' :: toDigits 10 d))
  have hfields := parseIPv4Fields_string4 bits
  rw [← htext] at hrun
  rw [hdigits] at hfields
  refine ⟨a, b, c, d, hdigits, ?_⟩
  rw [parseIPv6Groups, hrun]
  simp only [hfields]
  rw [if_neg (by omega), if_neg (by simp), if_neg (by omega)]

/-- The two halves of a mapped address. -/
theorem ofDigits_mapped {n a b c d : Nat} (h : ofDigits 256 [a, b, c, d] = n) :
    ofDigits 65536 [0, 0, 0, 0, 0, 65535, a * 256 + b, c * 256 + d] = 65535 * 2 ^ 32 + n := by
  subst h
  simp only [ofDigits, foldl_cons, foldl_nil]
  ring

theorem parseAddr_mapped {bits : BitVec 128} (hmapped : bits.toNat / 2 ^ 32 = 0xffff) :
    parseAddr (lit "::ffff:" ++ string4 (bits.setWidth 32)) = some (v6 bits []) := by
  have hzone : ∀ c ∈ lit "::ffff:" ++ string4 (bits.setWidth 32), c ≠ '%' := by
    rintro c hc rfl
    rcases mem_append.mp hc with hc | hc
    · exact absurd hc (by decide)
    · have hchars := parseIPv4Fields_chars (parseIPv4Fields_string4 (bits.setWidth 32)) '%' hc
      exact absurd hchars (by decide)
  obtain ⟨a, b, c, d, hdigits, hgroups⟩ := parseIPv6Groups_string4 (bits.setWidth 32) 6
    (by simp : [65535].length ≤ 6) 0
  have hlow : (bits.setWidth 32).toNat = bits.toNat % 2 ^ 32 := BitVec.toNat_setWidth ..
  have hvalue : ofDigits 256 [a, b, c, d] = bits.toNat % 2 ^ 32 := by
    rw [← hdigits, ofDigits_digits (by simpa using (bits.setWidth 32).isLt), hlow]
  have hnat : 65535 * 2 ^ 32 + bits.toNat % 2 ^ 32 = bits.toNat := by
    omega
  obtain ⟨o, os, hhead⟩ := exists_cons_of_ne_nil (by
    obtain ⟨a, b, c, d, -, -, -, -, -, htext⟩ := exists_octets (bits.setWidth 32)
    simp [htext] : string4 (bits.setWidth 32) ≠ [])
  have hcolon : o ≠ ':' := by
    rintro rfl
    have hchars := parseIPv4Fields_chars (parseIPv4Fields_string4 (bits.setWidth 32)) ':'
      (by simp [hhead])
    exact absurd hchars (by decide)
  have hfirst : hexRun (lit "ffff:" ++ string4 (bits.setWidth 32)) 0 0 =
      some (4, 65535, ':' :: o :: os) := by
    rw [hhead]
    rfl
  have hparse : parseIPv6Groups 8 (lit "ffff:" ++ string4 (bits.setWidth 32)) [] (some 0) =
      some ([65535, a * 256 + b, c * 256 + d], some 0, []) := by
    rw [parseIPv6Groups_colon hfirst (by omega) hcolon, ← hhead]
    exact hgroups
  have hexpand : expandGroups [65535, a * 256 + b, c * 256 + d] (some 0) =
      some [0, 0, 0, 0, 0, 65535, a * 256 + b, c * 256 + d] := rfl
  have hv6 := parseIPv6_of_groups hzone hexpand (.inr (.inl ⟨_, rfl, by simp, hparse⟩))
  rw [ofDigits_mapped hvalue, hnat, BitVec.ofNat_toNat, BitVec.setWidth_eq] at hv6
  exact hv6

theorem string_v6 (bits : BitVec 128) (zone : GoString) : (v6 bits zone).string =
    (if bits.toNat / 2 ^ 32 = 0xffff then lit "::ffff:" ++ string4 (bits.setWidth 32)
      else string6 bits) ++ (if zone = [] then [] else '%' :: zone) := rfl

/-- **What is written of an address without zone is read back.** -/
theorem parseAddr_string {a : Addr} (hvalid : a ≠ invalid) (hzone : a.zone = []) :
    parseAddr a.string = some a := by
  cases a with
  | invalid => exact absurd rfl hvalid
  | v4 bits => exact parseAddr_string4 bits
  | v6 bits zone =>
    obtain rfl : zone = [] := hzone
    rw [string_v6, if_pos rfl, append_nil]
    split_ifs with hmapped
    · exact parseAddr_mapped hmapped
    · exact parseAddr_string6 bits

end Go.Addr
