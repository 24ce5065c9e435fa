import InternalDNS.GoStrings

/-! # Domain names in presentation format

A domain name is written as its labels with dots between them; a dot that belongs to a
label is escaped with a backslash, and a fully qualified name ends in a dot.  This module
says where the labels of such a name start, what it means for one name to be a label suffix
of another, and what a DNS library promises about them.

`DNS.Lib` is such a library: the functions, with the documented behaviour of those whose
result a program relies on.  `DNS.Lib.reference` is one that behaves so.
-/
namespace DNS

open Go List

variable (s : GoString)

/-- The dot at position `i` belongs to a label: an odd number of backslashes precedes it. -/
def escapedAt (i : Nat) : Bool :=
  ((s.take i).rtakeWhile (· = '\\')).length % 2 = 1

/-- A label of `s` starts at position `k`. -/
def isLabelStart (k : Nat) : Bool :=
  k = 0 || (decide (k < s.length) && s[k - 1]? = some '.' && !escapedAt s (k - 1))

/-- The positions at which the labels of `s` start. -/
def labelStarts : List Nat := (List.range s.length).filter (isLabelStart s)

/-- `s` ends in a dot that is not escaped. -/
def isFqdn : Bool :=
  s.getLast? = some '.' && !escapedAt s (s.length - 1)

/-- What remains of `s` when some of its leading labels are removed. -/
def IsLabelSuffix (t s : GoString) : Prop := ∃ k ∈ labelStarts s, t = s.drop k

/-- The labels of an escape-free name. -/
def labels : List GoString := s.splitOn '.'

/-! ## Label boundaries -/

theorem labelStarts_pairwise : (labelStarts s).Pairwise (· < ·) :=
  pairwise_lt_range.filter _

theorem zero_mem_labelStarts {s : GoString} (h : s ≠ []) : 0 ∈ labelStarts s :=
  mem_filter.mpr ⟨mem_range.mpr (length_pos_iff.mpr h), by simp [isLabelStart]⟩

/-- The first label start beyond an offset is the least one. -/
theorem find_labelStarts_least {s : GoString} {offset k : Nat}
    (h : (labelStarts s).find? (offset < ·) = some k) :
    k ∈ labelStarts s ∧ offset < k ∧ ∀ j ∈ labelStarts s, offset < j → k ≤ j := by
  obtain ⟨hlt, before, after, heq, hbefore⟩ := List.find?_eq_some_iff_append.mp h
  refine ⟨by rw [heq]; simp, by simpa using hlt, fun j hj hoff => ?_⟩
  rw [heq, mem_append, mem_cons] at hj
  rcases hj with hj | rfl | hj
  · have := hbefore j hj
    simp only [Bool.not_eq_eq_eq_not, Bool.not_true, decide_eq_false_iff_not] at this
    exact absurd hoff this
  · exact le_refl _
  · have hpair := labelStarts_pairwise s
    rw [heq, pairwise_append] at hpair
    exact le_of_lt (rel_of_pairwise_cons hpair.2.1 hj)

/-- Folding case moves no label boundary. -/
theorem labelStarts_toLower (U : CaseMap) (s : GoString) :
    labelStarts (toLower U s) = labelStarts s := by
  have hescaped : ∀ i, escapedAt (toLower U s) i = escapedAt s i := by
    intro i
    have hrev : ∀ l : GoString, ((l.map U.lower).rtakeWhile (· = '\\')).length =
        (l.rtakeWhile (· = '\\')).length := by
      intro l
      have hp : ((fun c => decide (c = '\\')) ∘ U.lower) = fun c => decide (c = '\\') := by
        funext c
        simp
      rw [List.rtakeWhile, List.rtakeWhile, ← map_reverse, takeWhile_map, hp]
      simp
    simp [escapedAt, toLower, ← map_take, hrev]
  have hstart : isLabelStart (toLower U s) = isLabelStart s := by
    funext k
    simp only [isLabelStart, hescaped]
    simp [toLower]
  rw [labelStarts, hstart, length_toLower, labelStarts]

/-! ## Names at or below a name -/

/-- `name` is `root`, or ends in a dot and `root`. -/
def AtOrBelow (name root : GoString) : Prop := name = root ∨ '.' :: root <:+ name

instance (name root : GoString) : Decidable (AtOrBelow name root) :=
  inferInstanceAs (Decidable (_ ∨ _))

theorem AtOrBelow.suffix {name root : GoString} (h : AtOrBelow name root) : root <:+ name := by
  rcases h with rfl | h
  · exact suffix_refl _
  · exact (suffix_cons ..).trans h

/-- Two names above one name lie in one line. -/
theorem AtOrBelow.comparable {name a b : GoString} (ha : AtOrBelow name a)
    (hb : AtOrBelow name b) : AtOrBelow a b ∨ AtOrBelow b a := by
  rcases ha with rfl | ha
  · exact .inl hb
  rcases hb with rfl | hb
  · exact .inr (.inr ha)
  have hdot : ∀ {x y : GoString}, '.' :: x <:+ '.' :: y → AtOrBelow y x := by
    intro x y hxy
    rcases suffix_cons_iff.mp hxy with heq | h
    · exact .inl (List.cons.inj heq).2.symm
    · exact .inr h
  exact (suffix_or_suffix_of_suffix ha hb).elim (fun h => .inr (hdot h)) fun h =>
    .inl (hdot h)

/-- Names in one zone compare as their relative names do. -/
theorem atOrBelow_append_iff {name root apex : GoString} :
    AtOrBelow (name ++ '.' :: apex) (root ++ '.' :: apex) ↔ AtOrBelow name root := by
  have hcancel : '.' :: (root ++ '.' :: apex) <:+ name ++ '.' :: apex ↔ '.' :: root <:+ name := by
    constructor
    · rintro ⟨t, ht⟩
      refine ⟨t, (append_left_inj ('.' :: apex)).mp ?_⟩
      rw [← ht, append_assoc, cons_append]
    · rintro ⟨t, rfl⟩
      exact ⟨t, by simp⟩
  rw [AtOrBelow, AtOrBelow, hcancel, append_left_inj]

/-- A name is not below a longer one. -/
theorem not_atOrBelow_of_length_lt {name root : GoString} (h : name.length < root.length) :
    ¬ AtOrBelow name root := fun hbelow => absurd hbelow.suffix.length_le (by omega)

/-- Of two label suffixes of a name, the longer one is at or below the other. -/
theorem atOrBelow_of_isLabelSuffix {a b name : GoString} (ha : IsLabelSuffix (a ++ ['.']) name)
    (hb : IsLabelSuffix (b ++ ['.']) name) (hle : b.length ≤ a.length) : AtOrBelow a b := by
  obtain ⟨i, hi, hai⟩ := ha
  obtain ⟨j, hj, hbj⟩ := hb
  have hlena := congrArg length hai
  have hlenb := congrArg length hbj
  simp only [length_append, length_singleton, length_drop] at hlena hlenb
  obtain rfl | hlt : i = j ∨ i < j := by omega
  · exact .inl (append_cancel_right (hai.trans hbj.symm))
  · -- a dot precedes the shorter one
    have hstart := (mem_filter.mp hj).2
    simp only [isLabelStart, Bool.or_eq_true, Bool.and_eq_true, decide_eq_true_eq] at hstart
    obtain ⟨⟨-, hdot⟩, -⟩ := hstart.resolve_left (by omega)
    obtain ⟨hlen, hget⟩ := List.getElem?_eq_some_iff.mp hdot
    have hdrop : (name.drop i).drop (j - 1 - i) = '.' :: name.drop j := by
      rw [drop_drop, show i + (j - 1 - i) = j - 1 by omega, drop_eq_getElem_cons hlen, hget,
        show j - 1 + 1 = j by omega]
    rw [← hai, ← hbj] at hdrop
    obtain ⟨t, ht⟩ := hdrop ▸ drop_suffix (j - 1 - i) (a ++ ['.'])
    exact .inr ⟨t, append_cancel_right (by rw [append_assoc, cons_append]; exact ht)⟩

/-- A DNS library. -/
structure Lib where
  /-- The name has labels of 1 to 63 octets and fits the wire format. -/
  isDomainName : GoString → Bool
  /-- The second name is the first or lies below it. -/
  isSubDomain : GoString → GoString → Bool
  /-- The text is the mnemonic of a record type. -/
  knownType : GoString → Bool
  /-- The resource record that a line in presentation format stands for, printed again. -/
  newRR : GoString → Option GoString
  /-- The name with a dot appended unless it is fully qualified. -/
  fqdn : GoString → GoString
  /-- The start of the label after the position, or that there is none. -/
  nextLabel : GoString → Nat → Nat × Bool
  fqdn_eq : ∀ s, fqdn s = if isFqdn s then s else s ++ ['.']
  nextLabel_some : ∀ s offset k, (labelStarts s).find? (offset < ·) = some k →
    nextLabel s offset = (k, false)
  nextLabel_none : ∀ s offset, (labelStarts s).find? (offset < ·) = none →
    (nextLabel s offset).2 = true
  isSubDomain_of_suffix : ∀ parent child, isFqdn parent → IsLabelSuffix parent child →
    isSubDomain parent child

/-- The record types that have a mnemonic and matter here. -/
def commonTypes : List GoString :=
  ["A", "AAAA", "CAA", "CNAME", "HTTPS", "MX", "NS", "PTR", "SOA", "SRV", "SVCB", "TLSA",
    "TXT"].map lit

/-- A library that behaves as documented on names without escapes and takes every line for a
record. -/
def Lib.reference : Lib where
  isDomainName s :=
    s = ['.'] || ((labels (trimSuffix s ['.'])).all (fun l => 0 < l.length && l.length ≤ 63) &&
      (trimSuffix s ['.']).length ≤ 253)
  isSubDomain parent child :=
    parent = ['.'] || (labelStarts child).any (fun k => child.drop k = parent)
  knownType s := s ∈ commonTypes
  newRR line := some line
  fqdn s := if isFqdn s then s else s ++ ['.']
  nextLabel s offset := match (labelStarts s).find? (offset < ·) with
    | some k => (k, false)
    | none => (s.length, true)
  fqdn_eq _ := rfl
  nextLabel_some s offset k h := by simp only [h]
  nextLabel_none s offset h := by simp only [h]
  isSubDomain_of_suffix parent child _ h := by
    obtain ⟨k, hk, rfl⟩ := h
    rw [Bool.or_eq_true]
    exact Or.inr (List.any_eq_true.mpr ⟨k, hk, by simp⟩)

example : Lib.reference.isDomainName (lit "a.example.com.") = true := by decide
example : Lib.reference.isDomainName (lit "a..com.") = false := by decide
example : labelStarts (lit "a\\.b.example.") = [0, 5] := by decide

end DNS
