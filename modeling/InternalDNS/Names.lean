import InternalDNS.GoControl
import InternalDNS.DNS

/-! # Names

How the components of the service spell a DNS name.  Each of them folds case and trims
space; they differ in what they do with the trailing dot and with the zone apex.
-/
namespace InternalDNS

open Go List

variable (U : CaseMap) (s : GoString)

/-- `model.AbsoluteName`. -/
def absoluteName : GoString :=
  let s := toLower U (trimSpace s)
  if s = [] then ['.'] else if hasSuffix s ['.'] then s else s ++ ['.']

/-! ## Names relative to a zone -/

/-- `controlplane.canonicalName`, and `model.scopeName`. -/
def canonicalName : GoString := toLower U (trimSuffix (trimSpace s) ['.'])

/-- The two spellings of a name differ in the trailing dot. -/
theorem absoluteName_eq : absoluteName U s = canonicalName U s ++ ['.'] := by
  have hdot : toLower U ['.'] = ['.'] := by simp [toLower]
  rw [absoluteName, canonicalName]
  rcases trimSuffix_cases (trimSpace s) ['.'] with ⟨hnot, heq⟩ | heq
  · have hlower : ¬ ['.'] <:+ toLower U (trimSpace s) := by
      rintro ⟨t, ht⟩
      obtain ⟨x, y, hxy, -, hy⟩ := map_eq_append_iff.mp ht.symm
      obtain ⟨c, rfl, hc⟩ := map_eq_singleton_iff.mp hy
      exact hnot ⟨x, by rw [hxy, (lower_eq_dot U c).mp hc]⟩
    rw [heq]
    by_cases hne : toLower U (trimSpace s) = [] <;> simp [hne, hlower]
  · rw [heq, toLower_append, hdot]
    simp

theorem trimmed_dot : Trimmed ['.'] := by
  constructor <;> simp <;> decide

theorem trimmed_absoluteName : Trimmed (absoluteName U s) := by
  have hs : Trimmed (toLower U (trimSpace s)) := (trimmed_trimSpace s).toLower U
  simp only [absoluteName]
  split_ifs
  · exact trimmed_dot
  · exact hs
  · exact hs.append trimmed_dot

theorem absoluteName_ne_nil : absoluteName U s ≠ [] := by
  simp [absoluteName_eq]

theorem dot_suffix_absoluteName : ['.'] <:+ absoluteName U s := by
  simp [absoluteName_eq]

@[simp] theorem toLower_absoluteName :
    toLower U (absoluteName U s) = absoluteName U s := by
  rw [absoluteName_eq, canonicalName, toLower_append, toLower_toLower]
  simp [toLower]

/-- An absolute name is its own absolute spelling. -/
@[simp] theorem absoluteName_absoluteName :
    absoluteName U (absoluteName U s) = absoluteName U s := by
  rw [absoluteName_eq U (absoluteName U s), canonicalName, trimSpace_of_trimmed (trimmed_absoluteName U s),
    absoluteName_eq, trimSuffix_append, canonicalName, toLower_toLower]

/-- `controlplane.zoneOwner`. -/
def zoneOwner (apex : GoString) : GoString :=
  let n := canonicalName U s
  let a := canonicalName U apex
  if n = a then ['@'] else if hasSuffix n ('.' :: a) then trimSuffix n ('.' :: a) else n

/-- `controlplane.absoluteOwner`. -/
def absoluteOwner (name apex : GoString) : GoString :=
  let name := canonicalName U name
  let apex := canonicalName U apex
  if name = ['@'] then apex
  else if name = apex ∨ hasSuffix name ('.' :: apex) then name
  else name ++ '.' :: apex

/-- `controlplane.srvTargetOwner`. -/
def srvTargetOwner (name apex : GoString) : GoString :=
  if hasSuffix (trimSpace name) ['.'] then canonicalName U name else absoluteOwner U name apex

/-- `model.ZoneRelativeOwner`. -/
def zoneRelativeOwner (owner apex : GoString) : GoString :=
  let n := canonicalName U owner
  let a := canonicalName U apex
  if n = [] ∨ n = ['@'] ∨ n = a then ['@'] else trimSuffix n ('.' :: a)

/-- `model.Within`. -/
def within (name subtree : GoString) : Bool :=
  let name := canonicalName U name
  let subtree := canonicalName U subtree
  name = subtree || hasSuffix name ('.' :: subtree)

theorem within_iff {name subtree : GoString} :
    within U name subtree = true ↔ DNS.AtOrBelow (canonicalName U name) (canonicalName U subtree) := by
  simp [within, DNS.AtOrBelow]

/-! ### Plain names -/

/-- A lower-case letter or a digit. -/
def isPlainAlnum (c : Char) : Bool := c.isLower || c.isDigit

/-- Lower-case letters, digits, dashes and dots, with a letter or digit at both ends.  Domain names
of zones and reservable names are of this form. -/
def isPlain : Bool :=
  s.all (fun c => isPlainAlnum c || c = '-' || c = '.') && s.head?.any isPlainAlnum &&
    s.getLast?.any isPlainAlnum

section

variable {c : Char} (h : isPlainAlnum c = true)
include h

theorem isPlainAlnum_bounds :
    (97 ≤ c.toNat ∧ c.toNat ≤ 122) ∨ (48 ≤ c.toNat ∧ c.toNat ≤ 57) := by
  simp only [isPlainAlnum, Bool.or_eq_true, Char.isLower, Char.isDigit, Bool.and_eq_true,
    decide_eq_true_eq] at h
  exact h

theorem isSpace_of_isPlainAlnum : isSpace c = false := by
  have hb := isPlainAlnum_bounds h
  simp only [isSpace, Bool.or_eq_false_iff, Bool.and_eq_false_iff, decide_eq_false_iff_not,
    beq_eq_false_iff_ne]
  omega

theorem lower_of_isPlainAlnum : U.lower c = c := by
  have hb := isPlainAlnum_bounds h
  rw [U.lower_ascii c (by omega), toLower_of_not_upper (by omega)]

end

/-- What the three marks of a plain name say. -/
structure Plain : Prop where
  chars : ∀ c ∈ s, isPlainAlnum c = true ∨ c = '-' ∨ c = '.'
  head : ∃ c ∈ s.head?, isPlainAlnum c = true
  last : ∃ c ∈ s.getLast?, isPlainAlnum c = true

theorem isPlain_iff {s : GoString} : isPlain s = true ↔ Plain s := by
  simp only [isPlain, Bool.and_eq_true, all_eq_true, Bool.or_eq_true, decide_eq_true_eq,
    Option.any_eq_true, or_assoc]
  exact ⟨fun ⟨⟨h1, h2⟩, h3⟩ => ⟨h1, h2, h3⟩, fun ⟨h1, h2, h3⟩ => ⟨⟨h1, h2⟩, h3⟩⟩

section Plain

variable {U} {s apex : GoString}

theorem Plain.ne_nil (h : Plain s) : s ≠ [] := by
  rintro rfl
  obtain ⟨c, hc, -⟩ := h.head
  simp at hc

theorem Plain.ne_at (h : Plain s) : s ≠ ['@'] := by
  rintro rfl
  obtain ⟨c, hc, hplain⟩ := h.head
  cases hc
  revert hplain
  decide

/-- A name is its own canonical form if it is trimmed, in lower case and without a final dot. -/
theorem canonicalName_eq_self (htrim : Trimmed s) (hdot : ¬ ['.'] <:+ s)
    (hlower : toLower U s = s) : canonicalName U s = s := by
  rw [canonicalName, trimSpace_of_trimmed htrim, trimSuffix_of_not_suffix hdot, hlower]

theorem Plain.toLower (h : Plain s) : toLower U s = s := by
  refine (map_congr_left fun c hc => ?_).trans (map_id s)
  rcases h.chars c hc with hc | rfl | rfl
  · exact lower_of_isPlainAlnum U hc
  · exact (lower_eq_iff_of_caseless U (by decide) '-').mpr rfl
  · exact (lower_eq_dot U '.').mpr rfl

/-- What ends in a plain name ends in a letter or a digit. -/
theorem Plain.last_of_suffix {name : GoString} (h : Plain s) (hs : s <:+ name) :
    ∃ c ∈ name.getLast?, isPlainAlnum c = true := by
  obtain ⟨front, rfl⟩ := hs
  obtain ⟨c, hc, hplain⟩ := h.last
  refine ⟨c, ?_, hplain⟩
  rw [List.getLast?_append, Option.mem_def.mp hc]
  rfl

theorem not_dot_suffix_of_last {name : GoString} (h : ∃ c ∈ name.getLast?, isPlainAlnum c = true) :
    ¬ ['.'] <:+ name := by
  rintro ⟨front, rfl⟩
  obtain ⟨c, hc, hplain⟩ := h
  rw [List.getLast?_concat, Option.mem_some] at hc
  subst hc
  revert hplain
  decide

theorem Plain.trimmed (h : Plain s) : Trimmed s := by
  obtain ⟨c, hc, hplain⟩ := h.head
  obtain ⟨d, hd, hplaind⟩ := h.last
  exact ⟨fun e he => Option.mem_unique hc he ▸ isSpace_of_isPlainAlnum hplain,
    fun e he => Option.mem_unique hd he ▸ isSpace_of_isPlainAlnum hplaind⟩

/-- **A plain name is canonical.** -/
theorem canonicalName_of_plain (h : Plain s) : canonicalName U s = s :=
  canonicalName_eq_self h.trimmed (not_dot_suffix_of_last h.last) h.toLower

/-- Plain names joined by a dot are plain. -/
theorem Plain.append (hs : Plain s) (hapex : Plain apex) : Plain (s ++ '.' :: apex) := by
  refine ⟨fun c hc => ?_, ?_, hapex.last_of_suffix ((suffix_cons ..).trans (suffix_append ..))⟩
  · rw [mem_append, mem_cons] at hc
    rcases hc with hc | rfl | hc
    · exact hs.chars c hc
    · exact .inr (.inr rfl)
    · exact hapex.chars c hc
  · obtain ⟨c, hc, hplain⟩ := hs.head
    exact ⟨c, by rw [List.head?_append, Option.mem_def.mp hc]; rfl, hplain⟩

end Plain

/-! ### Owners -/

section Owners

variable {U} {s k apex p : GoString}

section

variable (s apex : GoString)

@[simp] theorem toLower_canonicalName :
    toLower U (canonicalName U s) = canonicalName U s := toLower_toLower U _

/-- A canonical name does not start with white space. -/
theorem head_canonicalName : ∀ c ∈ (canonicalName U s).head?, isSpace c = false := by
  intro c hc
  rw [canonicalName, toLower, List.head?_map, Option.mem_def, Option.map_eq_some_iff] at hc
  obtain ⟨d, hd, rfl⟩ := hc
  rw [U.lower_space]
  refine (trimmed_trimSpace s).1 d ?_
  rcases trimSuffix_cases (trimSpace s) ['.'] with ⟨-, h⟩ | h
  · exact h ▸ hd
  · rw [h, List.head?_append, hd]
    rfl

/-- The three ways of `zoneOwner`: the apex, a name that ended in the apex, and any other. -/
theorem zoneOwner_cases :
    (zoneOwner U s apex = ['@'] ∧ canonicalName U s = canonicalName U apex) ∨
      canonicalName U s = zoneOwner U s apex ++ '.' :: canonicalName U apex ∨
      (zoneOwner U s apex = canonicalName U s ∧
        ¬ DNS.AtOrBelow (canonicalName U s) (canonicalName U apex)) := by
  simp only [zoneOwner, hasSuffix_iff]
  split_ifs with hapex hsuffix
  · exact .inl ⟨rfl, hapex⟩
  · refine .inr (.inl ?_)
    rcases trimSuffix_cases (canonicalName U s) ('.' :: canonicalName U apex) with ⟨hno, -⟩ | h
    · exact absurd hsuffix hno
    · exact h
  · exact .inr (.inr ⟨rfl, fun h => h.elim hapex hsuffix⟩)

/-- What `zoneOwner` leaves is the front of the canonical name, in lower case. -/
theorem zoneOwner_front :
    zoneOwner U s apex = ['@'] ∨ zoneOwner U s apex <+: canonicalName U s := by
  rcases zoneOwner_cases (U := U) s apex with ⟨h, -⟩ | h | ⟨h, -⟩
  · exact .inl h
  · exact .inr (h ▸ prefix_append ..)
  · exact .inr (h ▸ prefix_refl _)

theorem toLower_at : toLower U ['@'] = ['@'] :=
  congrArg (List.cons · []) ((lower_eq_iff_of_caseless U (by decide) '@').mpr rfl)

theorem toLower_zoneOwner :
    toLower U (zoneOwner U s apex) = zoneOwner U s apex := by
  rcases zoneOwner_front (U := U) s apex with h | ⟨rest, h⟩
  · rw [h, toLower_at]
  · have hlower := toLower_canonicalName (U := U) s
    rw [← h, toLower_append] at hlower
    exact (append_inj hlower (length_toLower ..)).1

theorem head_zoneOwner :
    ∀ c ∈ (zoneOwner U s apex).head?, isSpace c = false := by
  intro c hc
  rcases zoneOwner_front (U := U) s apex with h | ⟨rest, h⟩
  · rw [h] at hc
    cases hc
    decide
  · refine head_canonicalName (U := U) s c ?_
    rw [← h, List.head?_append, Option.mem_def.mp hc]
    rfl

end

/-- An owner at or below a plain name is canonical. -/
theorem canonicalName_zoneOwner_of_below (hp : Plain p) (h : DNS.AtOrBelow (zoneOwner U s apex) p) :
    canonicalName U (zoneOwner U s apex) = zoneOwner U s apex := by
  have hlast := hp.last_of_suffix h.suffix
  refine canonicalName_eq_self ⟨head_zoneOwner s apex, fun c hc => ?_⟩ (not_dot_suffix_of_last hlast)
    (toLower_zoneOwner s apex)
  obtain ⟨d, hd, hplain⟩ := hlast
  exact Option.mem_unique hd hc ▸ isSpace_of_isPlainAlnum hplain

/-- The two functions that make an owner relative agree but for the empty name. -/
theorem zoneRelativeOwner_eq (h : canonicalName U s ≠ []) :
    zoneRelativeOwner U s apex = zoneOwner U s apex := by
  simp only [zoneRelativeOwner, zoneOwner, h, false_or, hasSuffix_iff]
  by_cases hapex : canonicalName U s = canonicalName U apex
  · rw [if_pos (.inr hapex), if_pos hapex]
  by_cases hat : canonicalName U s = ['@']
  · -- "@" itself does not end in a dot and the apex
    have hno : ¬ '.' :: canonicalName U apex <:+ canonicalName U s := by
      rw [hat, suffix_cons_iff]
      simp
    rw [if_pos (.inl hat), if_neg hapex, if_neg hno, hat]
  rw [if_neg (not_or.mpr ⟨hat, hapex⟩), if_neg hapex]
  split_ifs with hsuffix
  · rfl
  · exact trimSuffix_of_not_suffix hsuffix

theorem zoneOwner_of_empty (ha : Plain apex) (h : canonicalName U s = []) :
    zoneOwner U s apex = [] := by
  rw [zoneOwner, h, canonicalName_of_plain ha]
  simp [ha.ne_nil.symm]

/-- The published name of an owner, seen from a plain name of its zone: either the owner still
carries the name of the zone, or it lies below relative to the zone. -/
theorem atOrBelow_of_absoluteOwner (ha : Plain apex)
    (h : DNS.AtOrBelow (absoluteOwner U k apex) (p ++ '.' :: apex)) :
    DNS.AtOrBelow (canonicalName U k) (p ++ '.' :: apex) ∨ DNS.AtOrBelow (canonicalName U k) p := by
  simp only [absoluteOwner, canonicalName_of_plain ha] at h
  split_ifs at h with hat hq
  · refine absurd h (DNS.not_atOrBelow_of_length_lt ?_)
    simp
    omega
  · exact .inl h
  · exact .inr (DNS.atOrBelow_append_iff.mp h)

/-- Conversely, an owner that still carries the name of the zone is published as it is. -/
theorem absoluteOwner_of_qualified (ha : Plain apex)
    (h : DNS.AtOrBelow (canonicalName U k) apex) : absoluteOwner U k apex = canonicalName U k := by
  simp only [absoluteOwner, canonicalName_of_plain ha, hasSuffix_iff]
  split_ifs with hat
  · refine absurd h ?_
    rw [hat]
    rintro (h | h)
    · exact ha.ne_at h.symm
    · exact absurd (suffix_cons_iff.mp h) (by simp)
  · rfl
  · exact absurd h ‹_›

/-! ### Published names -/

theorem absoluteName_of_plain (h : Plain s) : absoluteName U s = s ++ ['.'] := by
  rw [absoluteName_eq, canonicalName_of_plain h]

section

variable (ha : Plain apex) (k : GoString)
include ha

theorem absoluteOwner_cases : absoluteOwner U k apex = apex ∨
      (absoluteOwner U k apex = canonicalName U k ∧ DNS.AtOrBelow (canonicalName U k) apex) ∨
      absoluteOwner U k apex = canonicalName U k ++ '.' :: apex := by
  simp only [absoluteOwner, canonicalName_of_plain ha, hasSuffix_iff]
  split_ifs with hat hq
  · exact .inl rfl
  · exact .inr (.inl ⟨rfl, hq⟩)
  · exact .inr (.inr rfl)

theorem atOrBelow_absoluteOwner :
    DNS.AtOrBelow (absoluteOwner U k apex) apex := by
  rcases absoluteOwner_cases (U := U) ha k with h | ⟨h, hbelow⟩ | h
  · exact .inl h
  · exact h ▸ hbelow
  · exact .inr (h ▸ suffix_append ..)

theorem toLower_absoluteOwner :
    toLower U (absoluteOwner U k apex) = absoluteOwner U k apex := by
  rcases absoluteOwner_cases (U := U) ha k with h | ⟨h, -⟩ | h
  · rw [h, ha.toLower]
  · rw [h, toLower_canonicalName]
  · rw [h, toLower_append, toLower_canonicalName, ← singleton_append, toLower_append, ha.toLower]
    exact congrArg (fun c => _ ++ ([c] ++ apex)) ((lower_eq_dot U '.').mpr rfl)

theorem trimmed_absoluteOwner :
    Trimmed (absoluteOwner U k apex) := by
  obtain ⟨d, hd, hplain⟩ := ha.last_of_suffix (atOrBelow_absoluteOwner (U := U) ha k).suffix
  refine ⟨fun c hc => ?_, fun c hc => Option.mem_unique hd hc ▸ isSpace_of_isPlainAlnum hplain⟩
  rcases absoluteOwner_cases (U := U) ha k with h | ⟨h, -⟩ | h
  · rw [h] at hc
    exact ha.trimmed.1 c hc
  · rw [h] at hc
    exact head_canonicalName k c hc
  · rw [h] at hc
    cases hk : canonicalName U k with
    | nil =>
      rw [hk] at hc
      cases hc
      decide
    | cons b rest =>
      rw [hk] at hc
      exact head_canonicalName (U := U) k c (hk.symm ▸ (hc : c ∈ (b :: rest).head?))

/-- **A published name is absolute but for its final dot.** -/
theorem absoluteName_absoluteOwner :
    absoluteName U (absoluteOwner U k apex) = absoluteOwner U k apex ++ ['.'] := by
  have hlast := ha.last_of_suffix (atOrBelow_absoluteOwner (U := U) ha k).suffix
  rw [absoluteName_eq, canonicalName_eq_self (trimmed_absoluteOwner ha k)
    (not_dot_suffix_of_last hlast) (toLower_absoluteOwner ha k)]

end

end Owners

end InternalDNS
