import InternalDNS.RdataValidate

/-! # What is shown and what is published

The command line shows a record by `render`; the backend is sent the content
that the PowerDNS client builds from the stored entry.  The two are written
apart, and they quote differently: the command line escapes whatever a
character-string cannot hold, the client only semicolons, and it takes a value
in quotes as it is.  `published_iff` says for which valid entries they agree.

A quoted text of the command line is never the shorter one, and as long as the
client's only if nothing but semicolons is escaped.  So the lines agree exactly
when all their values do.
-/
namespace InternalDNS.Backend

open List Option Nat
open Go (Bytes CaseMap GoMap)
open Go.Bytes (lit byte text trimSpace)
open Rdata

/-! ## The client -/

/-- `qualifyIfNeeded`. -/
def qualifyIfNeeded (target : Bytes) : Bytes :=
  if target = [] ∨ [byte '.'] <:+ target then target else target ++ [byte '.']

/-- `escapeTXTContent`, after a byte. -/
def escapeFrom (previous : Option UInt8) : Bytes → Bytes
  | [] => []
  | c :: s =>
    if c = byte ';' ∧ previous ≠ some (byte '\\') then byte '\\' :: c :: escapeFrom (some c) s
    else c :: escapeFrom (some c) s

/-- `quoteIfNeeded`. -/
def quoteIfNeeded (s : Bytes) : Bytes :=
  if 2 ≤ s.length ∧ [byte '"'] <+: s ∧ [byte '"'] <:+ s then s
  else byte '"' :: escapeFrom none s ++ [byte '"']

/-- The order of the parameters: by rank, then by name. -/
def keyBefore (k l : Bytes) : Prop :=
  svcbKeyRank k < svcbKeyRank l ∨ (svcbKeyRank k = svcbKeyRank l ∧ text k ≤ text l)

instance : DecidableRel keyBefore := fun k l => by
  unfold keyBefore
  infer_instance

/-- One service parameter. -/
def encodeSvcbParam (m : GoMap Bytes Bytes) (k : Bytes) : Option Bytes :=
  let v := trimSpace ((m.lookup k).getD [])
  if svcbFlagKey k then some k
  else if v = [] then none
  else if svcbUnquotedCSV k then some (k ++ lit "=" ++ v)
  else some (k ++ lit "=" ++ quoteIfNeeded v)

def encodeSvcbParams (m : GoMap Bytes Bytes) : Bytes :=
  [byte ' '].intercalate ((m.keys.insertionSort keyBefore).filterMap (encodeSvcbParam m))

def encodeSvcbLine (s : HTTPSRecordSpec) : Bytes :=
  let t := trimSpace s.target
  let t := if t = [byte '.'] then t else if t = [] then [byte '.'] else qualifyIfNeeded t
  let head := decimalText s.priority.toNat ++ lit " " ++ t
  if s.priority = 0 then head
  else if encodeSvcbParams s.params = [] then head
  else head ++ lit " " ++ encodeSvcbParams s.params

/-- A value without white space around it, unless it is blank. -/
def nonBlank (s : Bytes) : Option Bytes := if trimSpace s = [] then none else some (trimSpace s)

/-- The content that `buildRRSets` writes for an entry of a set, if any.  `today` is the date as
eight digits. -/
def content (today : Bytes) (t : RRType) (e : Entry) : Option Bytes :=
  let number (n : Nat) : Bytes := decimalText n ++ lit " "
  let host (v : Bytes) : Option Bytes := (nonBlank v).map qualifyIfNeeded
  match t with
  | .A => e.a.bind nonBlank
  | .AAAA => e.aaaa.bind nonBlank
  | .CNAME => e.cname.bind host
  | .ALIAS => e.alias_.bind host
  | .NS => e.ns.bind host
  | .PTR => e.ptr.bind host
  | .TXT => (e.txt.bind nonBlank).map quoteIfNeeded
  | .MX => e.mx.bind fun v => (host v.exchange).map (number v.preference.toNat ++ ·)
  | .SRV => e.srv.bind fun v => (host v.target).map
      (number v.priority.toNat ++ number v.weight.toNat ++ number v.port.toNat ++ ·)
  | .CAA => e.caa.map fun v =>
      number v.flag.toNat ++ v.tag ++ lit " " ++ quoteIfNeeded v.value
  | .TLSA => e.tlsa.map fun v =>
      number v.usage.toNat ++ number v.selector.toNat ++ number v.matchingType.toNat ++ v.certData
  | .HTTPS => e.https.map encodeSvcbLine
  | .SVCB => e.svcb.map encodeSvcbLine
  | .SOA => e.soa.map fun v =>
      qualifyIfNeeded (trimSpace v.mname) ++ lit " " ++ qualifyIfNeeded (trimSpace v.rname) ++
        lit " " ++ (if v.serial ≠ 0 then decimalText v.serial.toNat else today ++ lit "01") ++
        lit " " ++ number (if v.refresh ≠ 0 then v.refresh else 10800).toNat ++
        number (if v.retry ≠ 0 then v.retry else 3600).toNat ++
        number (if v.expire ≠ 0 then v.expire else 604800).toNat ++
        decimalText (if v.ttl ≠ 0 then v.ttl else 3600).toNat

/-! ## Quoting -/

/-- A byte that both write the same way. -/
def plainByte (c : UInt8) : Bool := c ≠ byte '\\' && c ≠ byte '"' && 0x20 ≤ c && c ≠ 0x7f

/-- What the command line writes for a byte: one byte, two for a semicolon, more for a byte that is
not plain. -/
theorem length_escapeByte (c : UInt8) :
    (plainByte c = true → escapeByte c = if c = byte ';' then [byte '\\', c] else [c]) ∧
      (plainByte c = false → c ≠ byte ';' ∧ 2 ≤ (escapeByte c).length) := by
  have hall : ∀ n : Fin 256, (plainByte (.ofFin n) = true → escapeByte (.ofFin n) =
        if UInt8.ofFin n = byte ';' then [byte '\\', .ofFin n] else [.ofFin n]) ∧
      (plainByte (.ofFin n) = false →
        UInt8.ofFin n ≠ byte ';' ∧ 2 ≤ (escapeByte (.ofFin n)).length) := by decide +kernel
  exact hall c.toFin

/-- Plain bytes are escaped the same. -/
theorem escapeFrom_plain {s : Bytes} (hs : ∀ c ∈ s, plainByte c = true) {p : Option UInt8}
    (hp : p ≠ some (byte '\\')) : escapeFrom p s = s.flatMap escapeByte := by
  induction s generalizing p with
  | nil => rfl
  | cons c s ih =>
    obtain ⟨hc, hs⟩ := forall_mem_cons.mp hs
    have hnext : some c ≠ some (byte '\\') := by
      intro h
      rw [some.inj h] at hc
      exact absurd hc (by decide)
    rw [escapeFrom, flatMap_cons, (length_escapeByte c).1 hc, ih hs hnext]
    by_cases hsemi : c = byte ';'
    · simp [hsemi, hp]
    · simp [hsemi]

variable (m : GoMap Bytes Bytes) (s : Bytes)

/-- The client never writes more, and as much only for plain bytes. -/
theorem length_escapeFrom (p : Option UInt8) :
    (escapeFrom p s).length ≤ (s.flatMap escapeByte).length ∧
      ((escapeFrom p s).length = (s.flatMap escapeByte).length → ∀ c ∈ s, plainByte c = true) := by
  induction s generalizing p with
  | nil => exact ⟨le_refl _, fun _ c hc => absurd hc not_mem_nil⟩
  | cons c s ih =>
    obtain ⟨hle, heq⟩ := ih (some c)
    rw [escapeFrom, flatMap_cons, length_append, forall_mem_cons]
    cases hc : plainByte c with
    | true =>
      rw [(length_escapeByte c).1 hc]
      split_ifs with h1 h2 h2 <;> simp only [length_cons, length_nil]
      · exact ⟨by omega, fun h => ⟨trivial, heq (by omega)⟩⟩
      · exact absurd h1.1 h2
      · exact ⟨by omega, fun h => by omega⟩
      · exact ⟨by omega, fun h => ⟨trivial, heq (by omega)⟩⟩
    | false =>
      obtain ⟨hsemi, hlong⟩ := (length_escapeByte c).2 hc
      rw [if_neg fun h => hsemi h.1, length_cons]
      exact ⟨by omega, fun h => by omega⟩

theorem length_le_flatMap_escapeByte : s.length ≤ (s.flatMap escapeByte).length := by
  induction s with
  | nil => exact le_refl _
  | cons c s ih =>
    have hpos : 1 ≤ (escapeByte c).length := by
      cases hc : plainByte c with
      | true =>
        rw [(length_escapeByte c).1 hc]
        split <;> simp
      | false => exact le_of_succ_le ((length_escapeByte c).2 hc).2
    rw [flatMap_cons, length_append, length_cons]
    omega

/-- **The two ways to quote agree on plain values only**, and where they differ the client writes
less. -/
theorem quote_cases : ((∀ c ∈ s, plainByte c = true) → quoteIfNeeded s = quoteTXT s) ∧
      ((¬ ∀ c ∈ s, plainByte c = true) → (quoteIfNeeded s).length < (quoteTXT s).length) := by
  rw [quoteIfNeeded, quoteTXT]
  by_cases hwrapped : 2 ≤ s.length ∧ [byte '"'] <+: s ∧ [byte '"'] <:+ s
  · rw [if_pos hwrapped]
    refine ⟨fun hplain => ?_, fun _ => ?_⟩
    · have hquote := hplain (byte '"') (hwrapped.2.1.subset mem_cons_self)
      exact absurd hquote (by decide)
    · have := length_le_flatMap_escapeByte s
      simp only [length_cons, length_append, length_nil]
      omega
  · rw [if_neg hwrapped]
    obtain ⟨hle, heq⟩ := length_escapeFrom s none
    refine ⟨fun hplain => by rw [escapeFrom_plain hplain (by decide)], fun hplain => ?_⟩
    have hne : (escapeFrom none s).length ≠ (s.flatMap escapeByte).length :=
      fun h => hplain (heq h)
    simp only [length_cons, length_append, length_nil]
    omega

theorem quote_iff : quoteIfNeeded s = quoteTXT s ↔ ∀ c ∈ s, plainByte c = true := by
  obtain ⟨hsame, hless⟩ := quote_cases s
  refine ⟨fun h => ?_, hsame⟩
  by_contra hplain
  exact absurd (congrArg List.length h) (Nat.ne_of_lt (hless hplain))

/-! ## The order of the parameters -/

theorem text_injective : Function.Injective text := by
  intro k l h
  have := congrArg (List.map byte) h
  simpa [text, Function.comp_def, Go.Bytes.byte_char] using this

instance : Std.Antisymm fun k l : Bytes => text k ≤ text l where
  antisymm _ _ hkl hlk := text_injective (le_antisymm hkl hlk)

instance : Std.Total keyBefore where
  total k l := by
    rcases Nat.lt_trichotomy (svcbKeyRank k) (svcbKeyRank l) with h | h | h
    · exact Or.inl (Or.inl h)
    · exact (le_total (text k) (text l)).imp (fun hkl => Or.inr ⟨h, hkl⟩)
        fun hlk => Or.inr ⟨h.symm, hlk⟩
    · exact Or.inr (Or.inl h)

instance : IsTrans Bytes keyBefore where
  trans a b c hab hbc := by
    rcases hab with hab | ⟨hab, hab'⟩ <;> rcases hbc with hbc | ⟨hbc, hbc'⟩
    · exact Or.inl (hab.trans hbc)
    · exact Or.inl (hbc ▸ hab)
    · exact Or.inl (hab ▸ hbc)
    · exact Or.inr ⟨hab.trans hbc, hab'.trans hbc'⟩

theorem keyBefore_antisymm {k l : Bytes} (hkl : keyBefore k l) (hlk : keyBefore l k) : k = l := by
  rcases hkl with hkl | ⟨_, hkl⟩ <;> rcases hlk with hlk | ⟨hrank, hlk⟩
  · omega
  · omega
  · omega
  · exact text_injective (le_antisymm hkl hlk)

/-- Two elements of a list without repetition stand in one order only. -/
theorem not_both_orders {l : List Bytes} (hl : l.Nodup) {a b : Bytes} (hab : [a, b].Sublist l)
    (hba : [b, a].Sublist l) : False := by
  induction l with
  | nil => cases hab
  | cons x l ih =>
    obtain ⟨hx, hl⟩ := nodup_cons.mp hl
    cases hab with
    | cons _ hab =>
      cases hba with
      | cons _ hba => exact ih hl hab hba
      | cons_cons _ hba => exact hx (hab.subset (by simp))
    | cons_cons _ hb =>
      cases hba with
      | cons _ hba => exact hx (hba.subset (by simp))
      | cons_cons _ hba => exact hx (hb.subset (by simp))

/-- **Sorting by name and then stably by rank is sorting by both.** -/
theorem sortedKeys_byRank :
    (sortedKeys m).insertionSort (fun k l => svcbKeyRank k ≤ svcbKeyRank l) =
      m.keys.insertionSort keyBefore := by
  have hperm := (perm_insertionSort (fun k l => svcbKeyRank k ≤ svcbKeyRank l)
    (sortedKeys m)).trans (perm_insertionSort _ m.keys)
  have hnodup := hperm.nodup_iff.mpr m.keys_nodup
  refine (hperm.trans (perm_insertionSort _ _).symm).eq_of_pairwise ?_ ?_
    (pairwise_insertionSort keyBefore m.keys)
  · exact fun a b _ _ => keyBefore_antisymm
  · have hrank := pairwise_insertionSort (fun k l => svcbKeyRank k ≤ svcbKeyRank l) (sortedKeys m)
    rw [pairwise_iff_forall_sublist] at hrank ⊢
    intro a b hab
    rcases lt_or_eq_of_le (hrank hab) with h | h
    · exact .inl h
    · refine .inr ⟨h, le_of_not_gt fun hba => ?_⟩
      -- otherwise the names were in the other order before, and a stable sort keeps that
      have hne : b ≠ a := fun heq => absurd hba (by rw [heq]; exact lt_irrefl _)
      have hmem : ∀ x ∈ [b, a], x ∈ m.keys := fun x hx =>
        hperm.subset (hab.subset (by simpa [or_comm] using hx))
      have hnames : [b, a].Sublist (sortedKeys m) :=
        pair_sublist_insertionSort' hba.le (subperm_of_subset (by simpa using hne) hmem)
      have hranks := pair_sublist_insertionSort
        (r := fun k l => svcbKeyRank k ≤ svcbKeyRank l) h.ge hnames
      exact not_both_orders hnodup hab hranks

/-! ## Lines -/

theorem length_joined {parts : List Bytes} (hparts : parts ≠ []) :
    ([byte ' '].intercalate parts).length + 1 = (parts.map fun p => p.length + 1).sum := by
  induction parts with
  | nil => exact absurd rfl hparts
  | cons p rest ih =>
    cases rest with
    | nil => simp [intercalate_singleton]
    | cons q rest =>
      rw [intercalate_cons_cons, map_cons, sum_cons, ← ih (by simp)]
      simp only [length_append, length_singleton]
      omega

section

variable {f g : Bytes → Option Bytes}
  (hfg : ∀ k, f k = g k ∨ ∃ a b, f k = some a ∧ g k = some b ∧ a.length < b.length)
include hfg

/-- The parts of two lines, of which those of the first are the same or shorter. -/
theorem parts_cases (ks : List Bytes) :
    (ks.filterMap f = [] ↔ ks.filterMap g = []) ∧
      ((ks.filterMap f).map fun p => p.length + 1).sum ≤
        ((ks.filterMap g).map fun p => p.length + 1).sum ∧
      (((ks.filterMap f).map fun p => p.length + 1).sum =
        ((ks.filterMap g).map fun p => p.length + 1).sum → ∀ k ∈ ks, f k = g k) := by
  induction ks with
  | nil => exact ⟨Iff.rfl, le_refl _, fun _ k hk => absurd hk not_mem_nil⟩
  | cons k ks ih =>
    obtain ⟨hnil, hle, heq⟩ := ih
    rw [forall_mem_cons]
    rcases hfg k with h | ⟨a, b, ha, hb, hab⟩
    · rw [filterMap_cons, filterMap_cons, h]
      cases g k with
      | none => exact ⟨hnil, hle, fun hsum => ⟨rfl, heq hsum⟩⟩
      | some b =>
        simp only [map_cons, sum_cons, reduceCtorEq]
        exact ⟨trivial, by omega, fun hsum => ⟨trivial, heq (by omega)⟩⟩
    · rw [filterMap_cons, filterMap_cons, ha, hb]
      simp only [map_cons, sum_cons, reduceCtorEq]
      exact ⟨trivial, by omega, fun hsum => by omega⟩

/-- Lines of such parts are the same only if all their parts are. -/
theorem parts_of_joined {ks : List Bytes}
    (h : [byte ' '].intercalate (ks.filterMap f) = [byte ' '].intercalate (ks.filterMap g)) :
    ∀ k ∈ ks, f k = g k := by
  obtain ⟨hnil, -, heq⟩ := parts_cases hfg ks
  by_cases hf : ks.filterMap f = []
  · exact heq (by rw [hf, hnil.mp hf])
  · apply heq
    rw [← length_joined hf, ← length_joined fun hg => hf (hnil.mpr hg), h]

end

/-- The values of the parameters that are written in quotes are plain. -/
def PlainParams (m : GoMap Bytes Bytes) : Prop :=
  ∀ k ∈ m.keys, svcbFlagKey k = false → svcbUnquotedCSV k = false →
    ∀ c ∈ trimSpace ((m.lookup k).getD []), plainByte c = true

/-- The two texts of a parameter. -/
theorem param_cases (k : Bytes) :
    (encodeSvcbParam m k = renderSVCBParam m k ↔
      (svcbFlagKey k = false → svcbUnquotedCSV k = false →
        ∀ c ∈ trimSpace ((m.lookup k).getD []), plainByte c = true)) ∧
    (encodeSvcbParam m k = renderSVCBParam m k ∨ ∃ a b, encodeSvcbParam m k = some a ∧
      renderSVCBParam m k = some b ∧ a.length < b.length) := by
  simp only [encodeSvcbParam, renderSVCBParam]
  obtain ⟨hsame, hless⟩ := quote_cases (trimSpace ((m.lookup k).getD []))
  split_ifs with hflag hblank hcsv
  · simp [hflag]
  · simp [hblank]
  · simp [hcsv]
  · refine ⟨by simp [hflag, hcsv, quote_iff], ?_⟩
    by_cases hplain : ∀ c ∈ trimSpace ((m.lookup k).getD []), plainByte c = true
    · exact .inl (by rw [hsame hplain])
    · exact .inr ⟨_, _, rfl, rfl, by simpa using hless hplain⟩

theorem encodeSvcbParams_iff :
    encodeSvcbParams m = renderSVCBParams m ↔ PlainParams m := by
  rw [encodeSvcbParams, renderSVCBParams, sortedKeys_byRank]
  constructor
  · intro h k hk
    have := parts_of_joined (fun k => (param_cases m k).2) h k ((mem_insertionSort _).mpr hk)
    exact (param_cases m k).1.mp this
  · intro h
    rw [filterMap_congr fun k hk =>
      (param_cases m k).1.mpr (h k ((mem_insertionSort _).mp hk))]

/-- **Service bindings** are shown as published exactly if their quoted values are plain. -/
theorem encodeSvcbLine_iff (s : HTTPSRecordSpec) :
    encodeSvcbLine s = renderSVCB s ↔ (s.priority ≠ 0 → PlainParams s.params) := by
  have hhead : qualify (trimSpace s.target) = qualifyIfNeeded (trimSpace s.target) := by
    rw [qualify, Go.Bytes.trimSpace_trimSpace, qualifyIfNeeded]
  have hline : ∀ head p q : Bytes, ((if p = [] then head else head ++ lit " " ++ p) =
      if q = [] then head else head ++ lit " " ++ q) ↔ p = q := by
    intro head p q
    refine ⟨fun h => ?_, fun h => by rw [h]⟩
    split_ifs at h with hp hq hq
    · rw [hp, hq]
    · simp [hq] at h
    · simp [hp] at h
    · exact append_cancel_left h
  simp only [encodeSvcbLine, renderSVCB, hhead]
  by_cases hprio : s.priority = 0
  · simp [hprio]
  · simp only [hprio, if_false, ne_eq, not_false_eq_true, forall_const]
    exact (hline _ _ _).trans (encodeSvcbParams_iff _)

/-! ## Entries -/

/-- Data in wire form stands in quotes. -/
theorem renderTXT_wrapped : ∃ mid, renderTXT s = byte '"' :: mid ++ [byte '"'] := by
  have hjoined : ∀ p parts, ∃ mid,
      [byte ' '].intercalate ((p :: parts).map quoteTXT) = byte '"' :: mid ++ [byte '"'] := by
    intro p parts
    induction parts generalizing p with
    | nil => exact ⟨_, intercalate_singleton⟩
    | cons q parts ih =>
      obtain ⟨mid, hmid⟩ := ih q
      refine ⟨p.flatMap escapeByte ++ byte '"' :: byte ' ' :: byte '"' :: mid, ?_⟩
      rw [map_cons, map_cons, intercalate_cons_cons, ← map_cons, hmid, quoteTXT]
      simp
  obtain ⟨p, parts, hparts⟩ := exists_cons_of_ne_nil (chunk255_spec (txtLogical s)).2.2
  rw [renderTXT, hparts]
  exact hjoined p parts

/-- A text in quotes has no white space around it. -/
theorem trimSpace_wrapped (mid : Bytes) :
    trimSpace (byte '"' :: mid ++ [byte '"']) = byte '"' :: mid ++ [byte '"'] := by
  apply Go.Bytes.trimSpace_of_trimmed
  constructor
  · intro c hc
    have hfirst := Go.Bytes.decodeRune_encode '"' (mid ++ [byte '"'])
    obtain rfl := mem_unique hc hfirst
    rfl
  · intro c hc
    have hlast := Go.Bytes.lastRune_append (byte '"' :: mid) '"'
    obtain rfl := mem_unique hc hlast
    rfl

theorem quoteIfNeeded_wrapped (mid : Bytes) :
    quoteIfNeeded (byte '"' :: mid ++ [byte '"']) = byte '"' :: mid ++ [byte '"'] := by
  rw [quoteIfNeeded, if_pos ⟨by simp, ⟨_, rfl⟩, ⟨_, rfl⟩⟩]

/-- The content of valid TXT data is the wire form it is stored in. -/
theorem content_txt :
    (nonBlank (renderTXT s)).map quoteIfNeeded = some (renderTXT (renderTXT s)) := by
  obtain ⟨mid, hmid⟩ := renderTXT_wrapped s
  rw [renderTXT_renderTXT, hmid, nonBlank, trimSpace_wrapped, if_neg (by simp), map_some,
    quoteIfNeeded_wrapped]

theorem content_host {v : Bytes} (hv : trimSpace v ≠ []) :
    (nonBlank v).map qualifyIfNeeded = some (qualify v) := by
  rw [nonBlank, if_neg hv]
  rfl

section

variable {U : CaseMap} {t : RRType} {e : Entry}

theorem checkTargetHost_nonBlank {field v zone : Bytes} {underscores allowRoot : Bool}
    (h : checkTargetHost U field v zone underscores allowRoot = .ok ()) : trimSpace v ≠ [] := by
  rw [checkTargetHost, Go.Except.bind_eq_ok] at h
  obtain ⟨_, hblank, -⟩ := h
  exact refuse_eq_ok.mp hblank

/-- A valid entry has a value of its type, and the value is valid. -/
theorem validate_eq_ok (h : validate U t e = .ok ()) :
    e.has t = true ∧ validateValue U t e [] = .ok () := by
  simp only [validate, validateInZone, Go.Except.bind_eq_ok] at h
  obtain ⟨_, -, _, -, _, htyped, hvalue⟩ := h
  refine ⟨?_, hvalue⟩
  have hmem : t ∈ setFields e := by
    unfold validateTypedField at htyped
    split at htyped
    · cases htyped
    · rename_i f hf
      rw [hf, not_not.mp (refuse_eq_ok.mp htyped)]
      exact mem_singleton_self _
    · cases htyped
  exact (mem_filter.mp hmem).2

/-- What both write the same way: a CAA value and the quoted values of a service binding are
plain. -/
def Publishable (t : RRType) (e : Entry) : Prop :=
  match t with
  | .CAA => ∀ v ∈ e.caa, ∀ c ∈ v.value, plainByte c = true
  | .HTTPS => ∀ v ∈ e.https, v.priority ≠ 0 → PlainParams v.params
  | .SVCB => ∀ v ∈ e.svcb, v.priority ≠ 0 → PlainParams v.params
  | _ => True

/-- **What users see is what is published, if it is plain.**  For every entry that the command line
accepts and stores, the line it shows is the content that is sent to the backend exactly if the
entry is publishable.  The dates matter only to a serial of zero. -/
theorem published_iff (today day : Bytes) (hvalid : validate U t e = .ok ())
    (hserial : t = .SOA → ∀ v ∈ e.soa, v.serial ≠ 0) :
    content today t (entryForAPI t e) = some (render day t (entryForAPI t e)) ↔
      Publishable t e := by
  obtain ⟨hhas, hvalue⟩ := validate_eq_ok hvalid
  cases t <;> obtain ⟨v, hv⟩ := isSome_iff_exists.mp hhas <;>
    simp only [validateValue, hv, elim_some] at hvalue <;>
    simp only [content, render, entryForAPI, hv, Publishable, reduceCtorEq, if_false, if_true,
      bind_some, map_some, elim_some, mem_some_iff, forall_eq']
  case A | AAAA =>
    have hne : trimSpace v ≠ [] := by
      intro h
      rw [h] at hvalue
      exact absurd hvalue (by decide)
    rw [nonBlank, if_neg hne]
    exact iff_of_true rfl trivial
  case CNAME | ALIAS | NS | PTR =>
    simp [content_host (checkTargetHost_nonBlank hvalue)]
  case MX =>
    have hne : trimSpace v.exchange ≠ [] := by
      split at hvalue
      · rename_i hroot
        rw [hroot]
        exact cons_ne_nil _ _
      · exact checkTargetHost_nonBlank hvalue
    simp [content_host hne]
  case SRV => simp only [content_host (checkTargetHost_nonBlank hvalue), map_some]
  case TXT => simp only [content_txt]
  case CAA => rw [some.injEq, append_cancel_left_eq, quote_iff]
  case HTTPS | SVCB => rw [some.injEq, encodeSvcbLine_iff]
  case SOA =>
    have hnonzero := hserial rfl v hv
    simp only [soaSerial, orDefault, ne_eq, ite_not, hnonzero, if_false]
    exact iff_of_true rfl trivial

end

/-- A record that lets one authority issue certificates. -/
def caaEntry (value : String) : Entry :=
  { name := lit "@", caa := some { flag := 0, tag := lit "issue", value := lit value } }

theorem published_issue :
    validate CaseMap.ascii .CAA (caaEntry "letsencrypt.org") = .ok () ∧
      content [] .CAA (entryForAPI .CAA (caaEntry "letsencrypt.org")) =
        some (render [] .CAA (entryForAPI .CAA (caaEntry "letsencrypt.org"))) := by
  have hvalid : validate CaseMap.ascii .CAA (caaEntry "letsencrypt.org") = .ok () := by
    decide +kernel
  refine ⟨hvalid, (published_iff [] [] hvalid (nofun)).mpr fun v hv => ?_⟩
  cases hv
  decide +kernel

/-- A tab in the value of a CAA record is shown escaped and sent as it is. -/
theorem tab_shown_and_published :
    validate CaseMap.ascii .CAA (caaEntry "ca.example;\taccount=1") = .ok () ∧
      render [] .CAA (entryForAPI .CAA (caaEntry "ca.example;\taccount=1")) =
        lit "0 issue \"ca.example\\;\\009account=1\"" ∧
      content [] .CAA (entryForAPI .CAA (caaEntry "ca.example;\taccount=1")) =
        some (lit "0 issue \"ca.example\\;\taccount=1\"") := by
  refine ⟨?_, ?_, ?_⟩ <;> decide +kernel

end InternalDNS.Backend
