import InternalDNS.GoBytes
import InternalDNS.GoControl

/-! # Presentation format: tokens and character-strings

The command line reads and writes record data in zone-file presentation format:
fields separated by white space, character-strings in quotes, and escapes that
stand for one byte.  This module models the tokenizer and its inverse, the
quoting of a character-string, byte for byte, and on top of them the two forms
of a TXT value: the logical one, which is the data, and the wire form, which is
a sequence of quoted strings of at most 255 bytes.
-/
namespace InternalDNS.Rdata

open List Option Nat
open Go (Bytes)
open Go.Bytes (lit byte ofText)

/-- A validation error: the problem, the suggested remedy, and whether it stands for a TTL
out of range. -/
structure Error where
  msg : Bytes
  fix : Bytes := []
  ttlRange : Bool := false
deriving DecidableEq

variable (whole : Bytes) (comments : Bool) (s : Bytes)

/-- `quoteStr`, and `%q` of a text without special characters. -/
def quoteStr : Bytes := byte '"' :: s ++ [byte '"']

/-- A check that fails with the error when the input is bad. -/
def refuse (bad : Prop) [Decidable bad] (e : Error) : Except Error Unit :=
  if bad then .error e else .ok ()

@[simp] theorem refuse_eq_ok {bad : Prop} [Decidable bad] {e : Error} {u : Unit} :
    refuse bad e = .ok u ↔ ¬ bad := by
  by_cases h : bad <;> simp [refuse, h]

/-! ## The tokenizer -/

/-- One field of a presentation-format line: the text with quotes and escapes resolved,
whether it was quoted, where it starts, and the field exactly as written. -/
structure Token where
  text : Bytes
  quoted : Bool
  start : Nat
  raw : Bytes
deriving DecidableEq

/-- The spelling to use for a field that holds a host name. -/
def hostToken (tok : Token) : Bytes := if tok.quoted then tok.text else tok.raw

def isSpace (c : UInt8) : Bool := c = byte ' ' || c = byte '\t' || c = byte '\r' || c = byte '\n'

def isDigit (c : UInt8) : Bool := byte '0' ≤ c && c ≤ byte '9'

/-- The byte an escape denotes and the number of bytes it takes, at the backslash. -/
def unescapeAt : Bytes → UInt8 × Nat
  | _ :: a :: b :: c :: _ =>
    let v := (a - byte '0').toNat * 100 + (b - byte '0').toNat * 10 + (c - byte '0').toNat
    if isDigit a && isDigit b && isDigit c && v ≤ 255 then (UInt8.ofNat v, 4) else (a, 2)
  | _ :: a :: _ => (a, 2)
  | _ => (0, 2) -- no byte follows the backslash: no caller asks

/-- The rest of a quoted string after its opening quote: its text and what follows the
closing quote.  `skip` bytes belong to an escape already resolved. -/
def readQuoted : (skip : Nat) → Bytes → Option (Bytes × Bytes)
  | _, [] => none
  | k + 1, _ :: s => readQuoted k s
  | 0, c :: s =>
    if c = byte '\\' ∧ s ≠ [] then
      let (ch, n) := unescapeAt (c :: s)
      (readQuoted (n - 1) s).map fun out => (ch :: out.1, out.2)
    else if c = byte '"' then some ([], s)
    else (readQuoted 0 s).map fun out => (c :: out.1, out.2)

/-- An unquoted field: its text and what follows it. -/
def readUnquoted : (skip : Nat) → Bytes → Bytes × Bytes
  | _, [] => ([], [])
  | k + 1, _ :: s => readUnquoted k s
  | 0, c :: s =>
    if isSpace c then ([], c :: s)
    else if c = byte '\\' ∧ s ≠ [] then
      let (ch, n) := unescapeAt (c :: s)
      (ch :: (readUnquoted (n - 1) s).1, (readUnquoted (n - 1) s).2)
    else (c :: (readUnquoted 0 s).1, (readUnquoted 0 s).2)

/-- The next field of the remaining text of `whole`. -/
def readToken (whole : Bytes) (comments : Bool) (s : Bytes) : Except Error (Option Token × Bytes) :=
  let s := s.dropWhile isSpace
  match s with
  | [] => .ok (none, [])
  | c :: rest =>
    if c = byte '"' then
      match readQuoted 0 rest with
      | none => .error { msg := lit "unterminated quoted string in " ++ quoteStr whole }
      | some (text, after) =>
        .ok (some { text, quoted := true, start := whole.length - s.length,
                    raw := s.take (s.length - after.length) }, after)
    else if comments && c = byte ';' then .ok (none, [])
    else
      let (text, after) := readUnquoted 0 (c :: rest)
      .ok (some { text, quoted := false, start := whole.length - s.length,
                  raw := s.take (s.length - after.length) }, after)

/-- `tokenize`: the fields of presentation-format data. -/
def tokenize (comments : Bool) : Except Error (List Token) :=
  Go.tryPieces (readToken s comments) s

theorem readQuoted_length {k : Nat} {s text rest : Bytes}
    (h : readQuoted k s = some (text, rest)) : rest.length < s.length := by
  induction s generalizing k text with
  | nil => cases k <;> cases h
  | cons c s ih =>
    cases k with
    | succ k => exact lt_succ_of_lt (ih h)
    | zero =>
      rw [readQuoted] at h
      split_ifs at h
      · obtain ⟨out, hout, hpair⟩ := map_eq_some_iff.mp h
        cases hpair
        exact lt_succ_of_lt (ih hout)
      · cases h
        exact lt_succ_self _
      · obtain ⟨out, hout, hpair⟩ := map_eq_some_iff.mp h
        cases hpair
        exact lt_succ_of_lt (ih hout)

theorem readUnquoted_length (k : Nat) (s : Bytes) : (readUnquoted k s).2.length ≤ s.length := by
  induction s generalizing k with
  | nil => cases k <;> exact le_rfl
  | cons c s ih =>
    cases k with
    | succ k => exact le_succ_of_le (ih k)
    | zero =>
      rw [readUnquoted]
      split_ifs
      · exact le_rfl
      · exact le_succ_of_le (ih _)
      · exact le_succ_of_le (ih _)

/-- An unquoted field that starts with no white space takes at least one byte. -/
theorem readUnquoted_consumes {c : UInt8} (hc : isSpace c = false) (s : Bytes) :
    (readUnquoted 0 (c :: s)).2.length ≤ s.length := by
  rw [readUnquoted]
  simp only [hc, Bool.false_eq_true, if_false]
  split_ifs <;> exact readUnquoted_length _ s

theorem readToken_consumes :
    Go.TryConsumes (readToken whole comments) := by
  intro b s piece rest h
  have hdrop : ((b :: s).dropWhile isSpace).length ≤ s.length + 1 :=
    length_dropWhile_le ..
  simp only [readToken] at h
  split at h
  · cases h
    exact zero_le _
  · rename_i c after hskip
    rw [hskip, length_cons] at hdrop
    have hspace : isSpace c = false := by
      have hne : (b :: s).dropWhile isSpace ≠ [] := by
        rw [hskip]
        exact cons_ne_nil _ _
      have := head_dropWhile_not isSpace hne
      simpa [hskip] using this
    split_ifs at h
    · split at h
      · cases h
      · rename_i text rest' hread
        cases h
        have := readQuoted_length hread
        omega
    · cases h
      exact zero_le _
    · cases h
      have := readUnquoted_consumes hspace after
      omega

/-- A quoted field is the next one, after any white space. -/
theorem tokens_quoted {sp rest text after : Bytes} (hsp : ∀ c ∈ sp, isSpace c = true)
    (hread : readQuoted 0 rest = some (text, after)) :
    ∃ tok : Token, tok.text = text ∧ tok.quoted = true ∧
      Go.tryPieces (readToken whole comments) (sp ++ byte '"' :: rest) =
        (Go.tryPieces (readToken whole comments) after).map (tok :: ·) := by
  have hskip : (sp ++ byte '"' :: rest).dropWhile isSpace = byte '"' :: rest := by
    rw [dropWhile_append_of_pos hsp]
    exact dropWhile_cons_of_neg (by decide)
  have hstep : readToken whole comments (sp ++ byte '"' :: rest) =
      .ok (some { text, quoted := true, start := whole.length - (byte '"' :: rest).length,
                  raw := (byte '"' :: rest).take ((byte '"' :: rest).length - after.length) },
        after) := by
    simp [readToken, hskip, hread]
  have hne : sp ++ byte '"' :: rest ≠ [] := by simp
  exact ⟨_, rfl, rfl, Go.tryPieces_ok (readToken_consumes whole comments) hne hstep⟩

/-- White space alone holds no field. -/
theorem tokens_space {whole sp : Bytes} {comments : Bool} (hsp : ∀ c ∈ sp, isSpace c = true) :
    Go.tryPieces (readToken whole comments) sp = .ok [] := by
  cases sp with
  | nil => rfl
  | cons b s =>
    have hskip : (b :: s).dropWhile isSpace = [] := dropWhile_eq_nil_iff.mpr hsp
    have hread : readToken whole comments (b :: s) = .ok (none, []) := by
      simp [readToken, hskip]
    exact Go.tryPieces_ok (readToken_consumes whole comments) (cons_ne_nil b s) hread

/-! ## Quoting -/

/-- One byte of a character-string as it is written: what would end or corrupt the string
is escaped, control characters as three decimal digits. -/
def escapeByte (c : UInt8) : Bytes :=
  if c = byte '\\' ∨ c = byte '"' ∨ c = byte ';' then [byte '\\', c]
  else if c < 0x20 ∨ c = 0x7f then
    [byte '\\', byte '0' + c / 100, byte '0' + c / 10 % 10, byte '0' + c % 10]
  else [c]

/-- `quoteTXT`: a zone-file character-string. -/
def quoteTXT : Bytes := byte '"' :: s.flatMap escapeByte ++ [byte '"']

/-- `chunk255`: pieces of at most 255 bytes. -/
def chunk255 : List Bytes :=
  if s.length ≤ 255 then [s] else Go.pieces (fun s => (some (s.take 255), s.drop 255)) s

theorem unescapeAt_pair {a : UInt8} (ha : isDigit a = false) (b : UInt8) (t : Bytes) :
    unescapeAt (b :: a :: t) = (a, 2) := by
  match t with
  | [] => rfl
  | [_] => rfl
  | _ :: _ :: _ => simp [unescapeAt, ha]

theorem unescapeAt_decimal {c : UInt8} (hc : c < 0x20 ∨ c = 0x7f) (b : UInt8) (t : Bytes) :
    unescapeAt (b :: (byte '0' + c / 100) :: (byte '0' + c / 10 % 10) :: (byte '0' + c % 10) :: t) =
      (c, 4) := by
  have hall : ∀ n : Fin 256, UInt8.ofFin n < 0x20 ∨ UInt8.ofFin n = 0x7f →
      unescapeAt [0, byte '0' + UInt8.ofFin n / 100, byte '0' + UInt8.ofFin n / 10 % 10,
        byte '0' + UInt8.ofFin n % 10] = (UInt8.ofFin n, 4) := by
    decide +kernel
  exact hall c.toFin hc

/-- **Reading a character-string gives back the bytes it was written from**, whatever
follows the closing quote. -/
theorem readQuoted_quote (rest : Bytes) :
    readQuoted 0 (s.flatMap escapeByte ++ byte '"' :: rest) = some (s, rest) := by
  induction s with
  | nil => simp [readQuoted, show byte '"' ≠ byte '\\' by decide]
  | cons c s ih =>
    rw [flatMap_cons, append_assoc]
    generalize htail : s.flatMap escapeByte ++ byte '"' :: rest = tail at ih ⊢
    have hne : tail ≠ [] := by rw [← htail]; simp
    rw [escapeByte]
    split_ifs with hspecial hcontrol
    · have hdigit : isDigit c = false := by rcases hspecial with rfl | rfl | rfl <;> decide
      simp only [cons_append, nil_append, readQuoted]
      rw [if_pos ⟨trivial, cons_ne_nil _ _⟩, unescapeAt_pair hdigit]
      simp only [readQuoted, ih, map_some]
    · simp only [cons_append, nil_append, readQuoted]
      rw [if_pos ⟨trivial, cons_ne_nil _ _⟩, unescapeAt_decimal hcontrol]
      simp only [readQuoted, ih, map_some]
    · simp only [not_or] at hspecial
      simp only [cons_append, nil_append, readQuoted]
      rw [if_neg (fun h => hspecial.1 h.1), if_neg hspecial.2.1, ih, map_some]

theorem take_consumes : Go.Consumes (fun s : Bytes => (some (s.take 255), s.drop 255)) := by
  intro b s
  simp

/-- The chunks are short, there is one at least, and together they are the text. -/
theorem chunk255_spec :
    (chunk255 s).flatten = s ∧ (∀ p ∈ chunk255 s, p.length ≤ 255) ∧ chunk255 s ≠ [] := by
  have hloop : ∀ n, ∀ s : Bytes, s.length ≤ n →
      (Go.pieces (fun s => (some (s.take 255), s.drop 255)) s).flatten = s ∧
        ∀ p ∈ Go.pieces (fun s => (some (s.take 255), s.drop 255)) s, p.length ≤ 255 := by
    intro n
    induction n with
    | zero =>
      intro s hs
      obtain rfl : s = [] := length_eq_zero_iff.mp (le_zero.mp hs)
      exact ⟨rfl, nofun⟩
    | succ n ih =>
      intro s hs
      cases s with
      | nil => exact ⟨rfl, nofun⟩
      | cons b s =>
        rw [Go.pieces_cons take_consumes]
        obtain ⟨hflat, hshort⟩ := ih ((b :: s).drop 255) (by simp at hs ⊢; omega)
        simp only [toList_some, singleton_append, flatten_cons, hflat,
          take_append_drop, forall_mem_cons, true_and]
        exact ⟨by simp, hshort⟩
  rw [chunk255]
  split_ifs with hlen
  · simp [hlen]
  · obtain ⟨hflat, hshort⟩ := hloop s.length s le_rfl
    refine ⟨hflat, hshort, fun hnil => ?_⟩
    rw [hnil] at hflat
    subst hflat
    exact hlen (zero_le _)

/-! ## TXT data -/

/-- `decodeTXTStrings`: the data of a sequence of quoted character-strings. -/
def decodeTXTStrings (v : Bytes) : Except Error Bytes := do
  let toks ← tokenize v false
  if toks = [] then throw { msg := lit "TXT value " ++ quoteStr v ++ lit " has no content" }
  if toks.all (·.quoted) then return (toks.map (·.text)).flatten
  throw { msg := lit "TXT value " ++ quoteStr v ++ lit " mixes quoted and unquoted text"
          fix := lit "quote the whole value, or every character-string in it" }

/-- `txtLogical`: wire form decoded to the data; what does not parse as wire form is the data. -/
def txtLogical : Bytes :=
  if [byte '"'] <+: s then (decodeTXTStrings s).toOption.getD s else s

/-- `parseTXTValue`: the strict decoder, for a value a user wrote. -/
def parseTXTValue (v : Bytes) : Except Error Bytes :=
  if [byte '"'] <+: v then decodeTXTStrings v else .ok v

/-- `renderTXT`: the wire form of a value, decoded first if it is in wire form already. -/
def renderTXT (content : Bytes) : Bytes :=
  [byte ' '].intercalate ((chunk255 (txtLogical content)).map quoteTXT)

/-- Quoted strings separated by blanks are read back as the strings. -/
theorem tokens_joined (sp : Bytes) (hsp : ∀ c ∈ sp, isSpace c = true) (parts : List Bytes) :
    ∃ toks, Go.tryPieces (readToken whole comments)
        (sp ++ [byte ' '].intercalate (parts.map quoteTXT)) = .ok toks ∧
      toks.map (·.text) = parts ∧ ∀ tok ∈ toks, tok.quoted = true := by
  induction parts generalizing sp with
  | nil =>
    refine ⟨[], ?_, rfl, nofun⟩
    rw [map_nil, intercalate_nil, append_nil]
    exact tokens_space hsp
  | cons p parts ih =>
    cases parts with
    | nil =>
      obtain ⟨tok, htext, hquoted, hstep⟩ :=
        tokens_quoted whole comments hsp (readQuoted_quote p [])
      refine ⟨[tok], ?_, by simp [htext], by simpa using hquoted⟩
      rw [map_singleton, intercalate_singleton, quoteTXT, cons_append, hstep]
      rfl
    | cons q parts =>
      -- the blank after the closing quote is the white space before the next string
      obtain ⟨toks, htoks, htexts, hall⟩ := ih [byte ' '] (by simp [isSpace])
      obtain ⟨tok, htext, hquoted, hstep⟩ := tokens_quoted whole comments hsp
        (readQuoted_quote p ([byte ' '] ++ [byte ' '].intercalate ((q :: parts).map quoteTXT)))
      refine ⟨tok :: toks, ?_, by rw [map_cons, htext, htexts], forall_mem_cons.mpr ⟨hquoted, hall⟩⟩
      rw [map_cons, map_cons, intercalate_cons_cons, ← map_cons, quoteTXT]
      simp only [append_assoc, cons_append, nil_append] at hstep htoks ⊢
      rw [hstep, htoks]
      rfl

theorem isPrefix_quoteTXT : [byte '"'] <+: quoteTXT s := ⟨_, rfl⟩

theorem isPrefix_renderTXT : [byte '"'] <+: renderTXT s := by
  obtain ⟨p, parts, hparts⟩ := exists_cons_of_ne_nil (chunk255_spec (txtLogical s)).2.2
  rw [renderTXT, hparts, map_cons]
  cases parts with
  | nil =>
    rw [map_nil, intercalate_singleton]
    exact isPrefix_quoteTXT p
  | cons q parts =>
    exact (isPrefix_quoteTXT p).trans (prefix_append ..)

/-- Rendered data is read as the chunks of the data. -/
theorem tokenize_renderTXT : ∃ toks, tokenize (renderTXT s) false = .ok toks ∧
      toks.map (·.text) = chunk255 (txtLogical s) ∧ ∀ tok ∈ toks, tok.quoted = true :=
  tokens_joined (renderTXT s) false [] nofun (chunk255 (txtLogical s))

theorem decode_renderTXT : decodeTXTStrings (renderTXT s) = .ok (txtLogical s) := by
  obtain ⟨toks, htoks, htexts, hquoted⟩ := tokenize_renderTXT s
  obtain ⟨hflat, -, hne⟩ := chunk255_spec (txtLogical s)
  have htoks_ne : toks ≠ [] := by
    rintro rfl
    exact hne htexts.symm
  have hall : toks.all (·.quoted) = true := all_eq_true.mpr hquoted
  simp only [decodeTXTStrings, htoks, bind, Except.bind, htoks_ne, if_false, hall, if_true]
  rw [htexts, hflat]
  rfl

@[simp] theorem txtLogical_renderTXT : txtLogical (renderTXT s) = txtLogical s := by
  rw [txtLogical, if_pos (isPrefix_renderTXT s), decode_renderTXT]
  rfl

@[simp] theorem renderTXT_renderTXT : renderTXT (renderTXT s) = renderTXT s := by
  rw [renderTXT, txtLogical_renderTXT, renderTXT]

/-- **The wire form of TXT data is faithful, well formed and stable.**  For every byte
string: decoding the rendered value gives the data the string denotes, the rendered value
is a sequence of quoted character-strings of at most 255 bytes each, and rendering it once
more changes nothing. -/
theorem renderTXT_faithful (s : Bytes) : txtLogical (renderTXT s) = txtLogical s ∧
      (∃ toks, tokenize (renderTXT s) false = .ok toks ∧
        ∀ tok ∈ toks, tok.quoted = true ∧ tok.text.length ≤ 255) ∧
      renderTXT (renderTXT s) = renderTXT s := by
  refine ⟨txtLogical_renderTXT s, ?_, renderTXT_renderTXT s⟩
  obtain ⟨toks, htoks, htexts, hquoted⟩ := tokenize_renderTXT s
  refine ⟨toks, htoks, fun tok htok => ⟨hquoted tok htok, ?_⟩⟩
  apply (chunk255_spec (txtLogical s)).2.1
  rw [← htexts]
  exact mem_map_of_mem htok

example : renderTXT (lit "v=DMARC1; p=none") = lit "\"v=DMARC1\\; p=none\"" := by decide +kernel

end InternalDNS.Rdata
