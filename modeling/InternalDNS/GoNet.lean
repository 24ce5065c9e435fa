import InternalDNS.GoControl

/-! # Internet addresses

`net/netip` and the host:port functions of `net`, as far as programs compare
addresses by value: parsing, the IPv4-mapped form, the canonical text, and the two
functions that put an address and a port together and take them apart.  The parsers
follow the scanning loops of the Go library, so that the strings they accept are the
same ones.
-/
namespace Go

open List

/-- `netip.Addr`.  The zone of an IPv6 address is empty when there is none. -/
inductive Addr where
  | invalid
  | v4 (bits : BitVec 32)
  | v6 (bits : BitVec 128) (zone : GoString)
  deriving DecidableEq

namespace Addr

/-- The value of a decimal digit. -/
def decDigit (c : Char) : Option Nat :=
  if '0'.toNat ≤ c.toNat ∧ c.toNat ≤ '9'.toNat then some (c.toNat - '0'.toNat) else none

/-- The value of a hexadecimal digit of either case. -/
def hexDigit (c : Char) : Option Nat :=
  if '0'.toNat ≤ c.toNat ∧ c.toNat ≤ '9'.toNat then some (c.toNat - '0'.toNat)
  else if 'a'.toNat ≤ c.toNat ∧ c.toNat ≤ 'f'.toNat then some (c.toNat - 'a'.toNat + 10)
  else if 'A'.toNat ≤ c.toNat ∧ c.toNat ≤ 'F'.toNat then some (c.toNat - 'A'.toNat + 10)
  else none

/-- The octets of a dotted quad.  `digLen` counts the digits of the octet being read,
so that a leading zero and an empty octet are both noticed. -/
def parseIPv4Fields : GoString → (val digLen : Nat) → (fields : List Nat) → Option (List Nat)
  | [], val, _, fields => if fields.length < 3 then none else some (fields ++ [val])
  | c :: rest, val, digLen, fields =>
    match decDigit c with
    | some d =>
      if digLen = 1 ∧ val = 0 then none
      else if val * 10 + d > 255 then none
      else parseIPv4Fields rest (val * 10 + d) (digLen + 1) fields
    | none =>
      if c = '.' then
        if digLen = 0 ∨ rest = [] then none
        else if fields.length = 3 then none
        else parseIPv4Fields rest 0 0 (fields ++ [val])
      else none

/-- `netip.parseIPv4`. -/
def parseIPv4 (s : GoString) : Option Addr :=
  (parseIPv4Fields s 0 0 []).map fun fields => v4 (BitVec.ofNat 32 (ofDigits 256 fields))

/-- The hexadecimal digits at the front of `s`: how many, their value, and what follows.
More than four digits are an error. -/
def hexRun : GoString → (off acc : Nat) → Option (Nat × Nat × GoString)
  | [], off, acc => some (off, acc, [])
  | c :: rest, off, acc =>
    match hexDigit c with
    | none => some (off, acc, c :: rest)
    | some d => if off > 3 then none else hexRun rest (off + 1) (acc * 16 + d)

/-- The groups of an IPv6 address, read while there is room for one (`fuel`).  The result
also has the position of the ellipsis and the text left over. -/
def parseIPv6Groups : (fuel : Nat) → GoString → List Nat → Option Nat →
    Option (List Nat × Option Nat × GoString)
  | 0, s, groups, ellipsis => some (groups, ellipsis, s)
  | fuel + 1, s, groups, ellipsis =>
    match hexRun s 0 0 with
    | none => none
    | some (off, acc, rest) =>
      if off = 0 then none
      else match rest with
        | '.' :: _ =>
          -- a dotted quad takes the place of the last two groups
          if ellipsis = none ∧ groups.length ≠ 6 then none
          else if groups.length + 2 > 8 then none
          else match parseIPv4Fields s 0 0 [] with
            | some [a, b, c, d] => some (groups ++ [a * 256 + b, c * 256 + d], ellipsis, [])
            | _ => none
        | [] => some (groups ++ [acc], ellipsis, [])
        | ':' :: [] => none
        | ':' :: ':' :: more =>
          if ellipsis.isSome then none
          else if more = [] then some (groups ++ [acc], some (groups.length + 1), [])
          else parseIPv6Groups fuel more (groups ++ [acc]) (some (groups.length + 1))
        | ':' :: more => parseIPv6Groups fuel more (groups ++ [acc]) ellipsis
        | _ => none

/-- The eight groups, with the ellipsis expanded. -/
def expandGroups (groups : List Nat) : Option Nat → Option (List Nat)
  | none => if groups.length < 8 then none else some groups
  | some e =>
    if groups.length < 8 then
      some (groups.take e ++ List.replicate (8 - groups.length) 0 ++ groups.drop e)
    else none

/-- `netip.parseIPv6`. -/
def parseIPv6 (s : GoString) : Option Addr :=
  let body := s.takeWhile (· ≠ '%')
  let zoned := s.dropWhile (· ≠ '%')
  if zoned = ['%'] then none
  else
    let zone := zoned.tail
    let parsed := match body with
      | [':', ':'] => some ([], some 0, [])
      | ':' :: ':' :: more => parseIPv6Groups 8 more [] (some 0)
      | _ => parseIPv6Groups 8 body [] none
    match parsed with
    | some (groups, ellipsis, []) =>
      (expandGroups groups ellipsis).map fun gs => v6 (BitVec.ofNat 128 (ofDigits 65536 gs)) zone
    | _ => none

/-- `netip.ParseAddr`: the first separator decides the family. -/
def parseAddr (s : GoString) : Option Addr :=
  match s.find? (fun c => c = '.' ∨ c = ':' ∨ c = '%') with
  | some '.' => parseIPv4 s
  | some ':' => parseIPv6 s
  | _ => none

/-- `Addr.Is4In6`. -/
def is4In6 : Addr → Bool
  | v6 bits _ => bits.toNat / 2 ^ 32 = 0xffff
  | _ => false

/-- `Addr.Unmap`: an IPv4-mapped IPv6 address becomes the IPv4 address it wraps, and
loses its zone. -/
def unmap : Addr → Addr
  | v6 bits zone => if bits.toNat / 2 ^ 32 = 0xffff then v4 (bits.setWidth 32) else v6 bits zone
  | a => a

variable (a : Addr) {s : GoString}

/-- A parsed address is valid, mapped or not. -/
theorem unmap_ne_invalid_of_parseAddr {a : Addr} (h : parseAddr s = some a) :
    a.unmap ≠ invalid := by
  have hvalid : a ≠ invalid := by
    rintro rfl
    unfold parseAddr at h
    split at h
    · simp [parseIPv4] at h
    · simp only [parseIPv6] at h
      split at h
      · cases h
      · split at h
        · simp at h
        · cases h
    · cases h
  cases a with
  | invalid => exact hvalid
  | v4 bits => simp [unmap]
  | v6 bits zone =>
    simp only [unmap]
    split <;> simp

theorem parseIPv4Fields_chars {val digLen : Nat} {fields out : List Nat}
    (h : parseIPv4Fields s val digLen fields = some out) :
    ∀ c ∈ s, c = '.' ∨ (decDigit c).isSome := by
  induction s generalizing val digLen fields with
  | nil => simp
  | cons c rest ih =>
    rw [parseIPv4Fields] at h
    split at h
    · rename_i d hd
      split_ifs at h
      exact forall_mem_cons.mpr ⟨.inr (by simp [hd]), ih h⟩
    · split_ifs at h with hdot
      exact forall_mem_cons.mpr ⟨.inl hdot, ih h⟩

/-- Brackets stand only in addresses that have a colon, which is to say in a zone. -/
theorem colon_or_no_brackets_of_parseAddr {a : Addr} (h : parseAddr s = some a) :
    ':' ∈ s ∨ ('[' ∉ s ∧ ']' ∉ s) := by
  unfold parseAddr at h
  split at h
  · obtain ⟨fields, hfields, -⟩ := Option.map_eq_some_iff.mp h
    have hchars := parseIPv4Fields_chars hfields
    exact .inr ⟨fun hc => absurd (hchars _ hc) (by decide), fun hc => absurd (hchars _ hc) (by decide)⟩
  · rename_i hfind
    exact .inl (mem_of_find?_eq_some hfind)
  · cases h

/-- `Addr.Zone`. -/
def zone : Addr → GoString
  | v6 _ zone => zone
  | _ => []

theorem zone_unmap {a : Addr} (h : a.zone = []) : a.unmap.zone = [] := by
  cases a with
  | invalid => rfl
  | v4 bits => rfl
  | v6 bits zone =>
    simp only [unmap]
    split
    · rfl
    · exact h

/-- `Addr.IsUnspecified`. -/
def isUnspecified : Bool := a = v4 0 || a = v6 0 []

/-- `Addr.IsLoopback`. -/
def isLoopback : Bool :=
  match a.unmap with
  | invalid => false
  | v4 bits => bits.toNat / 2 ^ 24 = 127
  | v6 bits _ => bits = 1

/-- `Addr.IsMulticast`. -/
def isMulticast : Bool :=
  match a.unmap with
  | invalid => false
  | v4 bits => bits.toNat / 2 ^ 28 = 0xe
  | v6 bits _ => bits.toNat / 2 ^ 120 = 0xff

/-- `Addr.IsLinkLocalUnicast`. -/
def isLinkLocalUnicast : Bool :=
  match a.unmap with
  | invalid => false
  | v4 bits => bits.toNat / 2 ^ 16 = 169 * 256 + 254
  | v6 bits _ => bits.toNat / 2 ^ 118 = 0x3fa

/-- `Addr.IsGlobalUnicast`. -/
def isGlobalUnicast : Bool :=
  !(a = invalid || a = v4 0 || a = v4 0xffffffff || a = v6 0 [] || a.isLoopback || a.isMulticast ||
    a.isLinkLocalUnicast)

/-- A dotted quad. -/
def string4 (bits : BitVec 32) : GoString :=
  List.intercalate ['.'] ((digits 256 4 bits.toNat).map (Nat.toDigits 10))

/-- How many zero groups stand at the front. -/
def zeroRun : List Nat → Nat
  | 0 :: gs => zeroRun gs + 1
  | _ => 0

/-- The first longest run of at least two zero groups, as its start and end.  `best` is the
run found so far. -/
def longestZeroRun : List Nat → (i : Nat) → (best : Option (Nat × Nat)) → Option (Nat × Nat)
  | [], _, best => best
  | g :: gs, i, best =>
    let l := zeroRun (g :: gs)
    let longer : Bool := match best with
      | none => true
      | some (start, stop) => decide (l > stop - start)
    longestZeroRun gs (i + 1) (if l ≥ 2 ∧ longer then some (i, i + l) else best)

/-- The groups in hexadecimal, colon separated. -/
def hexGroups (gs : List Nat) : GoString := List.intercalate [':'] (gs.map (Nat.toDigits 16))

/-- The text of an IPv6 address without its zone. -/
def string6 (bits : BitVec 128) : GoString :=
  let gs := digits 65536 8 bits.toNat
  match longestZeroRun gs 0 none with
  | none => hexGroups gs
  | some (start, stop) => hexGroups (gs.take start) ++ [':', ':'] ++ hexGroups (gs.drop stop)

/-- `Addr.String`. -/
def string : Addr → GoString
  | invalid => lit "invalid IP"
  | v4 bits => string4 bits
  | v6 bits zone =>
    (if bits.toNat / 2 ^ 32 = 0xffff then lit "::ffff:" ++ string4 (bits.setWidth 32)
     else string6 bits) ++ (if zone = [] then [] else '%' :: zone)

example : (parseAddr (lit "FD70:0::1")).map string = some (lit "fd70::1") := by decide +kernel
example : (parseAddr (lit "::ffff:10.0.0.7")).map (string ∘ unmap) = some (lit "10.0.0.7") := by
  decide +kernel

end Addr

/-! ## Host and port -/

/-- `net.JoinHostPort`. -/
def joinHostPort (host port : GoString) : GoString :=
  if ':' ∈ host then ['['] ++ host ++ [']', ':'] ++ port else host ++ [':'] ++ port

/-- The text before and after the last `c`. -/
def splitLast (c : Char) (s : GoString) : Option (GoString × GoString) :=
  if c ∈ s then
    some ((s.rdropWhile (· ≠ c)).dropLast, s.rtakeWhile (· ≠ c))
  else none

/-- `netip.ParsePrefix`: an address without a zone, and the number of its first bits. -/
def parsePrefix (s : GoString) : Option (Addr × Nat) := do
  let (front, bits) ← splitLast '/' s
  let addr ← Addr.parseAddr front
  let n ← parseUint bits 63
  let maxBits := match addr with
    | .v6 _ _ => 128
    | _ => 32
  if addr.zone ≠ [] ∨ (1 < bits.length ∧ bits.head? = some '0') ∨ maxBits < n then none
  else some (addr, n)

/-- `net.SplitHostPort`. -/
def splitHostPort (hostport : GoString) : Option (GoString × GoString) :=
  match splitLast ':' hostport with
  | none => none
  | some (front, port) =>
    match hostport with
    | '[' :: rest =>
      if ']' ∈ rest then
        let host := rest.takeWhile (· ≠ ']')
        -- the first bracket must stand just before the last colon
        if front = '[' :: host ++ [']'] then
          if '[' ∈ rest ∨ ']' ∈ port then none else some (host, port)
        else none
      else none
    | _ =>
      if ':' ∈ front then none
      else if '[' ∈ hostport ∨ ']' ∈ hostport then none
      else some (front, port)

theorem splitLast_append {c : Char} (s : GoString) {t : GoString} (ht : c ∉ t) :
    splitLast c (s ++ [c] ++ t) = some (s, t) := by
  have hdrop : (s ++ [c] ++ t).rdropWhile (· ≠ c) = s ++ [c] := by
    induction t using List.reverseRecOn with
    | nil => simp
    | append_singleton t x ih =>
      have hx : x ≠ c := fun h => ht (by simp [h])
      rw [← append_assoc, rdropWhile_concat, if_pos (by simpa using hx)]
      exact ih fun h => ht (by simp [h])
  have htake : s ++ [c] ++ (s ++ [c] ++ t).rtakeWhile (· ≠ c) = s ++ [c] ++ t := by
    conv_rhs => rw [← rdropWhile_append_rtakeWhile (p := (· ≠ c)) (l := s ++ [c] ++ t), hdrop]
  rw [splitLast, if_pos (by simp), hdrop, append_cancel_left htake]
  simp

section JoinSplit

variable {host port : GoString} (hport : ∀ c ∈ port, c.isDigit = true)

include hport

theorem not_mem_port {c : Char} (hc : c.isDigit = false) : c ∉ port := fun hmem => by
  simp [hport c hmem] at hc

theorem splitHostPort_bracketed :
    splitHostPort ('[' :: host ++ [']'] ++ [':'] ++ port) =
      if '[' ∈ host ∨ ']' ∈ host then none else some (host, port) := by
  have hopen : '[' ∉ port := not_mem_port hport rfl
  have hclose : ']' ∉ port := not_mem_port hport rfl
  have hsplit : splitLast ':' ('[' :: host ++ [']'] ++ [':'] ++ port) = _ :=
    splitLast_append _ (not_mem_port hport rfl)
  rw [splitHostPort, hsplit]
  simp only [cons_append, append_assoc, nil_append]
  rw [if_pos (by simp)]
  by_cases hin : ']' ∈ host
  · rw [if_neg, if_pos (.inr hin)]
    intro heq
    -- the part up to the first bracket is shorter than the host
    have htake := append_cancel_right (List.cons.inj heq).2
    have hmem := mem_takeWhile_imp (htake ▸ hin)
    simp at hmem
  · have hall : ∀ c ∈ host, decide (c ≠ ']') = true := by
      intro c hc
      simp only [ne_eq, decide_eq_true_eq]
      rintro rfl
      exact hin hc
    have htake : (host ++ ']' :: ':' :: port).takeWhile (· ≠ ']') = host := by
      rw [takeWhile_append_of_pos hall]
      simp
    rw [htake, if_pos rfl]
    simp [hin, hopen, hclose]

theorem splitHostPort_plain (h4 : ':' ∉ host) (ho : '[' ∉ host) (hc : ']' ∉ host) :
    splitHostPort (host ++ [':'] ++ port) = some (host, port) := by
  have hopen : '[' ∉ host ++ [':'] ++ port := by simp [ho, not_mem_port hport (c := '[') rfl]
  have hclose : ']' ∉ host ++ [':'] ++ port := by simp [hc, not_mem_port hport (c := ']') rfl]
  have hsplit : splitLast ':' (host ++ [':'] ++ port) = some (host, port) :=
    splitLast_append _ (not_mem_port hport rfl)
  rw [splitHostPort, hsplit]
  generalize host ++ [':'] ++ port = hostport at hopen hclose
  simp only
  split
  · simp at hopen
  · rw [if_neg h4, if_neg (by simp [hopen, hclose])]

/-- A host with brackets in it does not survive being joined to a port and split off again; any
other host does, and so does the port. -/
theorem splitHostPort_joinHostPort (hhost : ':' ∈ host ∨ ('[' ∉ host ∧ ']' ∉ host)) :
    splitHostPort (joinHostPort host port) =
      if '[' ∈ host ∨ ']' ∈ host then none else some (host, port) := by
  by_cases h6 : ':' ∈ host
  · rw [← splitHostPort_bracketed hport]
    simp [joinHostPort, h6]
  · obtain ⟨ho, hc⟩ := hhost.resolve_left h6
    rw [if_neg (by simp [ho, hc]), ← splitHostPort_plain hport h6 ho hc]
    simp [joinHostPort, h6]

end JoinSplit

end Go
