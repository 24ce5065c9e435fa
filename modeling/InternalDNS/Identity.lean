import InternalDNS.GoNet

/-! # The identity option

A UDP query carries its destination in an EDNS0 option, because the address it was sent to
is lost on the way.  A client can put the same option into its own query, so an option is
believed only if it starts with a key that the client does not know, and every copy of the
option is removed before the query goes anywhere else.

`identityDestination` reads and filters the options of all OPT records in one pass.  The
lemmas here take that pass apart: what it returns is a function of the addresses asserted
under the key, and what it leaves in the message is every other option in its order.
-/
namespace InternalDNS

open Go List

/-- `coredns.IdentityOption`. -/
def identityOption : UInt16 := 65431

/-- An EDNS0 option: of the local kind that carries plain bytes, or of any other kind. -/
inductive EdnsOption where
  | ednsLocal (code : UInt16) (data : List UInt8)
  | other (code : UInt16) (data : List UInt8)
  deriving DecidableEq

/-- A record of the additional section. -/
inductive ExtraRR where
  | opt (udpSize : UInt16) (options : List EdnsOption)
  | other (rr : GoString)
  deriving DecidableEq

/-- A question. -/
structure Question where
  name : GoString
  qtype : Nat
  qclass : Nat
  deriving DecidableEq

/-- The parts of a DNS message that selecting a context reads. -/
structure Msg where
  opcode : Nat
  question : List Question
  extra : List ExtraRR
  deriving DecidableEq

/-- What the pass over the options has found so far. -/
structure IdentityScan where
  destination : Addr
  present : Bool
  valid : Nat
  deriving DecidableEq

open EdnsOption

section Scan

variable (text : List UInt8 → GoString) (key : List UInt8)

/-- One option: it is kept, or it is an identity option and is looked at.  `text` is the
conversion of bytes to a string; nothing here depends on what it does with bytes that are
not UTF-8. -/
def scanOption (acc : IdentityScan × List EdnsOption) (option : EdnsOption) :
    IdentityScan × List EdnsOption :=
  match option with
  | .other _ _ => (acc.1, acc.2 ++ [option])
  | .ednsLocal code data =>
    if code ≠ identityOption then (acc.1, acc.2 ++ [option])
    else if data.length ≤ key.length ∨ data.take key.length ≠ key then
      ({ acc.1 with present := true }, acc.2)
    else match Addr.parseAddr (text (data.drop key.length)) with
      | none => ({ acc.1 with present := true }, acc.2)
      | some addr =>
        ({ destination := addr.unmap, present := true, valid := acc.1.valid + 1 }, acc.2)

/-- One record of the additional section. -/
def scanExtra (acc : IdentityScan × List ExtraRR) (rr : ExtraRR) : IdentityScan × List ExtraRR :=
  match rr with
  | .other _ => (acc.1, acc.2 ++ [rr])
  | .opt udpSize options =>
    let (scan, kept) := options.foldl (scanOption text key) (acc.1, [])
    (scan, acc.2 ++ [.opt udpSize kept])

variable (scan : IdentityScan) (r : Msg)

/-- `coredns.identityDestination`: the asserted destination, whether the option is present,
and the message as the pass leaves it. -/
def identityDestination : Addr × Bool × Msg :=
  let (scan, extra) := r.extra.foldl (scanExtra text key) (⟨.invalid, false, 0⟩, [])
  let r' := { r with extra := extra }
  if ¬ scan.present then (.invalid, false, r')
  else if scan.valid ≠ 1 then (.invalid, true, r')
  else (scan.destination, true, r')

/-! ## What the pass computes -/

/-- The option is an identity option, keyed or not. -/
def EdnsOption.isIdentity : EdnsOption → Bool
  | .ednsLocal code _ => code = identityOption
  | .other _ _ => false

/-- The address an option asserts under the key. -/
def EdnsOption.asserts : EdnsOption → Option Addr
  | .ednsLocal code data =>
    if code = identityOption ∧ key.length < data.length ∧ data.take key.length = key then
      Addr.parseAddr (text (data.drop key.length))
    else none
  | .other _ _ => none

/-- The options of one record. -/
def ExtraRR.options : ExtraRR → List EdnsOption
  | .opt _ options => options
  | .other _ => []

/-- The record without its identity options. -/
def ExtraRR.strip : ExtraRR → ExtraRR
  | .opt udpSize options => .opt udpSize (options.filter fun o => !o.isIdentity)
  | .other rr => .other rr

/-- All options of a message, in order. -/
def Msg.options : List EdnsOption := r.extra.flatMap ExtraRR.options

/-- The message without its identity options. -/
def Msg.strip : Msg := { r with extra := r.extra.map ExtraRR.strip }

/-- The addresses that the options assert under the key, in order. -/
def Msg.asserted : List Addr := r.options.filterMap (EdnsOption.asserts text key)

/-- The destination that a list of asserted addresses stands for. -/
def soleAddress : List Addr → Addr
  | [a] => a.unmap
  | _ => .invalid

theorem soleAddress_of_length_ne_one {as : List Addr} (h : as.length ≠ 1) :
    soleAddress as = .invalid := by
  unfold soleAddress
  split
  · simp at h
  · rfl

/-- What the pass has found after some options, given what it had found before. -/
def IdentityScan.after (scan : IdentityScan) (options : List EdnsOption) : IdentityScan where
  destination := ((options.filterMap (EdnsOption.asserts text key)).getLast?.map
    Addr.unmap).getD scan.destination
  present := scan.present || options.any EdnsOption.isIdentity
  valid := scan.valid + (options.filterMap (EdnsOption.asserts text key)).length

variable {text key}

theorem scanOption_eq (kept : List EdnsOption) (option : EdnsOption) :
    scanOption text key (scan, kept) option =
      (scan.after text key [option], kept ++ [option].filter fun o => !o.isIdentity) := by
  cases option with
  | other code data =>
    have hnone : asserts text key (.other code data) = none := rfl
    simp [scanOption, IdentityScan.after, filterMap_cons_none hnone, isIdentity]
  | ednsLocal code data =>
    by_cases hcode : code = identityOption
    · by_cases hkey : data.length ≤ key.length ∨ data.take key.length ≠ key
      · have hnot : ¬ (key.length < data.length ∧ data.take key.length = key) := by
          rintro ⟨h1, h2⟩
          rcases hkey with h | h
          · omega
          · exact h h2
        simp [scanOption, hcode, hkey, IdentityScan.after, asserts, hnot,
          isIdentity]
      · have hyes : key.length < data.length ∧ data.take key.length = key := by
          simpa only [not_or, not_le, not_not] using hkey
        cases hparse : Addr.parseAddr (text (data.drop key.length)) <;>
          simp [scanOption, hcode, IdentityScan.after, asserts, hyes, hparse,
            isIdentity]
    · simp [scanOption, hcode, IdentityScan.after, asserts, isIdentity]

theorem IdentityScan.after_append (xs ys : List EdnsOption) :
    (scan.after text key xs).after text key ys = scan.after text key (xs ++ ys) := by
  simp only [IdentityScan.after, filterMap_append, List.getLast?_append, any_append,
    length_append, Bool.or_assoc, Nat.add_assoc]
  cases (ys.filterMap (asserts text key)).getLast? <;> rfl

theorem foldl_scanOption (kept options : List EdnsOption) :
    options.foldl (scanOption text key) (scan, kept) =
      (scan.after text key options, kept ++ options.filter fun o => !o.isIdentity) := by
  induction options generalizing scan kept with
  | nil => simp [IdentityScan.after]
  | cons option options ih =>
    rw [foldl_cons, scanOption_eq, ih, IdentityScan.after_append, append_assoc, ← filter_append]
    rfl

theorem scanExtra_eq (kept : List ExtraRR) (rr : ExtraRR) :
    scanExtra text key (scan, kept) rr = (scan.after text key rr.options, kept ++ [rr.strip]) := by
  cases rr with
  | other rr => simp [scanExtra, IdentityScan.after, ExtraRR.options, ExtraRR.strip]
  | opt udpSize options =>
    simp [scanExtra, foldl_scanOption, ExtraRR.options, ExtraRR.strip]

theorem foldl_scanExtra (kept rrs : List ExtraRR) :
    rrs.foldl (scanExtra text key) (scan, kept) =
      (scan.after text key (rrs.flatMap ExtraRR.options), kept ++ rrs.map ExtraRR.strip) := by
  induction rrs generalizing scan kept with
  | nil => simp [IdentityScan.after]
  | cons rr rrs ih =>
    rw [foldl_cons, scanExtra_eq, ih, IdentityScan.after_append, append_assoc,
      flatMap_cons, map_cons, singleton_append]

/-- An option that asserts an address is an identity option. -/
theorem EdnsOption.isIdentity_of_asserts {o : EdnsOption} {a : Addr}
    (h : o.asserts text key = some a) : o.isIdentity = true := by
  cases o with
  | other code data => cases h
  | ednsLocal code data =>
    simp only [asserts] at h
    split at h
    · rename_i hkeyed
      simp [isIdentity, hkeyed.1]
    · cases h

/-- An asserted address is a valid one. -/
theorem EdnsOption.unmap_ne_invalid_of_asserts {o : EdnsOption} {a : Addr}
    (h : o.asserts text key = some a) : a.unmap ≠ .invalid := by
  cases o with
  | other code data => cases h
  | ednsLocal code data =>
    simp only [asserts] at h
    split at h
    · exact Addr.unmap_ne_invalid_of_parseAddr h
    · cases h

/-- A message that asserts an address has an identity option. -/
theorem Msg.any_isIdentity_of_asserted {r : Msg} {a : Addr} (ha : a ∈ r.asserted text key) :
    r.options.any isIdentity = true := by
  obtain ⟨o, ho, hoa⟩ := mem_filterMap.mp ha
  exact any_eq_true.mpr ⟨o, ho, isIdentity_of_asserts hoa⟩

/-- **The result of the pass.**  The message comes out without its identity options.  A
destination is returned exactly if one address is asserted under the key. -/
theorem identityDestination_eq : identityDestination text key r =
      (soleAddress (r.asserted text key), r.options.any isIdentity, r.strip) := by
  unfold identityDestination
  rw [foldl_scanExtra]
  simp only [IdentityScan.after, Bool.false_or, Nat.zero_add, nil_append]
  change (if ¬ r.options.any isIdentity then _
    else if (r.asserted text key).length ≠ 1 then _ else _) = _
  cases hp : r.options.any isIdentity with
  | false =>
    cases hr : r.asserted text key with
    | nil => simp [Msg.strip, soleAddress]
    | cons a as =>
      have hmem : a ∈ r.asserted text key := by simp [hr]
      rw [Msg.any_isIdentity_of_asserted hmem] at hp
      cases hp
  | true =>
    match hr : r.asserted text key with
    | [] => simp [Msg.strip, soleAddress]
    | [a] =>
      have hlast : ((List.flatMap ExtraRR.options r.extra).filterMap
          (asserts text key)).getLast? = some a := by
        change (r.asserted text key).getLast? = some a
        rw [hr]; rfl
      simp [Msg.strip, hlast, soleAddress]
    | a :: b :: as => simp [Msg.strip, soleAddress]

end Scan

end InternalDNS
