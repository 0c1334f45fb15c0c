import Mathlib.Data.String.Basic
import Mathlib.Tactic.FinCases
import Mathlib.Tactic.IntervalCases
import RevaultNet.Except

/-! # Hex text of byte strings (`bitcoin_hashes::hex`)

`serde_tx_hex` writes a transaction's consensus bytes with `ToHex::to_hex` and reads a string back
with `Vec::<u8>::from_hex` (`src/src/message.rs`, `mod serde_tx_hex`).

* `toHex`: two lowercase digits per byte, high half first (`{:02x}`).
* `fromHex`: a string of odd length is `OddLengthString`; digits are read in pairs, high half
  first, and a character outside `0-9a-fA-F` is `InvalidChar`.
* `fromHex_toHex`: reading back what `toHex` wrote gives the bytes it was written from;
* `toHex_fromHex`: writing what `fromHex` read gives the text back in lowercase, since
  `fromHex` reads both cases.

Strings are read character by character. The library counts and reads UTF-8 bytes; the two
agree on ASCII text, and a string with a non-ASCII character is refused by both.
-/

namespace RevaultNet.Hex
set_option autoImplicit false

/-- `bitcoin_hashes::hex::Error`, the two cases `Vec::<u8>::from_hex` raises. -/
inductive Error where
  | invalidChar (c : Char)
  | oddLengthString (len : Nat)
  deriving Repr, DecidableEq

/-- The sixteen lowercase digits `{:x}` writes. -/
def hexDigits : List Char := "0123456789abcdef".toList

/-- The digit `{:x}` writes for a value below sixteen. -/
def digitChar (d : Nat) : Char := hexDigits.getD d '0'

/-- `char::to_digit(16)`. -/
def digitValue (c : Char) : Except Error Nat :=
  if '0' ≤ c ∧ c ≤ '9' then .ok (c.toNat - '0'.toNat)
  else if 'a' ≤ c ∧ c ≤ 'f' then .ok (c.toNat - 'a'.toNat + 10)
  else if 'A' ≤ c ∧ c ≤ 'F' then .ok (c.toNat - 'A'.toNat + 10)
  else .error (.invalidChar c)

/-- The two digits of one byte, high half first. -/
def hexPair (b : BitVec 8) : List Char := [digitChar (b.toNat / 16), digitChar (b.toNat % 16)]

/-- `ToHex::to_hex` on a byte slice. -/
def toHex (bytes : List (BitVec 8)) : String := ⟨bytes.flatMap hexPair⟩

/-- The pairing loop of `HexIterator`: each pair of digits is one byte, `(hi << 4) | lo`. -/
def hexBytes : List Char → Except Error (List (BitVec 8))
  | hi :: lo :: cs => do
    let h ← digitValue hi
    let l ← digitValue lo
    let rest ← hexBytes cs
    pure (BitVec.ofNat 8 (h * 16 + l) :: rest)
  | _ => .ok []

/-- `Vec::<u8>::from_hex`. -/
def fromHex (s : String) : Except Error (List (BitVec 8)) :=
  if s.length % 2 = 1 then .error (.oddLengthString s.length) else hexBytes s.toList

/-! ## Writing then reading -/

theorem digitValue_digitChar (d : Fin 16) : digitValue (digitChar d) = .ok d := by
  fin_cases d <;> rfl

theorem digitChar_mem (d : Nat) : digitChar d ∈ hexDigits := by
  unfold digitChar
  rw [List.getD_eq_getElem?_getD]
  cases h : hexDigits[d]? with
  | none => decide
  | some x => exact List.getElem?_mem h

theorem hexBytes_hexPair (b : BitVec 8) (cs : List Char) :
    hexBytes (hexPair b ++ cs) = (hexBytes cs).map (b :: ·) := by
  have hlt := b.isLt
  have hb : BitVec.ofNat 8 (b.toNat / 16 * 16 + b.toNat % 16) = b := by
    rw [show b.toNat / 16 * 16 + b.toNat % 16 = b.toNat by omega]
    simp
  show hexBytes (_ :: _ :: cs) = _
  rw [hexBytes, digitValue_digitChar ⟨b.toNat / 16, by omega⟩,
    digitValue_digitChar ⟨b.toNat % 16, by omega⟩]
  cases hexBytes cs <;> simp [bind, Except.bind, pure, Except.pure, Except.map, hb]

theorem hexBytes_flatMap (bytes : List (BitVec 8)) :
    hexBytes (bytes.flatMap hexPair) = .ok bytes := by
  induction bytes with
  | nil => rfl
  | cons b bs ih => rw [List.flatMap_cons, hexBytes_hexPair, ih]; rfl

@[simp] theorem toHex_length (bytes : List (BitVec 8)) :
    (toHex bytes).length = 2 * bytes.length := by
  induction bytes with
  | nil => rfl
  | cons b bs ih =>
    simp only [toHex, String.length, List.flatMap_cons, List.length_append] at ih ⊢
    simp [hexPair, ih]
    omega

theorem fromHex_toHex (bytes : List (BitVec 8)) : fromHex (toHex bytes) = .ok bytes := by
  simpa [fromHex] using hexBytes_flatMap bytes

/-- Every character `toHex` writes is a lowercase hex digit. -/
theorem mem_toHex {bytes : List (BitVec 8)} {c : Char} (h : c ∈ (toHex bytes).toList) :
    c ∈ hexDigits := by
  simp only [toHex, String.toList, List.mem_flatMap, hexPair, List.mem_cons,
    List.mem_singleton, List.not_mem_nil, or_false] at h
  obtain ⟨b, -, rfl | rfl⟩ := h <;> exact digitChar_mem _

/-! ## Reading then writing -/

/-- A digit `char::to_digit(16)` accepts is the digit `{:x}` writes, up to case. -/
theorem digitValue_eq_ok {c : Char} {d : Nat} (h : digitValue c = .ok d) :
    d < 16 ∧ digitChar d = c.toLower := by
  have hc : Char.ofNat c.toNat = c := Char.ofNat_toNat c
  unfold digitValue at h
  split_ifs at h with h1 h2 h3 <;> cases h
  · obtain ⟨lo, hi⟩ : 48 ≤ c.toNat ∧ c.toNat ≤ 57 := h1
    refine ⟨show c.toNat - 48 < 16 by omega, ?_⟩
    rw [Char.toLower, if_neg (by omega)]
    conv_rhs => rw [← hc]
    generalize c.toNat = n at lo hi ⊢
    interval_cases n <;> rfl
  · obtain ⟨lo, hi⟩ : 97 ≤ c.toNat ∧ c.toNat ≤ 102 := h2
    refine ⟨show c.toNat - 97 + 10 < 16 by omega, ?_⟩
    rw [Char.toLower, if_neg (by omega)]
    conv_rhs => rw [← hc]
    generalize c.toNat = n at lo hi ⊢
    interval_cases n <;> rfl
  · obtain ⟨lo, hi⟩ : 65 ≤ c.toNat ∧ c.toNat ≤ 70 := h3
    refine ⟨show c.toNat - 65 + 10 < 16 by omega, ?_⟩
    rw [Char.toLower, if_pos (by omega)]
    generalize c.toNat = n at lo hi ⊢
    interval_cases n <;> rfl

theorem hexPair_ofNat {h l : Nat} (hh : h < 16) (hl : l < 16) :
    hexPair (BitVec.ofNat 8 (h * 16 + l)) = [digitChar h, digitChar l] := by
  have hv : (BitVec.ofNat 8 (h * 16 + l)).toNat = h * 16 + l := by
    rw [BitVec.toNat_ofNat, Nat.mod_eq_of_lt (by omega)]
  rw [hexPair, hv, show (h * 16 + l) / 16 = h by omega, show (h * 16 + l) % 16 = l by omega]

/-- The pairing loop reads an even number of digits, of either case, into the bytes whose
lowercase digits they are. -/
theorem hexBytes_eq_ok {cs : List Char} {bytes : List (BitVec 8)} (h : hexBytes cs = .ok bytes)
    (heven : cs.length % 2 = 0) : bytes.flatMap hexPair = cs.map Char.toLower := by
  induction cs using hexBytes.induct generalizing bytes with
  | case1 hi lo cs ih =>
    obtain ⟨dh, hdh, h1⟩ := bind_eq_ok.1 h
    obtain ⟨dl, hdl, h2⟩ := bind_eq_ok.1 h1
    obtain ⟨rest, hrest, h3⟩ := bind_eq_ok.1 h2
    cases h3
    obtain ⟨hh, eh⟩ := digitValue_eq_ok hdh
    obtain ⟨hl, el⟩ := digitValue_eq_ok hdl
    rw [List.flatMap_cons, hexPair_ofNat hh hl, ih hrest (by simp at heven; omega), eh, el]
    rfl
  | case2 cs hcs =>
    match cs, hcs with
    | [], _ => cases h; rfl
    | [_], _ => simp at heven
    | _ :: _ :: _, hcs => exact absurd rfl (hcs _ _ _)

/-- Writing what `Vec::from_hex` read gives the text back, in lowercase. -/
theorem toHex_fromHex {s : String} {bytes : List (BitVec 8)} (h : fromHex s = .ok bytes) :
    toHex bytes = s.toLower := by
  unfold fromHex at h
  split_ifs at h with hodd
  rw [String.toLower, String.map_eq, toHex, hexBytes_eq_ok h (by simpa using hodd)]
  rfl

end RevaultNet.Hex
