import Mathlib.Data.List.Basic
import Mathlib.Algebra.Group.Nat.Basic
import RevaultNet.Except

/-! # Consensus encoding primitives (`bitcoin::consensus::encode`)

The transaction codec behind `serde_tx_hex` is `encode::serialize` / `encode::deserialize` of the
`bitcoin` crate the repository builds on. Its pieces, as the crate writes them:

* fixed-width integers, little-endian (`emit_u32`, `read_u32`, ...);
* `VarInt`: one byte below `0xFD`, otherwise a marker `0xFD`/`0xFE`/`0xFF` and 2, 4 or 8 bytes;
  the reader refuses a value written longer than needed (`NonMinimalVarInt`);
* `Vec<u8>`: a `VarInt` length, at most `MAX_VEC_SIZE`, then the bytes;
* `impl_vec!`: a `VarInt` count whose allocation `count * size_of::<T>()` must not overflow nor
  exceed `MAX_VEC_SIZE`, then the elements.

A decoder is explicit state passing: it reads a value off the front of the input and returns it
with the rest. Each reader is proved to read back what its writer wrote in front of any rest,
and to accept nothing else (`readVarInt_eq_ok`, `readBytes_eq_ok`, `readVec_eq_ok`).
-/

namespace RevaultNet.Consensus
set_option autoImplicit false

/-- `consensus::encode::Error`, the cases transaction decoding raises. -/
inductive Error where
  /-- `Io(UnexpectedEof)`: the input ends inside a value. -/
  | io
  | oversizedVectorAllocation (requested max : Nat)
  | nonMinimalVarInt
  | parseFailed (msg : String)
  | unsupportedSegwitFlag (flag : BitVec 8)
  deriving Repr, DecidableEq

/-- A decoder reads a value off the front of its input and returns it with the rest. -/
abbrev Decoder (α : Type) := List (BitVec 8) → Except Error (α × List (BitVec 8))

/-- `MAX_VEC_SIZE`, the largest allocation a decoder makes. -/
def maxVecSize : Nat := 4000000

/-! ## Fixed-width integers -/

/-- The `w` little-endian bytes of `n`. -/
def leBytes : Nat → Nat → List (BitVec 8)
  | 0, _ => []
  | w + 1, n => BitVec.ofNat 8 n :: leBytes w (n / 256)

/-- The natural with the given little-endian bytes. -/
def leValue : List (BitVec 8) → Nat
  | [] => 0
  | b :: bs => b.toNat + 256 * leValue bs

@[simp] theorem leBytes_length (w n : Nat) : (leBytes w n).length = w := by
  induction w generalizing n with
  | zero => rfl
  | succ w ih => simp [leBytes, ih]

theorem leValue_leBytes (w n : Nat) : leValue (leBytes w n) = n % 256 ^ w := by
  induction w generalizing n with
  | zero => simp [leBytes, leValue, Nat.mod_one]
  | succ w ih =>
    simp only [leBytes, leValue, ih, BitVec.toNat_ofNat, Nat.reducePow]
    rw [Nat.pow_succ, Nat.mul_comm (256 ^ w), Nat.mod_mul]

/-- `ReadExt::read_slice`: the next `n` bytes, or `Io(UnexpectedEof)`. -/
def readSlice (n : Nat) : Decoder (List (BitVec 8)) := fun bs =>
  if n ≤ bs.length then .ok (bs.take n, bs.drop n) else .error .io

/-- An unsigned little-endian integer of `w` bytes. -/
def readUInt (w : Nat) : Decoder Nat := fun bs => do
  let (b, bs) ← readSlice w bs
  pure (leValue b, bs)

theorem readSlice_append {xs : List (BitVec 8)} {n : Nat} (h : xs.length = n)
    (rest : List (BitVec 8)) : readSlice n (xs ++ rest) = .ok (xs, rest) := by
  subst h
  simp [readSlice]

theorem readUInt_leBytes (w n : Nat) (rest : List (BitVec 8)) :
    readUInt w (leBytes w n ++ rest) = .ok (n % 256 ^ w, rest) := by
  simp [readUInt, readSlice_append (leBytes_length w n), leValue_leBytes]

/-- `u8`, `u32` and `u64` as the crate emits them. -/
def emitU8 (x : BitVec 8) : List (BitVec 8) := leBytes 1 x.toNat
def emitU32 (x : BitVec 32) : List (BitVec 8) := leBytes 4 x.toNat
def emitU64 (x : BitVec 64) : List (BitVec 8) := leBytes 8 x.toNat

def readU8 : Decoder (BitVec 8) := fun bs => do
  let (n, bs) ← readUInt 1 bs
  pure (BitVec.ofNat 8 n, bs)
def readU32 : Decoder (BitVec 32) := fun bs => do
  let (n, bs) ← readUInt 4 bs
  pure (BitVec.ofNat 32 n, bs)
def readU64 : Decoder (BitVec 64) := fun bs => do
  let (n, bs) ← readUInt 8 bs
  pure (BitVec.ofNat 64 n, bs)

@[simp] theorem readU8_emitU8 (x : BitVec 8) (rest : List (BitVec 8)) :
    readU8 (emitU8 x ++ rest) = .ok (x, rest) := by
  have h : x.toNat < 256 := x.isLt
  simp [readU8, emitU8, readUInt_leBytes, Nat.mod_eq_of_lt h]

@[simp] theorem readU32_emitU32 (x : BitVec 32) (rest : List (BitVec 8)) :
    readU32 (emitU32 x ++ rest) = .ok (x, rest) := by
  have h : x.toNat < 4294967296 := x.isLt
  simp [readU32, emitU32, readUInt_leBytes, Nat.mod_eq_of_lt h]

@[simp] theorem readU64_emitU64 (x : BitVec 64) (rest : List (BitVec 8)) :
    readU64 (emitU64 x ++ rest) = .ok (x, rest) := by
  have h : x.toNat < 18446744073709551616 := x.isLt
  simp [readU64, emitU64, readUInt_leBytes, Nat.mod_eq_of_lt h]

/-! ## `VarInt` -/

/-- `VarInt::consensus_encode`. -/
def varIntBytes (n : BitVec 64) : List (BitVec 8) :=
  if n.toNat ≤ 0xFC then leBytes 1 n.toNat
  else if n.toNat ≤ 0xFFFF then 0xFD :: leBytes 2 n.toNat
  else if n.toNat ≤ 0xFFFFFFFF then 0xFE :: leBytes 4 n.toNat
  else 0xFF :: leBytes 8 n.toNat

/-- `VarInt::consensus_decode`, which refuses a value written longer than needed. -/
def readVarInt : Decoder (BitVec 64) := fun bs => do
  let (n, bs) ← readUInt 1 bs
  if n = 0xFF then
    let (x, bs) ← readUInt 8 bs
    if x < 0x100000000 then .error .nonMinimalVarInt else pure (BitVec.ofNat 64 x, bs)
  else if n = 0xFE then
    let (x, bs) ← readUInt 4 bs
    if x < 0x10000 then .error .nonMinimalVarInt else pure (BitVec.ofNat 64 x, bs)
  else if n = 0xFD then
    let (x, bs) ← readUInt 2 bs
    if x < 0xFD then .error .nonMinimalVarInt else pure (BitVec.ofNat 64 x, bs)
  else pure (BitVec.ofNat 64 n, bs)

/-- The marker byte read as a one-byte integer. -/
theorem readUInt_marker (m : BitVec 8) (bs : List (BitVec 8)) :
    readUInt 1 (m :: bs) = .ok (m.toNat, bs) := by
  simp [readUInt, readSlice, leValue]

/-- `readVarInt` reads back every value, at each of the four widths. -/
theorem readVarInt_varIntBytes (n : BitVec 64) (rest : List (BitVec 8)) :
    readVarInt (varIntBytes n ++ rest) = .ok (n, rest) := by
  have hn : n.toNat < 18446744073709551616 := n.isLt
  have back : BitVec.ofNat 64 n.toNat = n := by simp
  unfold varIntBytes
  split_ifs with h1 h2 h3
  · simp [readVarInt, readUInt_leBytes, back, Nat.mod_eq_of_lt (show n.toNat < 256 by omega),
      show n.toNat ≠ 255 by omega, show n.toNat ≠ 254 by omega, show n.toNat ≠ 253 by omega]
  · have m : (0xFD : BitVec 8).toNat = 0xFD := rfl
    simp [readVarInt, readUInt_marker, m, readUInt_leBytes, back,
      Nat.mod_eq_of_lt (show n.toNat < 65536 by omega), show ¬n.toNat < 253 by omega]
  · have m : (0xFE : BitVec 8).toNat = 0xFE := rfl
    simp [readVarInt, readUInt_marker, m, readUInt_leBytes, back,
      Nat.mod_eq_of_lt (show n.toNat < 4294967296 by omega), show ¬n.toNat < 65536 by omega]
  · have m : (0xFF : BitVec 8).toNat = 0xFF := rfl
    simp [readVarInt, readUInt_marker, m, readUInt_leBytes, back, Nat.mod_eq_of_lt hn,
      show ¬n.toNat < 4294967296 by omega]

/-! ## Vectors -/

/-- `Vec<u8>::consensus_encode`: the length as a `VarInt`, then the bytes. -/
def emitBytes (xs : List (BitVec 8)) : List (BitVec 8) :=
  varIntBytes (BitVec.ofNat 64 xs.length) ++ xs

/-- `Vec<u8>::consensus_decode`. -/
def readBytes : Decoder (List (BitVec 8)) := fun bs => do
  let (len, bs) ← readVarInt bs
  if maxVecSize < len.toNat then .error (.oversizedVectorAllocation len.toNat maxVecSize)
  else readSlice len.toNat bs

/-- `n` values read one after the other, the loop of `impl_vec!`. -/
def readList {α : Type} (d : Decoder α) : Nat → Decoder (List α)
  | 0 => fun bs => .ok ([], bs)
  | n + 1 => fun bs => do
    let (x, bs) ← d bs
    let (xs, bs) ← readList d n bs
    pure (x :: xs, bs)

/-- `impl_vec!`'s `consensus_decode` for elements of `size` bytes in memory: the count, the
allocation check on `count * size` (overflow, then `MAX_VEC_SIZE`), then the elements. -/
def readVec {α : Type} (size : Nat) (d : Decoder α) : Decoder (List α) := fun bs => do
  let (len, bs) ← readVarInt bs
  if 2 ^ 64 ≤ len.toNat * size then .error (.parseFailed "Invalid length")
  else if maxVecSize < len.toNat * size then
    .error (.oversizedVectorAllocation (len.toNat * size) maxVecSize)
  else readList d len.toNat bs

/-- `impl_vec!`'s `consensus_encode`: the count as a `VarInt`, then the elements. -/
def emitVec {α : Type} (e : α → List (BitVec 8)) (xs : List α) : List (BitVec 8) :=
  varIntBytes (BitVec.ofNat 64 xs.length) ++ xs.flatMap e

theorem toNat_ofNat_length {α : Type} {xs : List α} (h : xs.length ≤ maxVecSize) :
    (BitVec.ofNat 64 xs.length).toNat = xs.length := by
  simp only [BitVec.toNat_ofNat]
  exact Nat.mod_eq_of_lt (by unfold maxVecSize at h; omega)

theorem readBytes_emitBytes {xs : List (BitVec 8)} (h : xs.length ≤ maxVecSize)
    (rest : List (BitVec 8)) : readBytes (emitBytes xs ++ rest) = .ok (xs, rest) := by
  simp [readBytes, emitBytes, readVarInt_varIntBytes, toNat_ofNat_length h, Nat.not_lt.2 h,
    readSlice_append]

/-- Reading `xs.length` values back, where each value reads back as `f` of itself. -/
theorem readList_flatMap {α : Type} {d : Decoder α} {e : α → List (BitVec 8)} (f : α → α)
    {xs : List α} (h : ∀ x ∈ xs, ∀ rest, d (e x ++ rest) = .ok (f x, rest))
    (rest : List (BitVec 8)) :
    readList d xs.length (xs.flatMap e ++ rest) = .ok (xs.map f, rest) := by
  induction xs with
  | nil => rfl
  | cons x xs ih =>
    simp only [List.length_cons, readList, List.flatMap_cons, List.append_assoc,
      h x (.head _), ok_bind, ih fun y hy => h y (.tail _ hy), List.map_cons, pure_eq_ok]

theorem readVec_emitVec {α : Type} {size : Nat} {d : Decoder α} {e : α → List (BitVec 8)}
    (f : α → α) {xs : List α} (hsize : 0 < size) (hfit : xs.length * size ≤ maxVecSize)
    (h : ∀ x ∈ xs, ∀ rest, d (e x ++ rest) = .ok (f x, rest)) (rest : List (BitVec 8)) :
    readVec size d (emitVec e xs ++ rest) = .ok (xs.map f, rest) := by
  have hlen : xs.length ≤ maxVecSize := le_trans (Nat.le_mul_of_pos_right _ hsize) hfit
  have hfit' : xs.length * size < 2 ^ 64 := by unfold maxVecSize at hfit; omega
  simp only [readVec, emitVec, List.append_assoc, readVarInt_varIntBytes, ok_bind,
    toNat_ofNat_length hlen, Nat.not_le.2 hfit', Nat.not_lt.2 hfit, if_false,
    readList_flatMap f h]

/-! ## Reading only what was written

Each reader accepts only what its writer writes: the bytes it consumed are the writer's output
for the value it returned. With the round trips above, a reader and its writer are inverse
bijections between the values that pass the reader's checks and the inputs it accepts. -/

theorem readSlice_eq_ok {n : Nat} {bs xs rest : List (BitVec 8)} :
    readSlice n bs = .ok (xs, rest) ↔ xs.length = n ∧ bs = xs ++ rest := by
  constructor
  · intro h
    unfold readSlice at h
    split at h
    next hn =>
      cases h
      exact ⟨List.length_take_of_le hn, (List.take_append_drop n bs).symm⟩
    next => cases h
  · rintro ⟨rfl, rfl⟩
    exact readSlice_append rfl rest

theorem leValue_lt (xs : List (BitVec 8)) : leValue xs < 256 ^ xs.length := by
  induction xs with
  | nil => simp [leValue]
  | cons b bs ih =>
    have hb : b.toNat < 256 := b.isLt
    rw [leValue, List.length_cons, Nat.pow_succ]
    omega

theorem leBytes_leValue (xs : List (BitVec 8)) : leBytes xs.length (leValue xs) = xs := by
  induction xs with
  | nil => rfl
  | cons b bs ih =>
    have hb : b.toNat < 256 := b.isLt
    rw [List.length_cons, leBytes, leValue,
      show (b.toNat + 256 * leValue bs) / 256 = leValue bs by omega, ih]
    congr 1
    apply BitVec.eq_of_toNat_eq
    simp only [BitVec.toNat_ofNat, Nat.reducePow]
    omega

theorem readUInt_eq_ok {w v : Nat} {bs rest : List (BitVec 8)} :
    readUInt w bs = .ok (v, rest) ↔ v < 256 ^ w ∧ bs = leBytes w v ++ rest := by
  constructor
  · intro h
    simp only [readUInt, bind_eq_ok, pure_eq_ok, Except.ok.injEq, Prod.mk.injEq] at h
    obtain ⟨⟨xs, r⟩, hs, rfl, rfl⟩ := h
    obtain ⟨rfl, rfl⟩ := readSlice_eq_ok.1 hs
    exact ⟨leValue_lt xs, by rw [leBytes_leValue]⟩
  · rintro ⟨hv, rfl⟩
    rw [readUInt_leBytes, Nat.mod_eq_of_lt hv]

/-- A fixed-width reader of `w` bytes into `BitVec (8 * w)` accepts only its writer's bytes. -/
theorem leBytes_of_readUInt {w n : Nat} {bs rest : List (BitVec 8)}
    (h : readUInt w bs = .ok (n, rest)) :
    bs = leBytes w (BitVec.ofNat (8 * w) n).toNat ++ rest := by
  obtain ⟨hn, rfl⟩ := readUInt_eq_ok.1 h
  rw [BitVec.toNat_ofNat, Nat.mod_eq_of_lt (by rwa [Nat.pow_mul])]

theorem readU8_eq_ok {x : BitVec 8} {bs rest : List (BitVec 8)} :
    readU8 bs = .ok (x, rest) ↔ bs = emitU8 x ++ rest := by
  refine ⟨fun h => ?_, by rintro rfl; exact readU8_emitU8 x rest⟩
  simp only [readU8, bind_eq_ok, pure_eq_ok, Except.ok.injEq, Prod.mk.injEq] at h
  obtain ⟨⟨n, r⟩, hr, rfl, rfl⟩ := h
  exact leBytes_of_readUInt (w := 1) hr

theorem readU32_eq_ok {x : BitVec 32} {bs rest : List (BitVec 8)} :
    readU32 bs = .ok (x, rest) ↔ bs = emitU32 x ++ rest := by
  refine ⟨fun h => ?_, by rintro rfl; exact readU32_emitU32 x rest⟩
  simp only [readU32, bind_eq_ok, pure_eq_ok, Except.ok.injEq, Prod.mk.injEq] at h
  obtain ⟨⟨n, r⟩, hr, rfl, rfl⟩ := h
  exact leBytes_of_readUInt (w := 4) hr

theorem readU64_eq_ok {x : BitVec 64} {bs rest : List (BitVec 8)} :
    readU64 bs = .ok (x, rest) ↔ bs = emitU64 x ++ rest := by
  refine ⟨fun h => ?_, by rintro rfl; exact readU64_emitU64 x rest⟩
  simp only [readU64, bind_eq_ok, pure_eq_ok, Except.ok.injEq, Prod.mk.injEq] at h
  obtain ⟨⟨n, r⟩, hr, rfl, rfl⟩ := h
  exact leBytes_of_readUInt (w := 8) hr

/-- A wide branch of `readVarInt`: `w` bytes after the marker, refused below `lo`. -/
theorem readVarInt_wide {w lo : Nat} {r rest : List (BitVec 8)} {n : BitVec 64}
    (hw : 256 ^ w ≤ 2 ^ 64)
    (h : (readUInt w r >>= fun d => if d.1 < lo then .error .nonMinimalVarInt
      else pure (BitVec.ofNat 64 d.1, d.2)) = .ok (n, rest)) :
    lo ≤ n.toNat ∧ n.toNat < 256 ^ w ∧ r = leBytes w n.toNat ++ rest := by
  obtain ⟨⟨x, bs⟩, hx, hif⟩ := bind_eq_ok.1 h
  obtain ⟨hxw, rfl⟩ := readUInt_eq_ok.1 hx
  dsimp only at hif
  split_ifs at hif with hlo
  simp only [pure_eq_ok, Except.ok.injEq, Prod.mk.injEq] at hif
  obtain ⟨rfl, rfl⟩ := hif
  rw [BitVec.toNat_ofNat, Nat.mod_eq_of_lt (by omega)]
  exact ⟨by omega, hxw, rfl⟩

theorem readVarInt_eq_ok {n : BitVec 64} {bs rest : List (BitVec 8)} :
    readVarInt bs = .ok (n, rest) ↔ bs = varIntBytes n ++ rest := by
  refine ⟨fun h => ?_, by rintro rfl; exact readVarInt_varIntBytes n rest⟩
  cases bs with
  | nil => simp [readVarInt, readUInt, readSlice] at h
  | cons b r =>
  have hb : b.toNat < 256 := b.isLt
  simp only [readVarInt, readUInt_marker, ok_bind] at h
  split_ifs at h with h1 h2 h3
  · obtain ⟨hlo, -, rfl⟩ := readVarInt_wide (by decide) h
    obtain rfl : b = 0xFF := BitVec.eq_of_toNat_eq h1
    rw [varIntBytes, if_neg (by omega), if_neg (by omega), if_neg (by omega)]
    rfl
  · obtain ⟨hlo, hhi, rfl⟩ := readVarInt_wide (by decide) h
    obtain rfl : b = 0xFE := BitVec.eq_of_toNat_eq h2
    rw [varIntBytes, if_neg (by omega), if_neg (by omega), if_pos (by omega)]
    rfl
  · obtain ⟨hlo, hhi, rfl⟩ := readVarInt_wide (by decide) h
    obtain rfl : b = 0xFD := BitVec.eq_of_toNat_eq h3
    rw [varIntBytes, if_neg (by omega), if_pos (by omega)]
    rfl
  · simp only [pure_eq_ok, Except.ok.injEq, Prod.mk.injEq] at h
    obtain ⟨rfl, rfl⟩ := h
    have hn : (BitVec.ofNat 64 b.toNat).toNat = b.toNat := by
      rw [BitVec.toNat_ofNat, Nat.mod_eq_of_lt (by omega)]
    rw [varIntBytes, hn, if_pos (by omega)]
    simp [leBytes]

theorem ofNat_toNat_length {α : Type} {xs : List α} {len : BitVec 64}
    (h : xs.length = len.toNat) : BitVec.ofNat 64 xs.length = len := by
  rw [h, BitVec.ofNat_toNat, BitVec.setWidth_eq]

theorem readBytes_eq_ok {xs bs rest : List (BitVec 8)} :
    readBytes bs = .ok (xs, rest) ↔ xs.length ≤ maxVecSize ∧ bs = emitBytes xs ++ rest := by
  refine ⟨fun h => ?_, fun ⟨hfit, h⟩ => h ▸ readBytes_emitBytes hfit rest⟩
  obtain ⟨⟨len, r⟩, hl, h⟩ := bind_eq_ok.1 h
  dsimp only at h
  split_ifs at h with hmax
  obtain ⟨hlen, rfl⟩ := readSlice_eq_ok.1 h
  obtain rfl := readVarInt_eq_ok.1 hl
  exact ⟨by omega, by rw [emitBytes, ofNat_toNat_length hlen, List.append_assoc]⟩

section
variable {α : Type} {d : Decoder α} {e : α → List (BitVec 8)} {P : α → Prop}

/-- The element loop accepts only the elements' bytes, when the element reader does. -/
theorem readList_eq_ok (hd : ∀ {bs x rest}, d bs = .ok (x, rest) → P x ∧ bs = e x ++ rest)
    {n : Nat} {bs : List (BitVec 8)} {xs : List α} {rest : List (BitVec 8)}
    (h : readList d n bs = .ok (xs, rest)) :
    xs.length = n ∧ (∀ x ∈ xs, P x) ∧ bs = xs.flatMap e ++ rest := by
  induction n generalizing bs xs with
  | zero =>
    cases h
    exact ⟨rfl, by simp, rfl⟩
  | succ n ih =>
    obtain ⟨⟨x, r⟩, hx, h⟩ := bind_eq_ok.1 h
    obtain ⟨⟨xs', r'⟩, hxs, h⟩ := bind_eq_ok.1 h
    simp only [pure_eq_ok, Except.ok.injEq, Prod.mk.injEq] at h
    obtain ⟨rfl, rfl⟩ := h
    obtain ⟨hP, rfl⟩ := hd hx
    obtain ⟨hlen, hPs, rfl⟩ := ih hxs
    exact ⟨by simp [hlen], List.forall_mem_cons.2 ⟨hP, hPs⟩, by simp⟩

/-- `impl_vec!`'s reader accepts only the vector's bytes, and only a vector that fits. -/
theorem readVec_eq_ok (hd : ∀ {bs x rest}, d bs = .ok (x, rest) → P x ∧ bs = e x ++ rest)
    {size : Nat} {bs : List (BitVec 8)} {xs : List α} {rest : List (BitVec 8)}
    (h : readVec size d bs = .ok (xs, rest)) :
    xs.length * size ≤ maxVecSize ∧ (∀ x ∈ xs, P x) ∧ bs = emitVec e xs ++ rest := by
  obtain ⟨⟨len, r⟩, hl, h⟩ := bind_eq_ok.1 h
  dsimp only at h
  split_ifs at h with hover hmax
  obtain ⟨hlen, hP, rfl⟩ := readList_eq_ok hd h
  obtain rfl := readVarInt_eq_ok.1 hl
  exact ⟨by rw [hlen]; omega, hP, by rw [emitVec, ofNat_toNat_length hlen, List.append_assoc]⟩

end

/-! ## Cut encodings

Every read ends in `read_slice`, which meets the end of a short input with `Io(UnexpectedEof)`.
So a reader refuses every cut of what its writer wrote with that error, before any check on the
values it reads (`RefusesCuts`). For a read followed by the rest of a reader it is
`refusesCuts_bind`; each reader then cites the lemmas of the readers it calls. -/

/-- `d` refuses every proper prefix of `xs` with `Io(UnexpectedEof)`. -/
def RefusesCuts {α : Type} (d : Decoder α) (xs : List (BitVec 8)) : Prop :=
  ∀ k < xs.length, d (xs.take k) = .error .io

section
variable {α β : Type}

theorem refusesCuts_bind {d : Decoder α} {g : α × List (BitVec 8) → Except Error (β × List (BitVec 8))}
    {xs₁ xs₂ : List (BitVec 8)} {a : α} (h : ∀ r, d (xs₁ ++ r) = .ok (a, r))
    (c₁ : RefusesCuts d xs₁) (c₂ : RefusesCuts (fun bs => g (a, bs)) xs₂) :
    RefusesCuts (fun bs => d bs >>= g) (xs₁ ++ xs₂) := by
  intro k hk
  rw [List.length_append] at hk
  by_cases hk₁ : k < xs₁.length
  · simp only [List.take_append_of_le_length hk₁.le, c₁ k hk₁, error_bind]
  · have ht : (xs₁ ++ xs₂).take k = xs₁ ++ xs₂.take (k - xs₁.length) := by
      rw [List.take_append_eq_append_take, List.take_of_length_le (by omega)]
    simp only [ht, h, ok_bind]
    exact c₂ _ (by omega)

theorem refusesCuts_nil (d : Decoder α) : RefusesCuts d [] := fun _ hk => absurd hk (Nat.not_lt_zero _)

theorem refusesCuts_map {d : Decoder α} {xs : List (BitVec 8)} (c : RefusesCuts d xs)
    (f : α × List (BitVec 8) → Except Error (β × List (BitVec 8))) :
    RefusesCuts (fun bs => d bs >>= f) xs := fun k hk => by
  simp only [c k hk, error_bind]

end

theorem readSlice_refusesCuts (xs : List (BitVec 8)) : RefusesCuts (readSlice xs.length) xs :=
  fun k hk => by simp [readSlice, Nat.min_eq_left hk.le, Nat.not_le.2 hk]

theorem readUInt_refusesCuts (w n : Nat) : RefusesCuts (readUInt w) (leBytes w n) := by
  have c := refusesCuts_map (readSlice_refusesCuts (leBytes w n))
    fun p => pure (leValue p.1, p.2)
  rwa [leBytes_length] at c

theorem readU8_refusesCuts (x : BitVec 8) : RefusesCuts readU8 (emitU8 x) :=
  refusesCuts_map (readUInt_refusesCuts 1 x.toNat) _

theorem readU32_refusesCuts (x : BitVec 32) : RefusesCuts readU32 (emitU32 x) :=
  refusesCuts_map (readUInt_refusesCuts 4 x.toNat) _

theorem readU64_refusesCuts (x : BitVec 64) : RefusesCuts readU64 (emitU64 x) :=
  refusesCuts_map (readUInt_refusesCuts 8 x.toNat) _

theorem readVarInt_refusesCuts (n : BitVec 64) : RefusesCuts readVarInt (varIntBytes n) := by
  intro k hk
  cases k with
  | zero => rfl
  | succ k =>
    unfold varIntBytes at hk ⊢
    split_ifs at hk ⊢
    · simp at hk
    all_goals
      simp only [List.length_cons, leBytes_length, Nat.add_lt_add_iff_right] at hk
      simp only [List.take_succ_cons, readVarInt, readUInt_marker, ok_bind, BitVec.toNat_ofNat,
        Nat.reducePow, Nat.reduceMod]
      rw [readUInt_refusesCuts _ _ k, error_bind]
      · simp
      · rwa [leBytes_length]

theorem readBytes_refusesCuts {xs : List (BitVec 8)} (h : xs.length ≤ maxVecSize) :
    RefusesCuts readBytes (emitBytes xs) := by
  unfold readBytes emitBytes
  refine refusesCuts_bind (readVarInt_varIntBytes _) (readVarInt_refusesCuts _) ?_
  simp only [toNat_ofNat_length h, Nat.not_lt.2 h, if_false]
  exact readSlice_refusesCuts xs

section
variable {α : Type} {d : Decoder α} {e : α → List (BitVec 8)} (f : α → α) {xs : List α}

theorem readList_refusesCuts (h : ∀ x ∈ xs, ∀ rest, d (e x ++ rest) = .ok (f x, rest))
    (c : ∀ x ∈ xs, RefusesCuts d (e x)) : RefusesCuts (readList d xs.length) (xs.flatMap e) := by
  induction xs with
  | nil => exact refusesCuts_nil _
  | cons x xs ih =>
    rw [List.length_cons, List.flatMap_cons]
    unfold readList
    exact refusesCuts_bind (h x (.head _)) (c x (.head _))
      (refusesCuts_map (ih (fun y hy => h y (.tail _ hy)) fun y hy => c y (.tail _ hy)) _)

theorem readVec_refusesCuts {size : Nat} (hsize : 0 < size) (hfit : xs.length * size ≤ maxVecSize)
    (h : ∀ x ∈ xs, ∀ rest, d (e x ++ rest) = .ok (f x, rest))
    (c : ∀ x ∈ xs, RefusesCuts d (e x)) : RefusesCuts (readVec size d) (emitVec e xs) := by
  have hlen : xs.length ≤ maxVecSize := le_trans (Nat.le_mul_of_pos_right _ hsize) hfit
  have hfit' : xs.length * size < 2 ^ 64 := by unfold maxVecSize at hfit; omega
  unfold readVec emitVec
  refine refusesCuts_bind (readVarInt_varIntBytes _) (readVarInt_refusesCuts _) ?_
  simp only [toNat_ofNat_length hlen, Nat.not_le.2 hfit', Nat.not_lt.2 hfit, if_false]
  exact readList_refusesCuts f h c

end

end RevaultNet.Consensus
