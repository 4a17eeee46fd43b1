import Mathlib.Data.Nat.Bitwise
import Mathlib.Data.List.Basic
import Mathlib.Tactic.IntervalCases
import Mathlib.Tactic.Ring

/-!
# Little-endian words and base-128 varints over byte lists

Readers take the unread bytes and return the rest. The varint reader accepts at most
ten bytes and refuses values that need more than 64 bits; a varint cut short is told
apart from an input that ends before its first byte.
-/

namespace ByteCodec

open List UInt8
inductive ReadError where
  | eof
  | unexpectedEOF
  | overflow
deriving Repr, DecidableEq

def readByte : List UInt8 → Except ReadError (UInt8 × List UInt8)
  | [] => .error .eof
  | b :: r => .ok (b, r)

/-- Fill a reused four-byte scratch area from what is left. A short read overwrites
only the first bytes of the area and is not an error. -/
def readInto (tmp : List UInt8) : List UInt8 → Except ReadError (List UInt8 × List UInt8)
  | [] => .error .eof
  | b :: r => .ok ((b :: r).take 4 ++ tmp.drop ((b :: r).take 4).length, (b :: r).drop 4)

def byteOf (x : BitVec 32) (k : Nat) : UInt8 := ofBitVec (x.extractLsb' (8 * k) 8)

def putUint32 (x : BitVec 32) : List UInt8 := [byteOf x 0, byteOf x 1, byteOf x 2, byteOf x 3]

def uint32 (b : List UInt8) : BitVec 32 :=
  (b.getD 0 0).toBitVec.setWidth 32 ||| ((b.getD 1 0).toBitVec.setWidth 32 <<< 8) |||
    ((b.getD 2 0).toBitVec.setWidth 32 <<< 16) ||| ((b.getD 3 0).toBitVec.setWidth 32 <<< 24)

def putUint64 (x : BitVec 64) : List UInt8 :=
  putUint32 (x.extractLsb' 0 32) ++ putUint32 (x.extractLsb' 32 32)

def uint64 (b : List UInt8) : BitVec 64 := uint32 (b.drop 4) ++ uint32 b

def maxVarintLen64 : Nat := 10

def putUvarintLoop : Nat → Nat → List UInt8
  | 0, _ => []
  | fuel + 1, x =>
    if x < 128 then [ofNat x]
    else ofNat (x % 128 + 128) :: putUvarintLoop fuel (x / 128)

def putUvarint (x : Nat) : List UInt8 := putUvarintLoop maxVarintLen64 x

/-- `left` bytes may still be read, `shift` is seven times the number already read. -/
def readUvarintLoop : Nat → Nat → Nat → List UInt8 → Except ReadError (Nat × List UInt8)
  | 0, _, _, _ => .error .overflow
  | _ + 1, _, shift, [] => .error (if shift = 0 then .eof else .unexpectedEOF)
  | left + 1, x, shift, b :: r =>
    if b < 128 then
      if left = 0 ∧ 1 < b then .error .overflow
      else .ok (x ||| (b.toNat <<< shift), r)
    else readUvarintLoop left (x ||| ((b.toNat % 128) <<< shift)) (shift + 7) r

def readUvarint (r : List UInt8) : Except ReadError (Nat × List UInt8) :=
  readUvarintLoop maxVarintLen64 0 0 r

@[simp]
lemma length_putUint32 (x : BitVec 32) : (putUint32 x).length = 4 := rfl

lemma length_flatMap_putUint32 (xs : List (BitVec 32)) :
    (xs.flatMap putUint32).length = 4 * xs.length := by
  induction xs with
  | nil => rfl
  | cons x xs ih =>
    rw [flatMap_cons, length_append, ih, length_putUint32, length_cons]
    omega

theorem uint32_putUint32 (x : BitVec 32) : uint32 (putUint32 x) = x := by
  apply BitVec.eq_of_getLsbD_eq
  intro i hi
  simp only [uint32, putUint32, byteOf]
  interval_cases i <;> simp

lemma uint64_putUint64 (x : BitVec 64) (rest : List UInt8) : uint64 (putUint64 x ++ rest) = x := by
  have hl : uint32 (putUint64 x ++ rest) = x.extractLsb' 0 32 := uint32_putUint32 _
  have hhi : uint32 ((putUint64 x ++ rest).drop 4) = x.extractLsb' 32 32 := uint32_putUint32 _
  rw [uint64, hl, hhi]
  apply BitVec.eq_of_getLsbD_eq
  intro i hi
  simp only [BitVec.getLsbD_append, BitVec.getLsbD_extractLsb']
  split_ifs with hlt
  · simp [hlt]
  · rw [decide_eq_true (by omega), Bool.true_and]
    congr 1
    omega

theorem putUint32_injective {x y : BitVec 32} (h : putUint32 x = putUint32 y) : x = y := by
  rw [← uint32_putUint32 x, h, uint32_putUint32]

lemma putUint32_uint32 {b : List UInt8} (h : b.length = 4) : putUint32 (uint32 b) = b := by
  obtain ⟨b₀, b₁, b₂, b₃, rfl⟩ := length_eq_four.1 h
  simp only [putUint32, cons.injEq, and_true]
  refine ⟨?_, ?_, ?_, ?_⟩ <;>
  · apply UInt8.toBitVec_inj.1
    apply BitVec.eq_of_getLsbD_eq
    intro i hi
    simp only [byteOf, uint32]
    interval_cases i <;> simp

lemma flatMap_putUint32_injective {xs ys : List (BitVec 32)}
    (h : xs.flatMap putUint32 = ys.flatMap putUint32) : xs = ys := by
  induction xs generalizing ys with
  | nil =>
    cases ys with
    | nil => rfl
    | cons y ys => cases h
  | cons x xs ih =>
    cases ys with
    | nil => cases h
    | cons y ys =>
      obtain ⟨hh, ht⟩ := append_inj h rfl
      rw [putUint32_injective hh, ih ht]

lemma or_shift {x v s : Nat} (hx : x < 2 ^ s) : x ||| (v <<< s) = x + v * 2 ^ s := by
  rw [Nat.or_comm, ← Nat.shiftLeft_add_eq_or_of_lt hx, Nat.shiftLeft_eq, Nat.add_comm]

lemma lastByte {v : Nat} (h : v < 128) : ofNat v < 128 ∧ (ofNat v).toNat = v := by
  have hv : (ofNat v).toNat = v := by
    simp only [toNat_ofNat']
    omega
  refine ⟨?_, hv⟩
  rw [lt_iff_toNat_lt, hv]
  exact h

/-- A byte that announces another one has its top bit set. -/
lemma contByte (v : Nat) : ¬ ofNat (v % 128 + 128) < 128 ∧
      (ofNat (v % 128 + 128)).toNat = v % 128 + 128 := by
  have hv : (ofNat (v % 128 + 128)).toNat = v % 128 + 128 := by
    simp only [toNat_ofNat']
    omega
  refine ⟨?_, hv⟩
  rw [lt_iff_toNat_lt, hv]
  have : (128 : UInt8).toNat = 128 := rfl
  omega

/-- Reading what the writer emits for `v` on top of `x` gives `x + v * 2 ^ shift`. -/
lemma readUvarintLoop_put (left v x shift : Nat) (rest : List UInt8) (hx : x < 2 ^ shift)
    (total : shift + 7 * left = 70) (hv : v * 2 ^ shift < 2 ^ 64) (hpos : 0 < left) :
    readUvarintLoop left x shift (putUvarintLoop left v ++ rest) =
      .ok (x + v * 2 ^ shift, rest) := by
  induction left generalizing v x shift with
  | zero => omega
  | succ left ih =>
    by_cases hs : v < 128
    · obtain ⟨hb, ha⟩ := lastByte hs
      have hl : ¬(left = 0 ∧ 1 < ofNat v) := by
        rintro ⟨rfl, hgt⟩
        rw [lt_iff_toNat_lt, ha] at hgt
        have : shift = 63 := by omega
        subst shift
        have : (1 : UInt8).toNat = 1 := rfl
        omega
      simp [putUvarintLoop, hs, readUvarintLoop, hb, if_neg hl, ha, or_shift hx]
    · obtain ⟨hb, ha⟩ := contByte v
      have hw : (v % 128 + 128) % 128 = v % 128 := by omega
      have hd := Nat.div_add_mod v 128
      have hp : 2 ^ (shift + 7) = 128 * 2 ^ shift := by
        rw [Nat.pow_add]
        omega
      have hc : 0 < left := by
        by_contra hn
        have : shift = 63 := by omega
        subst shift
        omega
      simp only [putUvarintLoop, hs, if_false, cons_append, readUvarintLoop, hb, ha,
        hw, or_shift hx]
      rw [ih (v / 128) (x + v % 128 * 2 ^ shift) (shift + 7) ?_ (by omega) ?_ hc]
      · have hu : x + v % 128 * 2 ^ shift + v / 128 * 2 ^ (shift + 7) = x + v * 2 ^ shift := by
          rw [hp]
          calc x + v % 128 * 2 ^ shift + v / 128 * (128 * 2 ^ shift)
              = x + (128 * (v / 128) + v % 128) * 2 ^ shift := by ring
            _ = x + v * 2 ^ shift := by rw [hd]
        rw [hu]
      · rw [hp]
        have : v % 128 * 2 ^ shift ≤ 127 * 2 ^ shift := Nat.mul_le_mul_right _ (by omega)
        omega
      · rw [hp]
        calc v / 128 * (128 * 2 ^ shift) = (128 * (v / 128)) * 2 ^ shift := by ring
          _ ≤ v * 2 ^ shift := Nat.mul_le_mul_right _ (by omega)
          _ < 2 ^ 64 := hv

/-- Every 64-bit value survives the varint round trip, whatever follows it. -/
theorem readUvarint_putUvarint (v : Nat) (hv : v < 2 ^ 64) (rest : List UInt8) :
    readUvarint (putUvarint v ++ rest) = .ok (v, rest) := by
  have h := readUvarintLoop_put maxVarintLen64 v 0 0 rest (by simp) (by simp [maxVarintLen64])
    (by simpa using hv) (by simp [maxVarintLen64])
  simpa [readUvarint, putUvarint] using h

/-- Overwrite the bytes from `pos` on. -/
def copyAt (buf : List UInt8) (pos : Nat) : List UInt8 → List UInt8
  | [] => buf
  | b :: bs => copyAt (buf.set pos b) (pos + 1) bs

/-- Bytes copied right after a finished part replace as many of the bytes behind it. -/
lemma copyAt_append (done rest bs : List UInt8) (room : bs.length ≤ rest.length) :
    copyAt (done ++ rest) done.length bs = done ++ bs ++ rest.drop bs.length := by
  induction bs generalizing done rest with
  | nil => simp [copyAt]
  | cons b bs ih =>
    cases rest with
    | nil => simp at room
    | cons r rest =>
      have hs : (done ++ r :: rest).set done.length b = (done ++ [b]) ++ rest := by
        simp
      have hl : done.length + 1 = (done ++ [b]).length := by simp
      rw [copyAt, hs, hl, ih (done ++ [b]) rest (by simpa using room)]
      simp

lemma copyAt_of_length {done rest bs : List UInt8} {pos : Nat} (place : pos = done.length)
    (room : bs.length ≤ rest.length) :
    copyAt (done ++ rest) pos bs = done ++ bs ++ rest.drop bs.length := by
  subst place
  exact copyAt_append done rest bs room

lemma copyAt_zeros (done bs : List UInt8) (room pos : Nat) (place : pos = done.length) :
    copyAt (done ++ List.replicate (bs.length + room) 0) pos bs =
      (done ++ bs) ++ List.replicate room 0 := by
  rw [copyAt_of_length place (by rw [length_replicate]; omega), drop_replicate,
    Nat.add_sub_cancel_left]

/-- Strings, each closed by a zero byte. -/
def zeroTerminated (xs : List (List UInt8)) : List UInt8 := xs.flatMap (· ++ [0])

lemma append_zero_injective {x y r r' : List UInt8} (hx : (0 : UInt8) ∉ x)
    (hy : (0 : UInt8) ∉ y) (h : x ++ 0 :: r = y ++ 0 :: r') : x = y ∧ r = r' := by
  induction x generalizing y with
  | nil =>
    cases y with
    | nil => exact ⟨rfl, (cons.inj h).2⟩
    | cons b y => exact absurd ((cons.inj h).1 ▸ (.head _)) hy
  | cons a x ih =>
    cases y with
    | nil => exact absurd ((cons.inj h).1 ▸ (.head _)) hx
    | cons b y =>
      obtain ⟨rfl, ht⟩ := cons.inj h
      obtain ⟨rfl, hr⟩ := ih (fun hm => hx (.tail _ hm))
        (fun hm => hy (.tail _ hm)) ht
      exact ⟨rfl, hr⟩

/-- The terminators alone separate strings that have no zero byte. -/
theorem zeroTerminated_injective {xs ys : List (List UInt8)} (hx : ∀ x ∈ xs, (0 : UInt8) ∉ x)
    (hy : ∀ y ∈ ys, (0 : UInt8) ∉ y) (h : zeroTerminated xs = zeroTerminated ys) : xs = ys := by
  induction xs generalizing ys with
  | nil =>
    cases ys with
    | nil => rfl
    | cons y ys => simp [zeroTerminated] at h
  | cons x xs ih =>
    cases ys with
    | nil => simp [zeroTerminated] at h
    | cons y ys =>
      have hs : x ++ 0 :: zeroTerminated xs = y ++ 0 :: zeroTerminated ys := by
        simpa [zeroTerminated] using h
      obtain ⟨rfl, ht⟩ := append_zero_injective (hx x (.head _)) (hy y (.head _)) hs
      rw [ih (fun z hz => hx z (.tail _ hz))
        (fun z hz => hy z (.tail _ hz)) ht]

end ByteCodec
