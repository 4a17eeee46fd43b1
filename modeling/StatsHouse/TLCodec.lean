import StatsHouse.ByteCodec

/-!
# The TL1 wire format: numbers, padded strings and vectors

A string is its length, its bytes and zeros up to a multiple of four. Short strings have a
length of one byte, longer ones a marker and three or seven bytes.
-/

namespace TLCodec

open ByteCodec List

universe u

/-- The `n` low bytes of a number, lowest first. -/
def leBytes : Nat → Nat → List UInt8
  | 0, _ => []
  | n + 1, x => UInt8.ofNat x :: leBytes n (x / 256)

def leNat : List UInt8 → Nat
  | [] => 0
  | b :: bs => b.toNat + 256 * leNat bs

@[simp] lemma length_leBytes (n x : Nat) : (leBytes n x).length = n := by
  induction n generalizing x with
  | zero => rfl
  | succ n ih => rw [leBytes, length_cons, ih]

lemma leNat_leBytes {n x : Nat} (h : x < 256 ^ n) : leNat (leBytes n x) = x := by
  induction n generalizing x with
  | zero =>
    exact (Nat.lt_one_iff.1 h).symm
  | succ n ih =>
    have hd : x / 256 < 256 ^ n := by
      exact Nat.div_lt_of_lt_mul (by omega)
    rw [leBytes, leNat, ih hd, UInt8.toNat_ofNat']
    exact Nat.mod_add_div x 256

lemma leBytes_leNat {n : Nat} {bs : List UInt8} (h : bs.length = n) :
    leBytes n (leNat bs) = bs := by
  induction bs generalizing n with
  | nil => cases h; rfl
  | cons b bs ih =>
    cases h
    have hb := b.toNat_lt
    have hd : (b.toNat + 256 * leNat bs) / 256 = leNat bs := by omega
    have hl : UInt8.ofNat (b.toNat + 256 * leNat bs) = b := by
      apply UInt8.toNat_inj.1
      rw [UInt8.toNat_ofNat']
      omega
    rw [length_cons, leNat, leBytes, hd, hl, ih rfl]

lemma leNat_lt {n : Nat} {bs : List UInt8} (h : bs.length = n) : leNat bs < 256 ^ n := by
  induction bs generalizing n with
  | nil => cases h; decide
  | cons b bs ih =>
    cases h
    have hb := b.toNat_lt
    have hr := ih rfl
    rw [leNat, length_cons, pow_succ]
    omega

def natWrite (v : BitVec 32) : List UInt8 := putUint32 v

def tinyStringLen : Nat := 253

def maxMediumStringLen : Nat := 2 ^ 24 - 1

def paddingLen (p : Nat) : Nat := (4 - p % 4) % 4

/-- The bytes of a length and the length that has to be padded. -/
def stringWriteLen (l : Nat) : List UInt8 × Nat :=
  if l ≤ tinyStringLen then ([UInt8.ofNat l], l + 1)
  else if l ≤ maxMediumStringLen then (254 :: leBytes 3 l, l)
  else (255 :: leBytes 7 l, l)

def stringWritePadding (p : Nat) : List UInt8 :=
  if p % 4 = 1 then [0, 0, 0] else if p % 4 = 2 then [0, 0] else if p % 4 = 3 then [0] else []

def stringWrite (v : List UInt8) : List UInt8 :=
  (stringWriteLen v.length).1 ++ v ++ stringWritePadding (stringWriteLen v.length).2

lemma stringWritePadding_eq (p : Nat) : stringWritePadding p = replicate (paddingLen p) 0 := by
  have hlt : p % 4 < 4 := Nat.mod_lt p (by decide)
  rw [stringWritePadding, paddingLen]
  interval_cases p % 4 <;> rfl

/-- A short string takes its length byte and its bytes, rounded up to four. -/
lemma length_stringWrite {v : List UInt8} (hv : v.length ≤ tinyStringLen) :
    (stringWrite v).length = v.length + 1 + paddingLen (v.length + 1) := by
  rw [stringWrite, stringWriteLen, if_pos hv, stringWritePadding_eq]
  simp only [length_append, length_singleton, length_replicate]
  omega

inductive StringError
  | unexpectedEOF
  | nonCanonicalMedium (l : Nat)
  | nonCanonicalHuge (l : Nat)
  | badPadding

/-- The string and the bytes after it. -/
abbrev StringResult := Except StringError (List UInt8 × List UInt8)

def stringReadBody (l p : Nat) (r : List UInt8) : StringResult :=
  if r.length < l + paddingLen p then .error .unexpectedEOF
  else if (r.drop l).take (paddingLen p) ≠ replicate (paddingLen p) 0 then .error .badPadding
  else .ok (r.take l, r.drop (l + paddingLen p))

/-- A length of `n` bytes that has to be above `low`. -/
def stringReadLong (n low : Nat) (error : Nat → StringError) (r : List UInt8) :
    StringResult :=
  if r.length < n then .error .unexpectedEOF
  else
    let l := leNat (r.take n)
    if l ≤ low then .error (error l) else stringReadBody l l (r.drop n)

def stringRead : List UInt8 → StringResult
  | [] => .error .unexpectedEOF
  | b0 :: r =>
    if b0.toNat ≤ tinyStringLen then stringReadBody b0.toNat (b0.toNat + 1) r
    else if b0 = 254 then stringReadLong 3 tinyStringLen .nonCanonicalMedium r
    else stringReadLong 7 maxMediumStringLen .nonCanonicalHuge r

variable {r v rest : List UInt8}

lemma stringReadBody_eq_ok {l p : Nat} : stringReadBody l p r = .ok (v, rest) ↔
    l = v.length ∧ r = v ++ (replicate (paddingLen p) 0 ++ rest) := by
  rw [stringReadBody]
  constructor
  · intro h
    split_ifs at h with hl hz
    cases h
    rw [← not_not.1 hz, ← drop_drop, take_append_drop, take_append_drop, length_take]
    exact ⟨by omega, rfl⟩
  · rintro ⟨rfl, rfl⟩
    simp

lemma stringReadLong_eq_ok {n low : Nat} {error : Nat → StringError} :
    stringReadLong n low error r = .ok (v, rest) ↔ low < v.length ∧ v.length < 256 ^ n ∧
      r = leBytes n v.length ++ (v ++ (replicate (paddingLen v.length) 0 ++ rest)) := by
  simp only [stringReadLong]
  constructor
  · intro h
    split_ifs at h with hn hlow
    obtain ⟨hl, hr⟩ := stringReadBody_eq_ok.1 h
    have ht : (r.take n).length = n := by simp; omega
    rw [← hl]
    exact ⟨by omega, leNat_lt ht, by rw [leBytes_leNat ht, ← hr, take_append_drop]⟩
  · rintro ⟨hlow, hn, rfl⟩
    rw [take_left' (length_leBytes ..), drop_left' (length_leBytes ..), leNat_leBytes hn,
      if_neg (by simp), if_neg (by omega), stringReadBody_eq_ok]
    exact ⟨rfl, rfl⟩

/-- A string is read back as it was written, and only what is written so is accepted. -/
theorem stringRead_eq_ok_iff (w : List UInt8) :
    stringRead w = .ok (v, rest) ↔ v.length < 2 ^ 56 ∧ w = stringWrite v ++ rest := by
  rw [stringWrite, stringWriteLen, stringWritePadding_eq]
  cases w with
  | nil => split_ifs <;> simp [stringRead]
  | cons b r =>
    have hb := b.toNat_lt
    rw [stringRead, tinyStringLen, maxMediumStringLen]
    split_ifs <;> simp only [stringReadBody_eq_ok, stringReadLong_eq_ok, cons_append, nil_append,
      append_assoc, cons.injEq, ← UInt8.toNat_inj, UInt8.toNat_ofNat'] at *
    all_goals grind

section Vectors

variable {α : Type u} (write : α → List UInt8)

def vectorWrite (xs : List α) : List UInt8 :=
  natWrite (BitVec.ofNat 32 xs.length) ++ xs.flatMap write

end Vectors

end TLCodec
