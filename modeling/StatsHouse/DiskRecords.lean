import StatsHouse.DiskCache

/-!
# Files of the disk cache as lists of records

The bytes of a file the cache wrote are the records of its buckets, one after the other, and
stay so when a bucket is appended or erased. The tail reader's checks accept each record.
-/

namespace DiskCache

open ByteCodec TLCodec List ChunkedStorage
variable {records : List Record} {pos : Nat} {r : Record}

/-- What the cache keeps of a bucket. The number tells it from other buckets with the same
second and the same bytes; it is not on disk. -/
structure Record where
  number : Nat
  erased : Bool
  time : BitVec 32
  data : List UInt8
  fits : data.length ≤ maxChunkSize

namespace Record

def magic (r : Record) : BitVec 32 := if r.erased then magicDeletedBucket else magicGoodBucket

def size (r : Record) : Nat := headerSize + r.data.length

def erase (r : Record) : Record := { r with erased := true }

variable (crc32c : List UInt8 → BitVec 32)

def header (r : Record) : List UInt8 :=
  DiskCache.header r.magic r.time r.data.length (crc32c r.data)

def bytes (r : Record) : List UInt8 := r.header crc32c ++ r.data

end Record

lemma length_header (magic time : BitVec 32) (size : Nat) (crc : BitVec 32) :
    (header magic time size crc).length = headerSize := by
  simp [header, headerSize]

/-- Room the records take in a file. -/
def extent (records : List Record) : Nat := (records.map Record.size).sum

@[simp]
lemma extent_nil : extent [] = 0 := rfl

@[simp]
lemma extent_cons (r : Record) (records : List Record) :
    extent (r :: records) = r.size + extent records := rfl

@[simp]
lemma extent_append (xs ys : List Record) : extent (xs ++ ys) = extent xs + extent ys := by
  simp [extent]

def contents (crc32c : List UInt8 → BitVec 32) (records : List Record) : List UInt8 :=
  records.flatMap (Record.bytes crc32c)

section Contents

variable {crc32c : List UInt8 → BitVec 32} (r : Record)

lemma length_bytes : (r.bytes crc32c).length = r.size := by
  rw [Record.bytes, length_append, Record.header, length_header, Record.size]

@[simp]
lemma length_contents (records : List Record) :
    (contents crc32c records).length = extent records := by
  induction records with
  | nil => rfl
  | cons r records ih =>
    rw [contents, flatMap_cons, length_append, length_bytes, extent_cons]
    exact congrArg _ ih

lemma contents_append (xs ys : List Record) :
    contents crc32c (xs ++ ys) = contents crc32c xs ++ contents crc32c ys :=
  flatMap_append

lemma contents_cons (records : List Record) :
    contents crc32c (r :: records) = r.header crc32c ++ (r.data ++ contents crc32c records) := by
  rfl

variable (before after : List Record)

/-- The bytes from a record's position on. -/
lemma drop_contents (r : Record) :
    (contents crc32c (before ++ r :: after)).drop (extent before) =
      r.header crc32c ++ (r.data ++ contents crc32c after) := by
  rw [contents_append, contents_cons]
  exact drop_left' (length_contents before)

lemma readAt_header (r : Record) :
    readAt (contents crc32c (before ++ r :: after)) (extent before) headerSize = r.header crc32c :=
  readAt_append (drop_contents before after r) (length_header ..)

lemma readAt_data (r : Record) :
    readAt (contents crc32c (before ++ r :: after)) (extent before + headerSize)
      r.data.length = r.data := by
  have hb : (contents crc32c (before ++ r :: after)).drop (extent before + headerSize) =
      r.data ++ contents crc32c after := by
    rw [← drop_drop, drop_contents]
    exact drop_left' (length_header ..)
  exact readAt_append hb rfl

lemma writeAt_end (file data : List UInt8) : writeAt file file.length data = file ++ data := by
  rw [writeAt_of_le le_rfl, take_length, drop_eq_nil_of_le (Nat.le_add_right ..), append_nil]

/-- Overwriting the magic word turns a record into its erased form. -/
lemma writeAt_magic (r : Record) :
    writeAt (contents crc32c (before ++ r :: after)) (extent before)
      (putUint32 magicDeletedBucket) = contents crc32c (before ++ r.erase :: after) := by
  have hle : extent before ≤ (contents crc32c (before ++ r :: after)).length := by
    rw [length_contents, extent_append]
    omega
  rw [writeAt_of_le hle, ← drop_drop, drop_contents]
  have hd : (r.header crc32c ++ (r.data ++ contents crc32c after)).drop
      (putUint32 magicDeletedBucket).length =
      putUint32 r.time ++ leBytes 8 r.data.length ++ putUint32 (crc32c r.data) ++
        (r.data ++ contents crc32c after) := by
    simp only [Record.header, header, append_assoc]
    exact drop_left' rfl
  have ht : (contents crc32c (before ++ r :: after)).take (extent before) =
      contents crc32c before := by
    rw [contents_append]
    exact take_left' (length_contents before)
  rw [hd, ht, contents_append, contents_cons]
  simp [Record.header, header, Record.magic, Record.erase]

lemma uint32_at {xs ys : List UInt8} {n : Nat} (x : BitVec 32) (h : xs.length = n) :
    uint32 (((xs ++ (putUint32 x ++ ys)).drop n).take 4) = x := by
  rw [drop_left' h, take_left' (length_putUint32 x), uint32_putUint32]

lemma header_magic : uint32 ((r.header crc32c).take 4) = r.magic := by
  simp only [Record.header, header, append_assoc]
  rw [take_left' (length_putUint32 _), uint32_putUint32]

lemma header_time : uint32 (((r.header crc32c).drop 4).take 4) = r.time := by
  simp only [Record.header, header, append_assoc]
  exact uint32_at r.time (length_putUint32 _)

lemma header_crc : uint32 (((r.header crc32c).drop 16).take 4) = crc32c r.data := by
  have hf : (putUint32 r.magic ++ putUint32 r.time ++ leBytes 8 r.data.length).length = 16 := by
    simp
  rw [Record.header, header, drop_left' hf,
    take_of_length_le (length_putUint32 _).le, uint32_putUint32]

lemma header_size :
    (BitVec.ofNat 64 (leNat (((r.header crc32c).drop 8).take 8))).toInt = r.data.length := by
  have hw : ((r.header crc32c).drop 8).take 8 = leBytes 8 r.data.length := by
    have hr : (putUint32 r.magic ++ putUint32 r.time).length = 8 := by simp
    exact take_left' (length_leBytes 8 _)
  have hf : r.data.length < 2 ^ 63 := r.fits.trans_lt (by decide)
  rw [hw, leNat_leBytes (hf.trans (by decide)), BitVec.toInt_eq_toNat_cond, BitVec.toNat_ofNat]
  omega

end Contents

/-- The record starts at byte `pos` of the file. -/
def At (records : List Record) (pos : Nat) (r : Record) : Prop :=
  ∃ before after, records = before ++ r :: after ∧ extent before = pos

lemma not_at_nil : ¬ At [] pos r := by
  rintro ⟨before, after, h, -⟩
  simp at h

lemma at_cons {x : Record} : At (x :: records) pos r ↔
      pos = 0 ∧ r = x ∨ ∃ pos', pos = x.size + pos' ∧ At records pos' r := by
  constructor
  · rintro ⟨before, after, heq, rfl⟩
    cases before with
    | nil =>
      obtain ⟨rfl, rfl⟩ := cons.inj heq
      exact .inl ⟨rfl, rfl⟩
    | cons y before =>
      obtain ⟨rfl, rfl⟩ := cons.inj heq
      exact .inr ⟨_, rfl, before, after, rfl, rfl⟩
  · rintro (⟨rfl, rfl⟩ | ⟨pos', rfl, before, after, rfl, rfl⟩)
    · exact ⟨[], records, rfl, rfl⟩
    · exact ⟨x :: before, after, rfl, rfl⟩

lemma at_append {xs ys : List Record} :
    At (xs ++ ys) pos r ↔ At xs pos r ∨ ∃ pos', pos = extent xs + pos' ∧ At ys pos' r := by
  induction xs generalizing pos with
  | nil => simp [not_at_nil]
  | cons x xs ih =>
    simp only [cons_append, at_cons, ih, extent_cons]
    constructor
    · rintro (h | ⟨pos', rfl, h | ⟨pos'', rfl, h⟩⟩)
      · exact .inl (.inl h)
      · exact .inl (.inr ⟨pos', rfl, h⟩)
      · exact .inr ⟨pos'', by omega, h⟩
    · rintro ((h | ⟨pos', rfl, h⟩) | ⟨pos', rfl, h⟩)
      · exact .inl h
      · exact .inr ⟨pos', rfl, .inl h⟩
      · exact .inr ⟨extent xs + pos', by omega, .inr ⟨pos', rfl, h⟩⟩

section

variable (h : At records pos r)
include h

lemma At.add_size_le : pos + r.size ≤ extent records := by
  obtain ⟨before, after, rfl, rfl⟩ := h
  simp only [extent_append, extent_cons]
  omega

lemma At.lt : pos < extent records := by
  have := h.add_size_le
  simp only [Record.size, headerSize] at this
  omega

lemma At.unique {r' : Record} (h' : At records pos r') : r = r' := by
  induction records generalizing pos with
  | nil => exact absurd h not_at_nil
  | cons x records ih =>
    have hx : 0 < x.size := by
      simp only [Record.size, headerSize]
      omega
    rcases at_cons.1 h with ⟨h0, rfl⟩ | ⟨q, hq, h⟩ <;>
      rcases at_cons.1 h' with ⟨h0', rfl⟩ | ⟨q', hq', h'⟩
    · rfl
    · omega
    · omega
    · obtain rfl : q = q' := by omega
      exact ih h h'

lemma At.disjoint {pos' : Nat} {r' : Record} (h' : At records pos' r') (lt : pos < pos') :
    pos + r.size ≤ pos' := by
  induction records generalizing pos pos' with
  | nil => exact absurd h not_at_nil
  | cons x records ih =>
    rcases at_cons.1 h with ⟨rfl, rfl⟩ | ⟨q, rfl, hq⟩ <;>
      rcases at_cons.1 h' with ⟨rfl, rfl⟩ | ⟨q', rfl, hq'⟩
    · omega
    · omega
    · omega
    · have := ih hq hq' (by omega)
      omega

end

/-- A record starts at `pos`, or the file ends there. -/
def Boundary (records : List Record) (pos : Nat) : Prop :=
  pos = extent records ∨ ∃ r, At records pos r

lemma boundary_zero (records : List Record) : Boundary records 0 := by
  cases records with
  | nil => exact .inl rfl
  | cons r records => exact .inr ⟨r, [], records, rfl, rfl⟩

lemma At.next (h : At records pos r) : Boundary records (pos + r.size) := by
  obtain ⟨before, after, rfl, rfl⟩ := h
  cases after with
  | nil =>
    refine .inl ?_
    simp only [extent_append, extent_cons, extent_nil]
    omega
  | cons x after =>
    refine .inr ⟨x, before ++ [r], after, by simp, ?_⟩
    simp only [extent_append, extent_cons, extent_nil]
    omega

lemma at_concat {x : Record} :
    At (records ++ [x]) pos r ↔ At records pos r ∨ pos = extent records ∧ r = x := by
  simp [at_append, at_cons, not_at_nil]

/-- Erasing one record changes what is there and nothing else. -/
lemma at_erase {before after : List Record} {x : Record} : At (before ++ x.erase :: after) pos r ↔
      pos = extent before ∧ r = x.erase ∨
        pos ≠ extent before ∧ At (before ++ x :: after) pos r := by
  have hx : 0 < x.size := by
    simp only [Record.size, headerSize]
    omega
  have hs : x.erase.size = x.size := rfl
  simp only [at_append, at_cons]
  constructor
  · rintro (h | ⟨q, rfl, ⟨rfl, rfl⟩ | ⟨q', rfl, h⟩⟩)
    · have := h.lt
      exact .inr ⟨by omega, .inl h⟩
    · exact .inl ⟨rfl, rfl⟩
    · exact .inr ⟨by omega, .inr ⟨_, rfl, .inr ⟨q', rfl, h⟩⟩⟩
  · rintro (⟨rfl, rfl⟩ | ⟨hne, h | ⟨q, rfl, ⟨rfl, rfl⟩ | ⟨q', rfl, h⟩⟩⟩)
    · exact .inr ⟨0, rfl, .inl ⟨rfl, rfl⟩⟩
    · exact .inl h
    · exact absurd rfl hne
    · exact .inr ⟨_, rfl, .inr ⟨q', rfl, h⟩⟩

end DiskCache
