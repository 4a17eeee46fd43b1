import StatsHouse.ByteCodec
import Mathlib.Data.Fintype.Pi

/-!
# Keys of aggregated items as bytes

`MarshalAppend` writes a key into a zeroed part of a buffer: timestamp, metric, the integer
tags without the trailing zeros, and the string tags without the trailing empty ones. The
string tags are written from the position of their count byte on, so the count is
overwritten by the first of them and one zero byte is left at the end. The zero bytes alone
tell how many there are.
-/

open ByteCodec List Nat UInt8

def Key.maxTags : Nat := 48

/-- A string is its bytes. The metric and the tags are `int32`. -/
structure Key where
  timestamp : BitVec 32
  metric : BitVec 32
  tags : Fin Key.maxTags → BitVec 32
  stags : Fin Key.maxTags → List UInt8
deriving DecidableEq

namespace Key

def tag (k : Key) (i : Nat) : BitVec 32 := if h : i < maxTags then k.tags ⟨i, h⟩ else 0

def stag (k : Key) (i : Nat) : List UInt8 := if h : i < maxTags then k.stags ⟨i, h⟩ else []

/-- The loop that drops empty entries from the end. -/
def trim (empty : Nat → Bool) : Nat → Nat
  | 0 => 0
  | n + 1 => if empty n then trim empty n else n + 1

def tagsCount (k : Key) : Nat := trim (fun i => k.tag i == 0) maxTags

def stagsCount (k : Key) : Nat := trim (fun i => (k.stag i).length == 0) maxTags

def stagsSize (k : Key) : Nat :=
  (range k.stagsCount).foldl (fun size i => size + ((k.stag i).length + 1)) 0

def tagsPos : Nat := 9

def putTag (k : Key) (newKey : List UInt8) (i : Nat) : List UInt8 :=
  copyAt newKey (tagsPos + i * 4) (putUint32 (k.tag i))

/-- One turn of the string loop, with the position it has reached. -/
def putStag (k : Key) (s : List UInt8 × Nat) (i : Nat) : List UInt8 × Nat :=
  (copyAt (copyAt s.1 s.2 (k.stag i)) (s.2 + (k.stag i).length) [0], s.2 + (k.stag i).length + 1)

/-- The bytes of the new key, write by write. -/
def marshal (k : Key) : List UInt8 :=
  let newKey := replicate (4 + 4 + 1 + k.tagsCount * 4 + 1 + k.stagsSize) 0
  let newKey := copyAt newKey 0 (putUint32 k.timestamp)
  let newKey := copyAt newKey 4 (putUint32 k.metric)
  let newKey := copyAt newKey 8 [ofNat k.tagsCount]
  let newKey := (range k.tagsCount).foldl k.putTag newKey
  let newKey := copyAt newKey (tagsPos + k.tagsCount * 4) [ofNat k.stagsCount]
  ((range k.stagsCount).foldl k.putStag (newKey, tagsPos + k.tagsCount * 4)).1

def marshalAppend (k : Key) (buffer : List UInt8) : List UInt8 × List UInt8 :=
  (buffer ++ k.marshal, k.marshal)

end Key

namespace KeyEncoding

open Key
variable (k : Key)

lemma trim_le (empty : Nat → Bool) (n : Nat) : trim empty n ≤ n := by
  induction n with
  | zero => exact le_refl 0
  | succ n ih =>
    rw [trim]
    split
    · exact le_succ_of_le ih
    · exact le_refl _

lemma empty_of_trim {empty : Nat → Bool} {n i : Nat} (trimmed : trim empty n ≤ i) (hi : i < n) :
    empty i = true := by
  induction n with
  | zero => omega
  | succ n ih =>
    rw [trim] at trimmed
    split at trimmed
    · rename_i hl
      by_cases hin : i = n
      · rw [hin]
        exact hl
      · exact ih trimmed (by omega)
    · omega

/-- The integer tags that are written. -/
def writtenTags (k : Key) : List (BitVec 32) := (range k.tagsCount).map k.tag

/-- The string tags that are written. -/
def writtenStags (k : Key) : List (List UInt8) := (range k.stagsCount).map k.stag

lemma stagsSize_eq : k.stagsSize = (zeroTerminated (writtenStags k)).length := by
  have hf : ∀ (is : List Nat) size,
      is.foldl (fun size i => size + ((k.stag i).length + 1)) size =
        size + (zeroTerminated (is.map k.stag)).length := by
    intro is
    induction is with
    | nil => intro size; rfl
    | cons i is ih =>
      intro size
      rw [foldl_cons, ih]
      simp only [zeroTerminated, map_cons, flatMap_cons, length_append, length_singleton]
      omega
  rw [Key.stagsSize, hf, zero_add, writtenStags]

/-- The tag loop fills the bytes right after the part that is done. -/
lemma putTags_eq (n : Nat) (done rest : List UInt8) (hlen : done.length = tagsPos)
    (room : n * 4 ≤ rest.length) : (range n).foldl k.putTag (done ++ rest) =
      done ++ ((range n).map k.tag).flatMap putUint32 ++ rest.drop (n * 4) := by
  induction n with
  | zero => simp
  | succ n ih =>
    have hl : (done ++ ((range n).map k.tag).flatMap putUint32).length = tagsPos + n * 4 := by
      rw [length_append, hlen, length_flatMap_putUint32, length_map, length_range, mul_comm]
    rw [range_succ, foldl_append, ih (by omega), foldl_cons, foldl_nil,
      Key.putTag, copyAt_of_length hl.symm (by
        rw [length_drop, length_putUint32]
        omega)]
    simp only [length_putUint32, drop_drop, map_append, map_cons, map_nil,
      flatMap_append, flatMap_cons, flatMap_nil, append_nil,
      append_assoc]
    rw [show n * 4 + 4 = (n + 1) * 4 by omega]

/-- The string loop does the same, and its position is the end of what it has written. -/
lemma putStags_eq (n : Nat) (done rest : List UInt8)
    (room : (zeroTerminated ((range n).map k.stag)).length ≤ rest.length) :
    (range n).foldl k.putStag (done ++ rest, done.length) =
      (done ++ zeroTerminated ((range n).map k.stag) ++
        rest.drop (zeroTerminated ((range n).map k.stag)).length,
      (done ++ zeroTerminated ((range n).map k.stag)).length) := by
  induction n with
  | zero => simp [zeroTerminated]
  | succ n ih =>
    have hs : zeroTerminated ((range (n + 1)).map k.stag) =
        zeroTerminated ((range n).map k.stag) ++ k.stag n ++ [0] := by
      simp [zeroTerminated, range_succ]
    rw [hs] at room ⊢
    simp only [length_append, length_singleton] at room
    rw [range_succ, foldl_append, ih (by omega), foldl_cons, foldl_nil, Key.putStag]
    rw [copyAt_append _ _ _ (by rw [length_drop]; omega),
      copyAt_of_length (by simp only [length_append]) (by
        rw [length_drop, length_drop, length_singleton]
        omega)]
    simp [add_assoc]

/-- What the writes leave: the count byte of the string tags does not survive. -/
theorem marshal_eq :
    k.marshal = putUint32 k.timestamp ++ putUint32 k.metric ++ [ofNat k.tagsCount] ++
      (writtenTags k).flatMap putUint32 ++ zeroTerminated (writtenStags k) ++ [0] := by
  let fixed := putUint32 k.timestamp ++ putUint32 k.metric ++ [ofNat k.tagsCount]
  let numbers := (writtenTags k).flatMap putUint32
  have ha : (fixed ++ numbers).length = tagsPos + k.tagsCount * 4 := by
    rw [length_append, length_flatMap_putUint32, writtenTags, length_map, length_range, mul_comm]
    rfl
  have hf : copyAt (copyAt (copyAt (replicate (4 + 4 + 1 + k.tagsCount * 4 + 1 + k.stagsSize) 0) 0
      (putUint32 k.timestamp)) 4 (putUint32 k.metric)) 8 [ofNat k.tagsCount] =
      fixed ++ replicate (k.tagsCount * 4 + (1 + k.stagsSize)) 0 := by
    have hb : 4 + 4 + 1 + k.tagsCount * 4 + 1 + k.stagsSize =
        (putUint32 k.timestamp).length + ((putUint32 k.metric).length +
          ([ofNat k.tagsCount].length + (k.tagsCount * 4 + (1 + k.stagsSize)))) := by
      simp only [length_putUint32, length_singleton]
      omega
    rw [hb, ← nil_append (replicate _ 0), copyAt_zeros [] _ _ 0 rfl,
      copyAt_zeros _ _ _ 4 rfl, copyAt_zeros _ _ _ 8 rfl]
    rfl
  have ht : (range k.tagsCount).foldl k.putTag
      (fixed ++ replicate (k.tagsCount * 4 + (1 + k.stagsSize)) 0) =
      (fixed ++ numbers) ++ 0 :: replicate k.stagsSize 0 := by
    rw [putTags_eq k _ fixed _ rfl (by rw [length_replicate]; omega), drop_replicate,
      Nat.add_sub_cancel_left, Nat.add_comm 1, replicate_succ]
    rfl
  have hc : copyAt ((fixed ++ numbers) ++ 0 :: replicate k.stagsSize 0)
      (tagsPos + k.tagsCount * 4) [ofNat k.stagsCount] =
      (fixed ++ numbers) ++ ofNat k.stagsCount :: replicate k.stagsSize 0 := by
    rw [copyAt_of_length ha.symm (by simp)]
    simp
  have hl : (ofNat k.stagsCount :: replicate k.stagsSize 0).drop k.stagsSize = [0] := by
    by_cases hne : k.stagsCount = 0
    · have hs : k.stagsSize = 0 := by simp [Key.stagsSize, hne]
      rw [hs, hne]
      rfl
    · obtain ⟨n, hn⟩ : ∃ n, k.stagsSize = n + 1 := by
        obtain ⟨m, hm⟩ := exists_eq_succ_of_ne_zero hne
        rw [stagsSize_eq, writtenStags, hm, range_succ_eq_map]
        simp [zeroTerminated]
      rw [hn, drop_succ_cons, drop_replicate, Nat.add_sub_cancel_left]
      rfl
  rw [Key.marshal, hf, ht, hc, ← ha, putStags_eq k _ _ _ (by
    rw [length_cons, length_replicate, stagsSize_eq]
    exact le_succ _)]
  have hs : (zeroTerminated ((range k.stagsCount).map k.stag)).length = k.stagsSize :=
    (stagsSize_eq k).symm
  rw [hs, hl]
  rfl

lemma getD_map_range {α : Type} (f : Nat → α) (n i : Nat) (d : α) (hd : n ≤ i → f i = d) :
    ((range n).map f).getD i d = f i := by
  rcases lt_or_ge i n with hlt | hge
  · simp [hlt]
  · rw [hd hge]
    simp [hge]

lemma tag_eq_written (i : Nat) : k.tag i = (writtenTags k).getD i 0 := by
  symm
  apply getD_map_range
  intro hle
  by_cases hi : i < maxTags
  · simpa using empty_of_trim hle hi
  · rw [Key.tag, dif_neg hi]

lemma stag_eq_written (i : Nat) : k.stag i = (writtenStags k).getD i [] := by
  symm
  apply getD_map_range
  intro hle
  by_cases hi : i < maxTags
  · simpa using empty_of_trim hle hi
  · rw [Key.stag, dif_neg hi]

/-- A key is its timestamp, its metric and the tags that are written. -/
lemma key_ext {k₁ k₂ : Key} (ht : k₁.timestamp = k₂.timestamp) (metric : k₁.metric = k₂.metric)
    (tags : writtenTags k₁ = writtenTags k₂) (stags : writtenStags k₁ = writtenStags k₂) :
    k₁ = k₂ := by
  have ha : k₁.tags = k₂.tags := by
    funext i
    have h : k₁.tag i = k₂.tag i := by rw [tag_eq_written, tag_eq_written, tags]
    simpa [Key.tag] using h
  have hs : k₁.stags = k₂.stags := by
    funext i
    have h : k₁.stag i = k₂.stag i := by rw [stag_eq_written, stag_eq_written, stags]
    simpa [Key.stag] using h
  cases k₁
  cases k₂
  cases ht
  cases metric
  cases ha
  cases hs
  rfl

/-- No string tag has a zero byte. -/
def Clean (k : Key) : Prop := ∀ i, (0 : UInt8) ∉ k.stags i

lemma Clean.written {k : Key} (clean : Clean k) : ∀ x ∈ writtenStags k, (0 : UInt8) ∉ x := by
  intro x hx
  obtain ⟨i, -, rfl⟩ := mem_map.1 hx
  rw [Key.stag]
  split
  · exact clean _
  · exact not_mem_nil

theorem marshal_injective {k₁ k₂ : Key} (clean₁ : Clean k₁) (clean₂ : Clean k₂)
    (h : k₁.marshal = k₂.marshal) : k₁ = k₂ := by
  rw [marshal_eq, marshal_eq] at h
  have h := append_cancel_right h
  simp only [append_assoc] at h
  obtain ⟨ht, h⟩ := append_inj h rfl
  obtain ⟨hm, h⟩ := append_inj h rfl
  obtain ⟨hc, h⟩ := append_inj h rfl
  have hb : ∀ k : Key, k.tagsCount < 256 := fun k =>
    lt_of_le_of_lt (trim_le _ _) (by decide)
  have hcn' : k₁.tagsCount = k₂.tagsCount := by
    have hy := congrArg toNat (cons.inj hc).1
    rwa [toNat_ofNat_of_lt' (hb k₁), toNat_ofNat_of_lt' (hb k₂)] at hy
  obtain ⟨hg, hs⟩ := append_inj h (by
    simp only [length_flatMap_putUint32, writtenTags, length_map, hcn'])
  exact key_ext (putUint32_injective ht) (putUint32_injective hm) (flatMap_putUint32_injective hg)
    (zeroTerminated_injective clean₁.written clean₂.written hs)

end KeyEncoding
