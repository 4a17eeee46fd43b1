import StatsHouse.KeyEncoding
import StatsHouse.TLCodec

/-!
# Keys on their way from the agent to the aggregator

The agent sends a key without its trailing empty tags and without a timestamp that is the
one of the bucket. The aggregator restores metric, integer tags and timestamp at once, and
leaves the string tags in the received item until it has tried to map them. The agent also
estimates the size of a key without writing it.
-/

open ByteCodec TLCodec List

/-- The part of `tlstatshouse.MultiItem` that holds the key. -/
structure TLMultiItem where
  fieldsMask : BitVec 32 := 0
  metric : BitVec 32
  keys : List (BitVec 32)
  skeys : List (List UInt8) := []
  t : BitVec 32 := 0
deriving DecidableEq

namespace TLMultiItem

def setSkeys (item : TLMultiItem) (v : List (List UInt8)) : TLMultiItem :=
  { item with skeys := v, fieldsMask := item.fieldsMask ||| 1 <<< 12 }

def isSetSkeys (item : TLMultiItem) : Bool := item.fieldsMask.getLsbD 12

def setT (item : TLMultiItem) (v : BitVec 32) : TLMultiItem :=
  { item with t := v, fieldsMask := item.fieldsMask ||| 1 <<< 10 }

def isSetT (item : TLMultiItem) : Bool := item.fieldsMask.getLsbD 10

/-- The value follows the key as `tail`. -/
def writeTL1 (item : TLMultiItem) (tail : List UInt8) : List UInt8 :=
  natWrite item.fieldsMask ++ (natWrite item.metric ++ (vectorWrite natWrite item.keys ++
    ((if item.isSetSkeys then vectorWrite stringWrite item.skeys else []) ++
      ((if item.isSetT then natWrite item.t else []) ++ tail))))

end TLMultiItem

def believeTimestampWindow : Int := 86400 + 2 * 3600

inductive IngestionWarning where
  | timestampClampedFutureAgg
  | timestampClampedPast
deriving DecidableEq

namespace Key

def tagSlice (k : Key) : List (BitVec 32) := (List.range k.tagsCount).map k.tag

def stagSlice (k : Key) : List (List UInt8) := (List.range k.stagsCount).map k.stag

def tlMultiItemFromKey (k : Key) (defaultTimestamp : BitVec 32) : TLMultiItem :=
  let item : TLMultiItem := { metric := k.metric, keys := k.tagSlice }
  let item := if k.stagSlice.length > 0 then item.setSkeys k.stagSlice else item
  if k.timestamp ≠ 0 ∧ k.timestamp ≠ defaultTimestamp then item.setT k.timestamp else item

/-- The loop over the string tags, from the last one down. -/
def stagsSizeEstimate (k : Key) : Nat → Nat
  | 0 => 0
  | i + 1 =>
    let l := 1 + (k.stag i).length
    l + (4 - l % 4) % 4 + stagsSizeEstimate k i

def tlSizeEstimate (k : Key) (defaultTimestamp : BitVec 32) : Nat :=
  let sz := 4 + (4 + 4 + 4 * k.tagsCount)
  let sz := if k.stagsCount > 0 then sz + (4 + k.stagsSizeEstimate k.stagsCount) else sz
  if k.timestamp ≠ 0 ∧ k.timestamp ≠ defaultTimestamp then sz + 4 else sz

def keyFromStatshouseMultiItem (item : TLMultiItem) (bucketTimestamp : BitVec 32) :
    Key × Option IngestionWarning :=
  let (timestamp, warning) :=
    if item.isSetT then
      if (item.t.toNat : Int) > bucketTimestamp.toNat then
        (bucketTimestamp, some IngestionWarning.timestampClampedFutureAgg)
      else if (item.t.toNat : Int) < bucketTimestamp.toNat - believeTimestampWindow then
        (bucketTimestamp, some .timestampClampedPast)
      else (item.t, none)
    else (bucketTimestamp, none)
  (⟨timestamp, item.metric, fun i => item.keys.getD i 0, fun _ => []⟩, warning)

end Key

namespace KeyTransfer

open Key KeyEncoding TLMultiItem
variable {d : BitVec 32} {k : Key} {item : TLMultiItem}

lemma length_tagSlice (k : Key) : k.tagSlice.length = k.tagsCount := by
  simp [tagSlice]

/-- What the item holds, and which of its optional fields are marked. -/
structure HoldsKey (k : Key) (d : BitVec 32) (item : TLMultiItem) : Prop where
  metric : item.metric = k.metric
  keys : item.keys = k.tagSlice
  skeys : item.skeys = k.stagSlice
  skeysMark : item.isSetSkeys = decide (k.stagsCount > 0)
  t : item.t = if k.timestamp ≠ 0 ∧ k.timestamp ≠ d then k.timestamp else 0
  tMark : item.isSetT = decide (k.timestamp ≠ 0 ∧ k.timestamp ≠ d)

theorem tlMultiItemFromKey_holds (k : Key) (d : BitVec 32) :
    HoldsKey k d (k.tlMultiItemFromKey d) := by
  have hl : k.stagSlice.length = k.stagsCount := by simp [stagSlice]
  by_cases hs : k.stagsCount > 0
  · have hs' : k.stagSlice.length > 0 := hl.symm ▸ hs
    by_cases ht : k.timestamp ≠ 0 ∧ k.timestamp ≠ d
    · simp only [tlMultiItemFromKey, if_pos hs', if_pos ht]
      exact ⟨rfl, rfl, rfl, by simp [isSetSkeys, setT, setSkeys, hs], (if_pos ht).symm,
        (by simp [isSetT, setT] : _ = true).trans (decide_eq_true ht).symm⟩
    · simp only [tlMultiItemFromKey, if_pos hs', if_neg ht]
      exact ⟨rfl, rfl, rfl, by simp [isSetSkeys, setSkeys, hs], (if_neg ht).symm,
        (by simp [isSetT, setSkeys] : _ = false).trans (decide_eq_false ht).symm⟩
  · have hs' : ¬k.stagSlice.length > 0 := hl.symm ▸ hs
    have hn : k.stagSlice = [] := length_eq_zero_iff.1 (by omega)
    by_cases ht : k.timestamp ≠ 0 ∧ k.timestamp ≠ d
    · simp only [tlMultiItemFromKey, if_neg hs', if_pos ht]
      exact ⟨rfl, rfl, hn.symm, by simp [isSetSkeys, setT, hs], (if_pos ht).symm,
        (by simp [isSetT, setT] : _ = true).trans (decide_eq_true ht).symm⟩
    · simp only [tlMultiItemFromKey, if_neg hs', if_neg ht]
      exact ⟨rfl, rfl, hn.symm, by simp [isSetSkeys, hs], (if_neg ht).symm,
        (by simp [isSetT] : _ = false).trans (decide_eq_false ht).symm⟩

/-- The timestamp that the aggregator believes for a bucket. -/
def Believed (t b : BitVec 32) : Prop :=
  t.toNat ≤ b.toNat ∧ (b.toNat : Int) - believeTimestampWindow ≤ t.toNat

instance (t b : BitVec 32) : Decidable (Believed t b) := instDecidableAnd

/-- The timestamp of a key after the transfer. -/
def restoredTimestamp (t b d : BitVec 32) : BitVec 32 :=
  if (t ≠ 0 ∧ t ≠ d) ∧ Believed t b then t else b

lemma restored_timestamp (h : HoldsKey k d item) (b : BitVec 32) :
    (keyFromStatshouseMultiItem item b).1.timestamp = restoredTimestamp k.timestamp b d := by
  rw [keyFromStatshouseMultiItem, restoredTimestamp, h.tMark, h.t]
  by_cases ht : k.timestamp ≠ 0 ∧ k.timestamp ≠ d
  · rw [decide_eq_true ht, if_pos rfl, if_pos ht]
    by_cases hf : (k.timestamp.toNat : Int) > b.toNat
    · have hn : ¬Believed k.timestamp b := fun h => by have := h.1; omega
      rw [if_pos hf, if_neg (fun h => hn h.2)]
    · rw [if_neg hf]
      by_cases hp : k.timestamp.toNat < b.toNat - believeTimestampWindow
      · have hn : ¬Believed k.timestamp b := fun h => by have := h.2; omega
        rw [if_pos hp, if_neg (fun h => hn h.2)]
      · have hb : Believed k.timestamp b := ⟨by omega, by omega⟩
        rw [if_neg hp, if_pos ⟨ht, hb⟩]
  · rw [decide_eq_false ht, if_neg Bool.false_ne_true, if_neg (fun h => ht h.1)]

lemma restored_tags (h : HoldsKey k d item) (b : BitVec 32) :
    (keyFromStatshouseMultiItem item b).1.tags = k.tags := by
  funext i
  have ht : k.tag i = k.tags i := dif_pos i.2
  change item.keys.getD i 0 = k.tags i
  rw [h.keys, ← ht]
  exact (tag_eq_written k i).symm

lemma sent_stags (h : HoldsKey k d item) (i : Fin maxTags) : item.skeys.getD i [] = k.stags i := by
  have hi : k.stag i = k.stags i := dif_pos i.2
  rw [h.skeys, ← hi]
  exact (stag_eq_written k i).symm

/-- The estimate counts what the writer of short strings writes. -/
lemma stagsSizeEstimate_eq (short : ∀ i, (k.stag i).length ≤ tinyStringLen) (n : Nat) :
    k.stagsSizeEstimate n = (((List.range n).map k.stag).flatMap stringWrite).length := by
  induction n with
  | zero => rfl
  | succ n ih =>
    rw [range_succ, map_append, flatMap_append, length_append, ← ih]
    simp only [stagsSizeEstimate, map_cons, map_nil, flatMap_cons,
      flatMap_nil, append_nil, length_stringWrite (short n), paddingLen]
    omega

lemma length_vectorWrite {α : Type} (write : α → List UInt8) (xs : List α) :
    (vectorWrite write xs).length = 4 + (xs.flatMap write).length := by
  rw [vectorWrite, length_append, natWrite, length_putUint32]

lemma length_writeTL1 (h : HoldsKey k d item) (short : ∀ i, (k.stag i).length ≤ tinyStringLen) :
    (item.writeTL1 []).length = k.tlSizeEstimate d := by
  have ha : (item.keys.flatMap natWrite).length = 4 * k.tagsCount := by
    rw [show item.keys.flatMap natWrite = item.keys.flatMap putUint32 from rfl,
      length_flatMap_putUint32, h.keys, length_tagSlice]
  have hk : (item.skeys.flatMap stringWrite).length = k.stagsSizeEstimate k.stagsCount := by
    rw [stagsSizeEstimate_eq short, h.skeys, stagSlice]
  rw [writeTL1, tlSizeEstimate, h.skeysMark, h.tMark]
  simp only [length_append, length_vectorWrite, natWrite, length_putUint32, length_nil]
  by_cases hs : k.stagsCount > 0 <;> by_cases ht : k.timestamp ≠ 0 ∧ k.timestamp ≠ d
  · rw [decide_eq_true hs, decide_eq_true ht, if_pos rfl, if_pos rfl, if_pos hs, if_pos ht,
      length_vectorWrite, hk, length_putUint32]
    omega
  · rw [decide_eq_true hs, decide_eq_false ht, if_pos rfl, if_neg Bool.false_ne_true, if_pos hs,
      if_neg ht, length_vectorWrite, hk, length_nil]
    omega
  · rw [decide_eq_false hs, decide_eq_true ht, if_neg Bool.false_ne_true, if_pos rfl, if_neg hs,
      if_pos ht, length_putUint32, length_nil]
    omega
  · rw [decide_eq_false hs, decide_eq_false ht, if_neg Bool.false_ne_true,
      if_neg Bool.false_ne_true, if_neg hs, if_neg ht, length_nil]
    omega

/-- Metric, integer tags and timestamp are restored, the string tags stay in the item, and the
size estimate of a key with short strings is exact. -/
theorem key_transfer (k : Key) (b d : BitVec 32) :
    let item := k.tlMultiItemFromKey d
    let k' := (keyFromStatshouseMultiItem item b).1
    k'.metric = k.metric ∧ k'.tags = k.tags ∧ (∀ i, k'.stags i = []) ∧
      (∀ i : Fin maxTags, item.skeys.getD i [] = k.stags i) ∧
      k'.timestamp = restoredTimestamp k.timestamp b d ∧
      ((∀ i, (k.stags i).length < 254) → k.tlSizeEstimate d = (item.writeTL1 []).length) := by
  have h := tlMultiItemFromKey_holds k d
  refine ⟨h.metric, restored_tags h b, fun _ => rfl, sent_stags h, restored_timestamp h b, ?_⟩
  intro short
  refine (length_writeTL1 h ?_).symm
  intro i
  rw [stag]
  split
  · exact Nat.le_of_lt_succ (short _)
  · decide

/-- A key with the string tag "a". -/
def oneString : Key := ⟨100, 7, fun _ => 0, fun i => if i.val = 0 then [97] else []⟩

/-- The decoder returns no string tags, and for a timestamp that is the default one, and was not
sent, the one of the bucket. -/
theorem key_transfer_counterexample : Clean oneString ∧
    (keyFromStatshouseMultiItem (oneString.tlMultiItemFromKey 100) 100).1.stags ≠ oneString.stags ∧
    oneString.timestamp ≠ 0 ∧ Believed oneString.timestamp 150 ∧
    (keyFromStatshouseMultiItem (oneString.tlMultiItemFromKey 100) 150).1.timestamp ≠
      oneString.timestamp := by
  refine ⟨?_, fun h => absurd (congrFun h ⟨0, by decide⟩) (by decide), by decide, by decide,
    by decide⟩
  change ∀ i, 0 ∉ oneString.stags i
  decide

theorem key_transfer_oneString : (∀ i, (oneString.stags i).length < 254) ∧
      oneString.tlSizeEstimate 90 = ((oneString.tlMultiItemFromKey 90).writeTL1 []).length := by
  have short : ∀ i, (oneString.stags i).length < 254 := by decide
  exact ⟨short, (key_transfer oneString 100 90).2.2.2.2.2 short⟩

end KeyTransfer
