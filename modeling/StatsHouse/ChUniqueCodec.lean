import StatsHouse.ChUniqueMerge
import Mathlib.Data.Nat.Log

/-!
# Reading and writing a set as bytes

The decoders read a degree, a count and then that many four-byte items. The count is
taken before any item is seen. `UmMarshall` reads each item into a reused scratch area
and accepts a short last read; `ReadFrom` reads byte by byte and does not.
-/

namespace ChUniqueCodec

open LinearProbing ChUniqueTable ChUniqueSet ByteCodec List ChUnique Nat
variable {ch ch' prior : ChUnique} {e : ChUnique.DecodeError} {d : ChUnique.Decoded}
  {xs : List Hash} {bytes : List UInt8} {ic : Nat} {sd : UInt8} {x : Hash} {r rest : List UInt8}
  {σ : Type}

section Loop

variable {σ : Type} (read : σ → List UInt8 → Except ReadError (Hash × σ × List UInt8))

/-- The items that a reader delivers when asked for `n`, and how it ended. -/
def readList : Nat → σ → List UInt8 → List Hash × Except ReadError (List UInt8)
  | 0, _, r => ([], .ok r)
  | n + 1, s, r =>
    match read s r with
    | .error e => ([], .error e)
    | .ok (x, s, r) => (x :: (readList n s r).1, (readList n s r).2)

lemma readList_length_le (n : Nat) (s : σ) (r : List UInt8) :
    (readList read n s r).1.length ≤ n := by
  induction n generalizing s r with
  | zero => exact zero_le 0
  | succ n ih =>
    simp only [readList]
    split
    · exact zero_le _
    · exact succ_le_succ (ih _ _)

/-- The item loop puts the items delivered and passes on how the reader ended. -/
lemma readItems_eq (put : ChUnique → Hash → Option ChUnique) (n : Nat) (ch : ChUnique) (s : σ)
    (r : List UInt8) :
    readItems read put n ch s r = ((readList read n s r).1.foldlM put ch).map
        fun ch' => (ch', (readList read n s r).2.mapError ChUnique.DecodeError.read) := by
  induction n generalizing ch s r with
  | zero => rfl
  | succ n ih =>
    simp only [readItems, readList]
    cases hr : read s r with
    | error e => rfl
    | ok v =>
      simp only [foldlM_cons]
      cases hp : put ch v.1 with
      | none => rfl
      | some ch1 => exact ih ch1 v.2.1 v.2.2

end Loop

/-- The first `n` four-byte words of the input, if it has so many bytes. -/
def words : Nat → List UInt8 → List Hash
  | 0, _ => []
  | n + 1, r => uint32 (r.take 4) :: words n (r.drop 4)

lemma uint32_take (tmp r : List UInt8) (hlen : tmp.length = 4) (hr : 4 ≤ r.length) :
    readInto tmp r = .ok (r.take 4, r.drop 4) := by
  cases r with
  | nil => simp at hr
  | cons b r =>
    have hf : ((b :: r).take 4).length = 4 := by
      rw [length_take]
      omega
    simp only [readInto]
    rw [drop_eq_nil_of_le (by omega), append_nil]

/-- With enough bytes, the scratch reader delivers the words. -/
lemma readList_readTmp {n : Nat} {tmp : List UInt8} (hlen : tmp.length = 4)
    (hr : 4 * n ≤ r.length) :
    readList readTmp n tmp r = (words n r, .ok (r.drop (4 * n))) := by
  induction n generalizing tmp r with
  | zero => rfl
  | succ n ih =>
    have hf : (r.take 4).length = 4 := by
      rw [length_take]
      omega
    have hd : readTmp tmp r = .ok (uint32 (r.take 4), r.take 4, r.drop 4) := by
      rw [readTmp, uint32_take tmp r hlen (by omega)]
      rfl
    have hs := ih (r := r.drop 4) hf (by rw [length_drop]; omega)
    simp only [readList, hd, hs, words, drop_drop]
    rw [show 4 + 4 * n = 4 * (n + 1) by omega]

lemma readUint32LE_eq (r : List UInt8) : readUint32LE () r =
      if 4 ≤ r.length then .ok (uint32 (r.take 4), (), r.drop 4) else .error .eof := by
  match r with
  | [] | [_] | [_, _] | [_, _, _] => rfl
  | _ :: _ :: _ :: _ :: _ => simp [readUint32LE]

/-- The byte reader delivers the words exactly when there are enough bytes. -/
lemma readList_readUint32LE (n : Nat) (r : List UInt8) : if 4 * n ≤ r.length then
      readList readUint32LE n () r = (words n r, .ok (r.drop (4 * n)))
    else (readList readUint32LE n () r).2 = .error .eof ∧
      (readList readUint32LE n () r).1.length < n := by
  induction n generalizing r with
  | zero => simp [readList, words]
  | succ n ih =>
    have hr := ih (r.drop 4)
    rw [length_drop] at hr
    simp only [readList, readUint32LE_eq]
    by_cases hw : 4 ≤ r.length
    · simp only [if_pos hw]
      by_cases ha : 4 * (n + 1) ≤ r.length
      · rw [if_pos (by omega)] at hr
        rw [if_pos ha]
        simp only [hr, words, drop_drop]
        rw [show 4 + 4 * n = 4 * (n + 1) by omega]
      · rw [if_neg (by omega)] at hr
        rw [if_neg ha]
        exact ⟨hr.1, by simpa using hr.2⟩
    · rw [if_neg (by omega)]
      simp only [if_neg hw]
      exact ⟨trivial, zero_lt_succ n⟩

lemma words_flatMap (xs : List Hash) (rest : List UInt8) :
    words xs.length (xs.flatMap putUint32 ++ rest) = xs := by
  induction xs with
  | nil => rfl
  | cons x xs ih =>
    simp only [length_cons, words, flatMap_cons, append_assoc]
    rw [take_left' (length_putUint32 x), drop_left' (length_putUint32 x), ih, uint32_putUint32]

/-- Degree, count and the item bytes, or the error that ends the decoding before them. -/
def header (r : List UInt8) : Except ChUnique.DecodeError (UInt8 × Nat × List UInt8) :=
  match readByte r with
  | .error e => .error (.read e)
  | .ok (sd, r) =>
    match readUvarint r with
    | .error e => .error (.read e)
    | .ok (ic, r) =>
      if ic > uniquesHashMaxSize then .error (.tooManyItems ic) else .ok (sd, ic, r)

section Load

variable {σ : Type} (read : σ → List UInt8 → Except ReadError (Hash × σ × List UInt8))

/-- `UmMarshall` and `ReadFrom`, with their reader as a parameter. -/
def load (s : σ) (ch : ChUnique) (r : List UInt8) : Option ChUnique.Decoded :=
  let ch := { ch with hasZeroItem := false }
  match readByte r with
  | .error e => some (ch, .error (.read e))
  | .ok (sd, r) =>
    let ch := { ch with skipDegree := sd.toNat }
    match readUvarint r with
    | .error e => some (ch, .error (.read e))
    | .ok (ic, r) =>
      if ic > uniquesHashMaxSize then some (ch, .error (.tooManyItems ic))
      else readItems read loadItem ic (ch.loadBuf ic) s r

lemma load_eq (s : σ) (ch : ChUnique) (r : List UInt8) : ∃ sd, load read s ch r =
    match header r with
    | .error e => some ({ ch with hasZeroItem := false, skipDegree := sd }, .error e)
    | .ok (sd, ic, rest) => readItems read loadItem ic
        (loadBuf { ch with hasZeroItem := false, skipDegree := sd.toNat } ic) s rest := by
  unfold load header
  cases readByte r with
  | error e => exact ⟨ch.skipDegree, rfl⟩
  | ok v =>
    refine ⟨v.1.toNat, ?_⟩
    cases hv : readUvarint v.2 with
    | error e => simp only [hv]
    | ok w =>
      simp only [hv]
      split_ifs <;> rfl

end Load

lemma umMarshall_eq (ch : ChUnique) (r : List UInt8) :
    ch.umMarshall r = load readTmp [0, 0, 0, 0] ch r := rfl

lemma readFrom_eq (ch : ChUnique) (r : List UInt8) :
    ch.readFrom r = load readUint32LE () ch r := rfl

/-- Reinsertion fills the first free cell, whether or not the value is there already. -/
lemma reinsertImpl_spec (sized : Sized ch) (chained : Chained ch) (hx : x ≠ 0)
    (few : (occupied ch.buf).card < ch.bufSize) :
    ∃ ch', ch.reinsertImpl x = some ch' ∧ Sized ch' ∧ Chained ch' ∧
      occupied ch'.buf = x ::ₘ occupied ch.buf ∧ ch' = { ch with buf := ch'.buf } := by
  obtain ⟨f, hf, ha⟩ := exists_free sized few
  have hl : ch.buf.length = ch.bufSize := sized
  have ht := rank_lt hf (place_lt ch x)
  obtain ⟨h, hh, hw, hs⟩ := walk_total ch (· == 0) x hf (by simp [ha])
  obtain ⟨hb, -, before⟩ := walk_spec hw hf hf (by rw [rank_cut hf]; omega) (by simp [ha])
  have hz : cell ch.buf h = 0 := by simpa using hs
  refine ⟨{ ch with buf := ch.buf.set h x }, ?_, ?_, ?_, ?_, rfl⟩
  · simp only [reinsertImpl, hw, Option.map_some]
  · change (ch.buf.set h x).length = ch.bufSize
    rw [length_set, hl]
  · apply chained_fill sized chained hx hf hh hb
    intro r hr hc hg
    have := before r hr hc hg
    simpa using this
  · exact occupied_fill (by omega) hz hx

/-- Loading keeps every non-zero item, repeated ones too, and remembers a zero. -/
lemma loadItems_spec (sized : Sized ch) (chained : Chained ch) (xs : List Hash)
    (room : (occupied ch.buf).card + xs.length < ch.bufSize) :
    ∃ ch', xs.foldlM loadItem ch = some ch' ∧ Sized ch' ∧ Chained ch' ∧
      occupied ch'.buf = occupied ch.buf + ↑(xs.filter (· ≠ 0)) ∧
      ch' = { ch with buf := ch'.buf, hasZeroItem := ch.hasZeroItem || xs.contains 0 } := by
  induction xs generalizing ch with
  | nil => exact ⟨ch, rfl, sized, chained, by simp, by simp⟩
  | cons x xs ih =>
    simp only [length_cons] at room
    by_cases hx : x = 0
    · subst hx
      obtain ⟨ch', hr, hs, hc, ho, hf⟩ :=
        ih (show Sized { ch with hasZeroItem := true } from sized)
          chained
          (show (occupied ch.buf).card + xs.length < ch.bufSize by omega)
      refine ⟨ch', ?_, hs, hc, ?_, ?_⟩
      · simp only [foldlM_cons]
        exact hr
      · simpa using ho
      · rw [hf]
        simp
    · obtain ⟨ch1, hp, hsd1, hch1, hoc1, hfd1⟩ := reinsertImpl_spec sized chained hx (by omega)
      have hsz1 : ch1.bufSize = ch.bufSize := by
        rw [hfd1]
        rfl
      obtain ⟨ch', hr, hs, hc, ho, hf⟩ :=
        ih hsd1 hch1 (by rw [hoc1, Multiset.card_cons, hsz1]; omega)
      refine ⟨ch', ?_, hs, hc, ?_, ?_⟩
      · simp only [foldlM_cons, loadItem, if_neg hx, hp]
        exact hr
      · rw [ho, hoc1, filter_cons_of_pos (by simpa using hx), ← Multiset.cons_coe,
          Multiset.add_cons, Multiset.cons_add]
      · rw [hf, hfd1]
        have ha : (x :: xs).contains 0 = xs.contains 0 := by
          rw [contains_cons, beq_eq_false_iff_ne.2 (Ne.symm hx), Bool.false_or]
        rw [ha]

lemma lt_bufSize_loadBuf (ch : ChUnique) (ic : Nat) : 2 * ic < (ch.loadBuf ic).bufSize := by
  change 2 * ic < 2 ^ readSizeDegree ic
  unfold readSizeDegree
  split
  · have hl : ic < 2 ^ (Nat.log2 ic + 1) := Nat.lt_log2_self
    have hle : Nat.log2 ic + 2 ≤ max (Nat.log2 ic + 2) uniquesHashSetInitialSizeDegree :=
      le_max_left _ _
    calc 2 * ic < 2 * 2 ^ (Nat.log2 ic + 1) := by omega
      _ = 2 ^ (Nat.log2 ic + 2) := Nat.pow_succ'.symm
      _ ≤ _ := Nat.pow_le_pow_right (by decide) hle
  · have : 2 ^ uniquesHashSetInitialSizeDegree = 16 := rfl
    omega

/-- Items put into the empty buffer of `UmMarshall` and `ReadFrom`. -/
lemma loadBuf_items (ch : ChUnique) (hlen : xs.length ≤ ic) :
    ∃ ch', xs.foldlM loadItem (ch.loadBuf ic) = some ch' ∧ Sized ch' ∧ Chained ch' ∧
      occupied ch'.buf = ↑(xs.filter (· ≠ 0)) ∧
      ch' = { ch.loadBuf ic with
        buf := ch'.buf
        hasZeroItem := ch.hasZeroItem || xs.contains 0 } := by
  have he : occupied (ch.loadBuf ic).buf = 0 := occupied_replicate_zero _
  have hs : Sized (ch.loadBuf ic) := length_replicate
  have hc : Chained (ch.loadBuf ic) := by
    intro q hq hne
    have ha : cell (ch.loadBuf ic).buf q = 0 := by
      simp only [loadBuf, cell, getD_eq_getElem?_getD, getElem?_replicate]
      split <;> rfl
    exact absurd ha hne
  have hm := lt_bufSize_loadBuf ch ic
  obtain ⟨ch', hr, hsd', hch', ho, hf⟩ := loadItems_spec hs hc xs (by
      rw [he, Multiset.card_zero]
      omega)
  refine ⟨ch', hr, hsd', hch', ?_, hf⟩
  rw [ho, he, zero_add]

lemma mem_stored_loaded (hoccupied : occupied ch'.buf = ↑(xs.filter (· ≠ 0)))
    (zero : ch'.hasZeroItem = xs.contains 0) : stored ch' = xs.toFinset := by
  ext x
  rw [mem_stored, hoccupied, zero, Multiset.mem_coe, mem_filter, mem_toFinset, contains_iff_mem]
  constructor
  · rintro (⟨hm, -⟩ | ⟨rfl, hm⟩)
    · exact hm
    · exact hm
  · intro hm
    by_cases hx : x = 0
    · exact .inr ⟨hx, hx ▸ hm⟩
    · exact .inl ⟨hm, by simpa using hx⟩

/-- How far the count is above the number of items held. -/
def surplus (ch : ChUnique) : Int :=
  ch.itemsCount - (occupied ch.buf).card - if ch.hasZeroItem then 1 else 0

lemma honest_iff_surplus (ch : ChUnique) : Honest ch ↔ surplus ch = 0 := by
  unfold Honest surplus
  omega

/-- A buffer of the right length, and the same surplus as before. -/
def Kept (ch ch' : ChUnique) : Prop := Sized ch' ∧ surplus ch' = surplus ch

lemma insertImpl_kept (sized : Sized ch) (h : ch.insertImpl x = some ch') : Kept ch ch' := by
  unfold insertImpl at h
  by_cases hx : x = 0
  · rw [if_pos hx] at h
    cases hz : ch.hasZeroItem with
    | true =>
      simp only [hz, if_true, Option.some.injEq] at h
      subst h
      exact ⟨sized, rfl⟩
    | false =>
      simp only [hz, Bool.false_eq_true, if_false, Option.some.injEq] at h
      subst h
      refine ⟨sized, ?_⟩
      simp only [surplus, hz, if_true, Bool.false_eq_true, if_false]
      omega
  · rw [if_neg hx] at h
    obtain ⟨p, hw, hp⟩ := Option.map_eq_some_iff.1 h
    by_cases hs : cell ch.buf p = x
    · rw [if_pos hs] at hp
      subst hp
      exact ⟨sized, rfl⟩
    · rw [if_neg hs] at hp
      subst hp
      obtain ⟨hh, ht⟩ := walk_some hw
      have hf : cell ch.buf p = 0 := by
        simp only [Bool.or_eq_true, beq_iff_eq] at ht
        exact ht.resolve_left hs
      have hl : (ch.buf.set p x).length = ch.buf.length := length_set
      have ho := occupied_fill (lt_of_lt_of_eq hh sized.symm) hf hx
      refine ⟨hl.trans sized, ?_⟩
      simp only [surplus, ho, Multiset.card_cons]
      omega

lemma rehash_kept (sized : Sized ch) (h : ch.rehash = some ch') : Kept ch ch' := by
  obtain ⟨ch'', hr, hf, -⟩ := rehash_spec sized
  obtain rfl : ch'' = ch' := Option.some.inj (hr.symm.trans h)
  refine ⟨hf.sized sized, ?_⟩
  have hz : ch''.hasZeroItem = ch.hasZeroItem := by rw [hf.fields]
  have := hf.count
  simp only [surplus, hz]
  omega

lemma resize_kept {newSizeDegree : Nat} (sized : Sized ch) (hle : ch.sizeDegree ≤ newSizeDegree)
    (h : ch.resize newSizeDegree = some ch') : Kept ch ch' := by
  obtain ⟨hs, ho, hf⟩ := resize_returns sized hle h
  have hz : ch'.hasZeroItem = ch.hasZeroItem := by rw [hf]
  have hc : ch'.itemsCount = ch.itemsCount := by rw [hf]
  refine ⟨hs, ?_⟩
  simp [surplus, ho, hz, hc]

lemma Kept.trans {ch'' : ChUnique} (h : Kept ch ch') (h' : Kept ch' ch'') :
    Kept ch ch'' := ⟨h'.1, h'.2.trans h.2⟩

section

variable (sized : Sized ch)
include sized

lemma thinOut_kept {fuel : Nat} (h : thinOut fuel ch = some ch') : Kept ch ch' := by
  induction fuel generalizing ch with
  | zero => simp [thinOut] at h
  | succ fuel ih =>
    simp only [thinOut] at h
    split at h
    · obtain ⟨ch1, hr, hs⟩ := Option.bind_eq_some_iff.1 h
      have hk := rehash_kept (show Sized { ch with skipDegree := ch.skipDegree + 1 } from sized) hr
      exact Kept.trans ⟨hk.1, hk.2⟩ (ih hk.1 hs)
    · cases h
      exact ⟨sized, rfl⟩

lemma shrinkIfNeed_kept (h : ch.shrinkIfNeed = some ch') : Kept ch ch' := by
  unfold shrinkIfNeed at h
  split at h
  · cases h
    exact ⟨sized, rfl⟩
  · split at h
    · exact thinOut_kept sized h
    · exact resize_kept sized (le_succ _) h

lemma insertHash_kept (h : ch.insertHash x = some ch') : Kept ch ch' := by
  unfold insertHash at h
  split at h
  · cases h
    exact ⟨sized, rfl⟩
  · obtain ⟨ch1, hi, hs⟩ := Option.bind_eq_some_iff.1 h
    have hk := insertImpl_kept sized hi
    exact hk.trans (shrinkIfNeed_kept hk.1 hs)

lemma insertHash_foldlM_kept (h : xs.foldlM insertHash ch = some ch') : Kept ch ch' := by
  induction xs generalizing ch with
  | nil =>
    cases h
    exact ⟨sized, rfl⟩
  | cons x xs ih =>
    obtain ⟨ch1, hin, hr⟩ := Option.bind_eq_some_iff.1 h
    have hk := insertHash_kept sized hin
    exact hk.trans (ih hk.1 hr)

lemma growFor_kept (h : ch.growFor ic = some ch') : Kept ch ch' := by
  unfold growFor at h
  split at h
  · rename_i hs
    refine resize_kept sized ?_ h
    have hl := lt_trans hs Nat.lt_log2_self
    have := (Nat.pow_lt_pow_iff_right (by decide)).1 hl
    omega
  · cases h
    exact ⟨sized, rfl⟩

/-- On a buffer that exists, `MergeRead` never changes the surplus. -/
lemma mergeRead_kept (hbuf : ch.buf ≠ []) (h : ch.mergeRead r = some d) : Kept ch d.1 := by
  unfold mergeRead at h
  rw [if_neg hbuf] at h
  split at h
  · cases h
    exact ⟨sized, rfl⟩
  · obtain ⟨ch1, hr, h⟩ := Option.bind_eq_some_iff.1 h
    have hk : Kept ch ch1 := by
      split at hr
      · exact rehash_kept sized hr
      · cases hr
        exact ⟨sized, rfl⟩
    split at h
    · cases h
      exact hk
    · split at h
      · cases h
        exact hk
      · obtain ⟨ch2, hg, h⟩ := Option.bind_eq_some_iff.1 h
        have hk2 := hk.trans (growFor_kept hk.1 hg)
        rw [readItems_eq] at h
        obtain ⟨ch3, hn, rfl⟩ := Option.map_eq_some_iff.1 h
        exact hk2.trans (insertHash_foldlM_kept hk2.1 hn)

end

/-- A loaded state is honest if and only if all items came and at most one was zero. -/
lemma honest_loaded_iff (hlen : xs.length ≤ ic) (counted : ch'.itemsCount = ic)
    (hoccupied : occupied ch'.buf = ↑(xs.filter (· ≠ 0))) (zero : ch'.hasZeroItem = xs.contains 0) :
    Honest ch' ↔ xs.length = ic ∧ xs.count 0 ≤ 1 := by
  have hs : (xs.filter (· ≠ 0)).length + xs.count 0 = xs.length := by
    have hz : (fun x : Hash => x == 0) = fun x => !decide (x ≠ 0) := by
      funext x
      by_cases hx : x = 0
      · subst hx
        rfl
      · rw [beq_eq_false_iff_ne.2 hx, decide_eq_true hx]
        rfl
    rw [List.count, countP_eq_length_filter, hz]
    exact (length_eq_length_filter_add _).symm
  have hf : xs.contains 0 = true ↔ 0 < xs.count 0 := by
    rw [contains_iff_mem, count_pos_iff]
  simp only [Honest, hoccupied, zero, Multiset.coe_card]
  cases hc : xs.contains 0 with
  | false =>
    have : ¬0 < xs.count 0 := by rw [← hf, hc]; decide
    simp only [Bool.false_eq_true, if_false]
    omega
  | true =>
    have : 0 < xs.count 0 := hf.1 hc
    simp only [if_true]
    omega

/-- The count is that of the cells and the zero flag, and so of the items that
`MarshallAppend` writes after it. -/
def Counted (ch : ChUnique) : Prop := Honest ch ∧ ch.itemsCount = ch.items.length

lemma counted_iff (ch : ChUnique) : Counted ch ↔ Honest ch :=
  ⟨fun h => h.1, fun h => ⟨h, (honest_iff_items ch).1 h⟩⟩

/-- What every decoder should leave, on the same bytes and prior state. -/
structure Decodes (prior : ChUnique) (bytes : List UInt8) : Prop where
  umMarshall : ∀ d, prior.umMarshall bytes = some d → Counted d.1
  readFrom : ∀ d, prior.readFrom bytes = some d → Counted d.1
  mergeRead : ∀ d, prior.mergeRead bytes = some d → Counted d.1
  agree : ∃ d d', prior.umMarshall bytes = some d ∧ prior.readFrom bytes = some d' ∧
    ((d.2.isOk = false ∧ d'.2.isOk = false) ∨
      (d.2.isOk = true ∧ d'.2.isOk = true ∧ stored d.1 = stored d'.1))

/-- The inputs on which they do: a header error finds no zero item to forget, and a header
is followed by all its items, at most one of them zero. -/
structure Wellformed (prior : ChUnique) (bytes : List UInt8) : Prop where
  rejected : ∀ e, header bytes = .error e → prior.itemsCount = (occupied prior.buf).card
  complete : ∀ sd ic rest, header bytes = .ok (sd, ic, rest) →
    4 * ic ≤ rest.length ∧ (words ic rest).count 0 ≤ 1
  honest : prior.buf ≠ [] → (prior.mergeRead bytes).isSome → Honest prior

lemma words_length (n : Nat) (r : List UInt8) : (words n r).length = n := by
  induction n generalizing r with
  | zero => rfl
  | succ n ih => rw [words, length_cons, ih]

section

variable (read : σ → List UInt8 → Except ReadError (Hash × σ × List UInt8))
include read

/-- A load with a good header, in terms of the items that its reader delivers. -/
lemma load_delivered (s : σ) (prior : ChUnique) (h : header bytes = .ok (sd, ic, rest)) :
    ∃ ch', load read s prior bytes =
        some (ch', (readList read ic s rest).2.mapError ChUnique.DecodeError.read) ∧
      (Counted ch' ↔ (readList read ic s rest).1.length = ic ∧
        (readList read ic s rest).1.count 0 ≤ 1) ∧
      stored ch' = (readList read ic s rest).1.toFinset := by
  obtain ⟨_, hlo⟩ := load_eq read s prior bytes
  simp only [h] at hlo
  have hl := readList_length_le read ic s rest
  obtain ⟨ch', hit, -, -, ho, hf⟩ := loadBuf_items
    { prior with hasZeroItem := false, skipDegree := sd.toNat } hl
  have hc : ch'.itemsCount = ic := by rw [hf]; rfl
  have hz : ch'.hasZeroItem = (readList read ic s rest).1.contains 0 := by
    rw [hf, Bool.false_or]
  refine ⟨ch', ?_, ?_, mem_stored_loaded ho hz⟩
  · rw [hlo, readItems_eq, hit]
    rfl
  · rw [counted_iff]
    exact honest_loaded_iff hl hc ho hz

/-- A rejected header leaves the old items and count, without the zero flag. -/
lemma load_rejected (s : σ) (prior : ChUnique) (h : header bytes = .error e) :
    ∃ ch', load read s prior bytes = some (ch', .error e) ∧
      (Counted ch' ↔ prior.itemsCount = (occupied prior.buf).card) := by
  obtain ⟨sd, hlo⟩ := load_eq read s prior bytes
  rw [h] at hlo
  refine ⟨_, hlo, ?_⟩
  rw [counted_iff]
  simp [Honest]

end

lemma mergeRead_nil (hbuf : prior.buf = []) (bytes : List UInt8) :
    prior.mergeRead bytes = prior.umMarshall bytes := by
  rw [mergeRead, if_pos hbuf]

lemma mergeRead_honest_iff (sized : Sized prior) (hbuf : prior.buf ≠ [])
    (h : prior.mergeRead bytes = some d) : Counted d.1 ↔ Honest prior := by
  rw [counted_iff, honest_iff_surplus, honest_iff_surplus, (mergeRead_kept sized hbuf h).2]

/-- `MergeRead` reads as `UmMarshall` does into an empty set, and else keeps the count of
the set before. -/
lemma mergeRead_counted_iff (sized : prior.buf = [] ∨ Sized prior)
    (decoded : ∀ d, prior.umMarshall bytes = some d → Counted d.1) :
    (∀ d, prior.mergeRead bytes = some d → Counted d.1) ↔
      (prior.buf ≠ [] → (prior.mergeRead bytes).isSome → Honest prior) := by
  constructor
  · intro hm hb hs
    obtain ⟨d, hd⟩ := Option.isSome_iff_exists.1 hs
    exact (mergeRead_honest_iff (sized.resolve_left hb) hb hd).1 (hm d hd)
  · intro hh d hd
    by_cases hb : prior.buf = []
    · exact decoded d ((mergeRead_nil hb bytes).symm.trans hd)
    · exact (mergeRead_honest_iff (sized.resolve_left hb) hb hd).2 (hh hb (by rw [hd]; rfl))

/-- A run that is known to return a counted set returns no other. -/
lemma counted_of_eq {run : Option ChUnique.Decoded} (h : run = some d) (counted : Counted d.1) :
    ∀ d, run = some d → Counted d.1 := by
  intro d' hd'
  obtain rfl := Option.some.inj (h.symm.trans hd')
  exact counted

lemma decodes_of_rejected (sized : prior.buf = [] ∨ Sized prior) (head : header bytes = .error e)
    (wf : Wellformed prior bytes) : Decodes prior bytes := by
  obtain ⟨um, hu, hf⟩ := load_rejected readTmp [0, 0, 0, 0] prior head
  obtain ⟨rf, hr, hi⟩ := load_rejected readUint32LE () prior head
  have hc := wf.rejected e head
  have ha := counted_of_eq hu (hf.2 hc)
  exact ⟨ha, counted_of_eq hr (hi.2 hc),
    (mergeRead_counted_iff sized ha).2 wf.honest, _, _, hu, hr, .inl ⟨rfl, rfl⟩⟩

lemma decodes_of_complete (sized : prior.buf = [] ∨ Sized prior)
    (head : header bytes = .ok (sd, ic, rest)) (wf : Wellformed prior bytes) :
    Decodes prior bytes := by
  obtain ⟨um, hu, hf, hs⟩ := load_delivered readTmp [0, 0, 0, 0] prior head
  obtain ⟨rf, hr, hi, ha⟩ := load_delivered readUint32LE () prior head
  obtain ⟨hl, hz⟩ := wf.complete sd ic rest head
  have hc : readList readTmp ic [0, 0, 0, 0] rest = _ := readList_readTmp rfl hl
  have hb := readList_readUint32LE ic rest
  rw [if_pos hl] at hb
  rw [hc] at hu hf hs
  rw [hb] at hr hi ha
  have hg := counted_of_eq hu (hf.2 ⟨words_length ic rest, hz⟩)
  exact ⟨hg, counted_of_eq hr (hi.2 ⟨words_length ic rest, hz⟩),
    (mergeRead_counted_iff sized hg).2 wf.honest, _, _, hu, hr,
    .inr ⟨rfl, rfl, hs.trans ha.symm⟩⟩

theorem decodes_iff (prior : ChUnique) (sized : prior.buf = [] ∨ Sized prior)
    (bytes : List UInt8) : Decodes prior bytes ↔ Wellformed prior bytes := by
  constructor
  · intro decodes
    refine ⟨?_, ?_, (mergeRead_counted_iff sized decodes.umMarshall).1 decodes.mergeRead⟩
    · intro e hh
      obtain ⟨um, hu, hf⟩ := load_rejected readTmp [0, 0, 0, 0] prior hh
      exact hf.1 (decodes.umMarshall _ hu)
    · intro sd ic rest hh
      obtain ⟨rf, hb, hi, -⟩ := load_delivered readUint32LE () prior hh
      have h := hi.1 (decodes.readFrom _ hb)
      have hr := readList_readUint32LE ic rest
      by_cases ha : 4 * ic ≤ rest.length
      · rw [if_pos ha] at hr
        rw [hr] at h
        exact ⟨ha, h.2⟩
      · rw [if_neg ha] at hr
        omega
  · intro wf
    cases hh : header bytes with
    | error e => exact decodes_of_rejected sized hh wf
    | ok v => exact decodes_of_complete sized hh wf

/-- A degree, the count two, and the zero item twice, read into an empty set. -/
theorem decodes_counterexample : ¬ Decodes zeroValue [0, 2, 0, 0, 0, 0, 0, 0, 0, 0] := by
  intro decodes
  have h := decodes.umMarshall ({ zeroValue.reset with
    itemsCount := 2
    hasZeroItem := true }, .ok []) rfl
  exact absurd h.2 (by decide)

theorem decodes_iff_two : (zeroValue.buf = [] ∨ Sized zeroValue) ∧
      Decodes zeroValue [0, 2, 0, 0, 0, 0, 7, 0, 0, 0] := by
  refine ⟨.inl rfl, (decodes_iff zeroValue (.inl rfl) _).2 ⟨?_, ?_, ?_⟩⟩
  · intro e he
    cases he
  · intro sd ic rest ho
    cases ho
    decide
  · intro hb
    exact absurd rfl hb

end ChUniqueCodec
