import StatsHouse.ChUniqueCodec

/-!
# Merging a set from its bytes

What `MarshallAppend` writes for a value at rest is read back by every decoder. `MergeRead`
filters the items by its own degree but never takes over the degree it reads, so its result
is the union exactly when its own items force that degree anyway. The buffer it makes room
for 65536 items in is so large that the limit on the number of items no longer bites.
-/

namespace ChUniqueMergeRead

open LinearProbing ChUniqueTable ChUniqueSet ChUniqueHash ChUniqueMerge ChUniqueCodec List ChUnique
open UInt8
open Or
open Nat
open Thinning Refinement ByteCodec
variable {B ch : ChUnique} {S : Finset Hash}

lemma marshallAppend_eq (rest : Rest B) (buf : List UInt8) :
    B.marshallAppend buf = buf ++ (ofNat B.skipDegree :: putUvarint B.items.length ++
      B.items.flatMap putUint32) := by
  obtain ⟨hc, hm⟩ := rest.items_length
  rcases rest with rfl | ready
  · rfl
  · have hs : ((B.items.length : Int) % 2 ^ 64).toNat = B.items.length := by
      have hb : B.items.length ≤ 65536 := hm
      omega
    simp only [marshallAppend, if_neg ready.buf_ne_nil, hc, hs, append_assoc]

lemma header_marshallAppend (rest : Rest B) (tail : List UInt8) :
    header (B.marshallAppend [] ++ tail) =
      .ok (ofNat B.skipDegree, B.items.length, B.items.flatMap putUint32 ++ tail) := by
  obtain ⟨-, hm⟩ := rest.items_length
  have hb : B.items.length ≤ 65536 := hm
  have hr := readUvarint_putUvarint B.items.length (by omega) (B.items.flatMap putUint32 ++ tail)
  rw [marshallAppend_eq rest, nil_append, cons_append, cons_append, append_assoc]
  simp [header, readByte, hr, if_neg (not_lt.2 hm)]

/-- A reader that delivers the items of an encoding and stops right after them. -/
def Faithful {σ : Type} (read : σ → List UInt8 → Except ReadError (Hash × σ × List UInt8))
    (s : σ) : Prop :=
  ∀ (xs : List Hash) (tail : List UInt8),
    readList read xs.length s (xs.flatMap putUint32 ++ tail) = (xs, .ok tail)

lemma faithful_readTmp : Faithful readTmp [0, 0, 0, 0] := by
  intro xs tail
  have hl := length_flatMap_putUint32 xs
  rw [readList_readTmp rfl (by rw [length_append]; omega), words_flatMap, drop_left' hl]

lemma faithful_readUint32LE : Faithful readUint32LE () := by
  intro xs tail
  have hl := length_flatMap_putUint32 xs
  have hr := readList_readUint32LE xs.length (xs.flatMap putUint32 ++ tail)
  rw [if_pos (by rw [length_append]; omega)] at hr
  rw [hr, words_flatMap, drop_left' hl]

/-- Reading back: the same items and count, in a buffer of the decoder's own size. -/
theorem load_marshallAppend {σ : Type}
    {read : σ → List UInt8 → Except ReadError (Hash × σ × List UInt8)} {s : σ}
    (faithful : Faithful read s) (ch : ChUnique) (rest : Rest B) :
    ∃ ch', (∀ tail, load read s ch (B.marshallAppend [] ++ tail) = some (ch', .ok tail)) ∧
      Table ch' ∧ stored ch' = stored B ∧ ch'.itemsCount = B.itemsCount ∧
      ch'.skipDegree = B.skipDegree % 256 ∧
      ch'.sizeDegree = readSizeDegree B.items.length := by
  obtain ⟨hc, -⟩ := rest.items_length
  let start : ChUnique := { ch with hasZeroItem := false, skipDegree := (ofNat B.skipDegree).toNat }
  obtain ⟨ch', hit, hs, hh, ho, hf⟩ := loadBuf_items start (le_refl B.items.length)
  have hcn' : ch'.itemsCount = B.items.length := by rw [hf]; rfl
  have hz : ch'.hasZeroItem = B.items.contains 0 := by
    rw [hf, Bool.false_or]
  have hl : B.items.filter (· ≠ 0) = B.buf.filter (· ≠ 0) := by
    rw [items, filter_append, filter_filter]
    cases B.hasZeroItem <;> simp
  have hn : (occupied ch'.buf).Nodup := by
    rw [ho, hl]
    exact rest.nodup
  have he : B.items.count 0 ≤ 1 := by
    rw [items, count_append]
    have hne : (B.buf.filter (· ≠ 0)).count 0 = 0 := by
      rw [count_eq_zero]
      simp
    rw [hne]
    cases B.hasZeroItem <;> simp
  refine ⟨ch', ?_, ⟨hs, hn, hh, ?_⟩, ?_, hcn'.trans hc.symm, ?_, ?_⟩
  · intro tail
    obtain ⟨_, hlo⟩ := load_eq read s ch (B.marshallAppend [] ++ tail)
    simp only [header_marshallAppend rest tail] at hlo
    rw [hlo, readItems_eq, faithful, hit]
    rfl
  · exact (honest_loaded_iff le_rfl hcn' ho hz).2 ⟨rfl, he⟩
  · rw [mem_stored_loaded ho hz, stored_toFinset_items]
  · rw [hf]
    exact toNat_ofNat'
  · rw [hf]
    rfl

/-- With fewer than 65536 items the buffer is one that insertion could have made. -/
lemma readSizeDegree_bounds {n : Nat} (hn : n < uniquesHashMaxSize) :
    4 ≤ readSizeDegree n ∧ readSizeDegree n ≤ 17 := by
  have hm := hn
  simp only [readSizeDegree, uniquesHashSetInitialSizeDegree]
  split
  · have ho : log2 n < 16 := (log2_lt (by omega)).2 hm
    omega
  · omega

lemma loaded_ready {ch' : ChUnique} {n : Nat} (table : Table ch') (counted : ch'.itemsCount = n)
    (degree : ch'.sizeDegree = readSizeDegree n) (hn : n < uniquesHashMaxSize) :
    Ready ch' := by
  obtain ⟨hl, hhi⟩ := readSizeDegree_bounds hn
  refine ⟨table, degree ▸ hl, degree ▸ hhi, ?_⟩
  obtain ⟨hb, -⟩ := bufSize_eq (show 4 ≤ ch'.sizeDegree by omega)
  have hr : 2 * n < ch'.bufSize := by
    have := lt_bufSize_loadBuf ch' n
    change 2 * n < 2 ^ ch'.sizeDegree
    rw [degree]
    exact this
  omega

/-- The buffer that `MergeRead` grows to is too large for the limit to bite. -/
def Oversized (A B : ChUnique) : Prop :=
  B.itemsCount = uniquesHashMaxSize ∧ A.bufSize < uniquesHashMaxSize

lemma growFor_ready (ready : Ready ch) {n : Nat}
    (hn : n = uniquesHashMaxSize → uniquesHashMaxSize ≤ ch.bufSize)
    (bounded : n ≤ uniquesHashMaxSize) :
    ∃ ch', ch.growFor n = some ch' ∧ Ready ch' ∧ view ch' = view ch := by
  by_cases hs : ch.bufSize < n
  · have hlt : n < uniquesHashMaxSize := by
      by_contra hge
      omega
    have hn1 : 1 < n := by
      have := bufSize_pos ch
      omega
    have hd : max (log2 n + 2) uniquesHashSetInitialSizeDegree = readSizeDegree n := by
      rw [readSizeDegree, if_pos hn1]
    obtain ⟨hl, hhi⟩ := readSizeDegree_bounds hlt
    have hg : ch.sizeDegree < readSizeDegree n := by
      have hr := lt_bufSize_loadBuf ch n
      have hp := lt_trans hs (lt_of_le_of_lt (by omega) hr)
      exact (Nat.pow_lt_pow_iff_right (by decide)).1 hp
    have hf := ready.few
    obtain ⟨ch', ha, ht, hb, hz, hk, hc⟩ := resize_stored ready.toTable (by omega) hg
    refine ⟨ch', ?_, ⟨ht, hz ▸ hl, hz ▸ hhi, ?_⟩, ?_⟩
    · rw [growFor, if_pos hs, hd, ha]
    · obtain ⟨he, -⟩ := bufSize_eq ready.low
      obtain ⟨hbf', -⟩ := bufSize_eq (show 4 ≤ ch'.sizeDegree by omega)
      have hp : ch.bufSize ≤ ch'.bufSize := Nat.pow_le_pow_right (by decide) (by omega)
      have := ready.fill
      omega
    · simp [view, hb, hk]
  · exact ⟨ch, by rw [growFor, if_neg hs], ready, rfl⟩

lemma growFor_oversized (ready : Ready ch) (small : ch.bufSize < uniquesHashMaxSize) :
    ∃ ch', ch.growFor uniquesHashMaxSize = some ch' ∧ Table ch' ∧ view ch' = view ch ∧
      ch'.sizeDegree = 18 ∧ ch'.itemsCount ≤ uniquesHashMaxSize := by
  have hd : max (log2 uniquesHashMaxSize + 2) uniquesHashSetInitialSizeDegree = 18 := by decide
  have hhi : ch.sizeDegree ≤ 17 := ready.high
  have hf := ready.few
  obtain ⟨ch', hr, ht, hs, hz, hk, hc⟩ :=
    resize_stored ready.toTable (by omega)
      (show ch.sizeDegree < 18 by omega)
  refine ⟨ch', ?_, ht, ?_, hz, ?_⟩
  · rw [growFor, if_pos small, hd, hr]
  · simp [view, hs, hk]
  · rw [hc]
    exact ready.count_le

/-- In a buffer of degree 18 insertion neither thins nor grows before 131072 items. -/
lemma insertHash_roomy (x : Hash) (table : Table ch) (degree : ch.sizeDegree = 18)
    (room : ch.itemsCount < 131072) :
    ∃ ch', ch.insertHash x = some ch' ∧ Table ch' ∧ ch'.sizeDegree = 18 ∧
      ch'.skipDegree = ch.skipDegree ∧ ch'.itemsCount ≤ ch.itemsCount + 1 ∧
      stored ch' = stored ch ∪ thin hashLevels ch.skipDegree {x} := by
  by_cases hg : ch.good x = false
  · refine ⟨ch, by rw [insertHash, if_pos hg], table, degree, rfl, by omega, ?_⟩
    have ho : ¬hashLevels.On ch.skipDegree x := by
      rw [← good_iff, hg]
      decide
    rw [thin, Finset.filter_singleton, if_neg ho, Finset.union_empty]
  · have hb : ch.bufSize = 262144 := by
      rw [bufSize, degree]
      rfl
    have hc := table.occupied_card_le
    obtain ⟨ch', hi, ht, hs, hsz', hk⟩ := insertImpl_spec x table (by omega)
    have hd := table.card_stored
    have hcd' := ht.card_stored
    have hr := Finset.card_insert_le x (stored ch)
    rw [← hs] at hr
    have hf : ch'.maxFill = 131072 := by
      rw [maxFill, hsz', degree]
      rfl
    have hn := (good_iff ch x).1 (by simpa using hg)
    refine ⟨ch', ?_, ht, hsz'.trans degree, hk, by omega, ?_⟩
    · rw [insertHash, if_neg hg, hi, Option.bind_some, shrinkIfNeed, if_pos (by omega)]
    · rw [hs, thin, Finset.filter_singleton, if_pos hn, Finset.union_comm, ← Finset.insert_eq]

lemma insertHash_foldlM_roomy (xs : List Hash) (table : Table ch) (degree : ch.sizeDegree = 18)
    (room : ch.itemsCount + xs.length ≤ 131072) :
    ∃ ch', xs.foldlM insertHash ch = some ch' ∧ Table ch' ∧
      view ch' = ⟨ch.skipDegree, stored ch ∪ thin hashLevels ch.skipDegree xs.toFinset⟩ := by
  induction xs generalizing ch with
  | nil =>
    refine ⟨ch, rfl, table, ?_⟩
    simp [view, thin]
  | cons x xs ih =>
    rw [length_cons] at room
    obtain ⟨ch1, his, htb1, hsz1, hsk1, hcn1, hst1⟩ := insertHash_roomy x table degree (by omega)
    obtain ⟨ch', hr, htb', hv⟩ := ih htb1 hsz1 (by omega)
    refine ⟨ch', ?_, htb', ?_⟩
    · rw [foldlM_cons, his]
      exact hr
    · rw [hv, hsk1, hst1, Finset.union_assoc, ← thin_union, toFinset_cons, ← Finset.insert_eq]

variable {A : ChUnique}

/-- `MergeRead` of an encoding on a buffer that exists, step by step. -/
lemma mergeRead_marshallAppend (hbuf : A.buf ≠ []) (rest : Rest B)
    (tail : List UInt8) : A.mergeRead (B.marshallAppend [] ++ tail) =
      (if (ofNat B.skipDegree).toNat > A.skipDegree then A.rehash else some A).bind
        fun ch => (ch.growFor B.items.length).bind
          fun ch => (B.items.foldlM insertHash ch).map fun ch => (ch, .ok tail) := by
  obtain ⟨-, hm⟩ := rest.items_length
  have hb : B.items.length ≤ 65536 := hm
  have hr := readUvarint_putUvarint B.items.length (by omega) (B.items.flatMap putUint32 ++ tail)
  rw [marshallAppend_eq rest, nil_append, cons_append, cons_append,
    append_assoc, mergeRead, if_neg hbuf]
  simp only [readByte, hr, if_neg (not_lt.2 hm), readItems_eq, faithful_readTmp B.items tail]
  rfl

/-- The rehash of `MergeRead` keeps its old degree, so it drops nothing of that degree. -/
lemma mergeRead_rehash (ready : Ready A) (sd : Nat) :
    ∃ A1, (if sd > A.skipDegree then A.rehash else some A) = some A1 ∧ Ready A1 ∧
      A1.sizeDegree = A.sizeDegree ∧
      ((∀ x ∈ stored A, hashLevels.On A.skipDegree x) → view A1 = view A) := by
  by_cases hlt : sd > A.skipDegree
  · obtain ⟨A1, hr, hy, hs, hv⟩ := rehash_ready ready A.skipDegree
    refine ⟨A1, (if_pos hlt).trans hr, hy, hs, ?_⟩
    intro on
    rw [hv, thin_eq_self hashLevels on]
    rfl
  · exact ⟨A, if_neg hlt, ready, rfl, fun _ => rfl⟩

theorem mergeRead_ready (ready : Ready A) (rest : Rest B) (fits : ¬ Oversized A B) :
    ∃ A', (∀ tail, A.mergeRead (B.marshallAppend [] ++ tail) = some (A', .ok tail)) ∧ Ready A' ∧
      ((∀ x ∈ stored A, hashLevels.On A.skipDegree x) →
        view A' = offerAll hashLevels uniquesHashMaxSize (view A) B.items) := by
  obtain ⟨hc, hm⟩ := rest.items_length
  obtain ⟨A1, hr, hry1, hsz1, hv1⟩ := mergeRead_rehash ready (ofNat B.skipDegree).toNat
  have hg : B.items.length = uniquesHashMaxSize → uniquesHashMaxSize ≤ A1.bufSize := by
    intro hf
    by_contra hlt
    have hb : A1.bufSize = A.bufSize := by simp only [bufSize, hsz1]
    exact fits ⟨by omega, by omega⟩
  obtain ⟨A2, ha, hry2, hv2⟩ := growFor_ready hry1 hg hm
  obtain ⟨A', hn, ⟨hry', -⟩, hv'⟩ := (insertHash_refines 0).foldlM ⟨hry2, zero_le _⟩ B.items
  refine ⟨A', ?_, hry', ?_⟩
  · intro tail
    rw [mergeRead_marshallAppend ready.buf_ne_nil rest tail, hr, Option.bind_some, ha,
      Option.bind_some, hn]
    rfl
  · intro on
    rw [hv', hv2, hv1 on]
    rfl

theorem mergeRead_oversized (ready : Ready A) (rest : Rest B)
    (oversized : Oversized A B) (on : ∀ x ∈ stored A, hashLevels.On A.skipDegree x) :
    ∃ A', (∀ tail, A.mergeRead (B.marshallAppend [] ++ tail) = some (A', .ok tail)) ∧ Table A' ∧
      view A' = ⟨A.skipDegree, stored A ∪ thin hashLevels A.skipDegree (stored B)⟩ := by
  obtain ⟨hc, -⟩ := rest.items_length
  obtain ⟨hf, ha⟩ := oversized
  obtain ⟨A1, hr, hry1, hsz1, hv1⟩ := mergeRead_rehash ready (ofNat B.skipDegree).toNat
  have hb : A1.bufSize = A.bufSize := by simp only [bufSize, hsz1]
  have hl : B.items.length = uniquesHashMaxSize := by omega
  obtain ⟨A2, hg, htb2, hv2, hsz2, hcn2⟩ := growFor_oversized hry1 (by omega)
  have hm : A2.itemsCount + B.items.length ≤ 131072 := by
    have hx : uniquesHashMaxSize = 65536 := rfl
    omega
  obtain ⟨A', hn, htb', hv'⟩ := insertHash_foldlM_roomy B.items htb2 hsz2 hm
  refine ⟨A', ?_, htb', ?_⟩
  · intro tail
    rw [mergeRead_marshallAppend ready.buf_ne_nil rest tail, hr, Option.bind_some, hl,
      hg, Option.bind_some, hn]
    rfl
  · have hv := hv2.trans (hv1 on)
    have hs : A2.skipDegree = A.skipDegree := congrArg State.degree hv
    have ht : stored A2 = stored A := congrArg State.elems hv
    rw [hv', hs, ht, stored_toFinset_items]

/-- What `MergeRead` of the bytes of `B` should leave in `A`. The union is that of `A` and
of the value `C` that `UmMarshall` reads from the same bytes. -/
def ReadsAsUnion (A B : ChUnique) : Prop :=
  ∃ A' C, (∀ tail, A.mergeRead (B.marshallAppend [] ++ tail) = some (A', .ok tail)) ∧
    zeroValue.umMarshall (B.marshallAppend []) = some (C, .ok []) ∧
    LeastFrom hashLevels uniquesHashMaxSize (max A.skipDegree C.skipDegree)
      (stored A ∪ stored C) A'.skipDegree ∧
    stored A' = (stored A ∪ stored C).filter (fun x => 2 ^ A'.skipDegree ∣ x.toNat) ∧
    A'.itemsCount = (stored A').card

/-- The states on which it does. -/
def DegreeForced (A B : ChUnique) : Prop := A.buf = [] ∨
  (¬ Oversized A B ∧ (B.skipDegree ≤ A.skipDegree ∨ uniquesHashMaxSize <
    (thin hashLevels (B.skipDegree - 1) (stored A ∪ stored B)).card)) ∨
  (Oversized A B ∧ B.skipDegree ≤ A.skipDegree ∧
    (thin hashLevels A.skipDegree (stored A ∪ stored B)).card ≤ uniquesHashMaxSize)

/-- What the bytes of an inserted set hold: the set itself. -/
lemma umMarshall_marshallAppend (rest : Rest B) (small : B.skipDegree ≤ 16) :
    ∃ C, (∀ tail, zeroValue.umMarshall (B.marshallAppend [] ++ tail) =
        some (C, .ok tail)) ∧ view C = view B ∧ C.itemsCount = (stored C).card := by
  obtain ⟨C, hl, ht, hs, -, hk, -⟩ := load_marshallAppend faithful_readTmp zeroValue rest
  refine ⟨C, hl, State.ext ?_ hs, ht.card_stored.symm⟩
  change C.skipDegree = B.skipDegree
  omega

lemma readsAsUnion_iff_settled {A A' : ChUnique} (rest : Rest B) (small : B.skipDegree ≤ 16)
    (run : ∀ tail, A.mergeRead (B.marshallAppend [] ++ tail) = some (A', .ok tail))
    (count : A'.itemsCount = (stored A').card) :
    ReadsAsUnion A B ↔ Settled hashLevels uniquesHashMaxSize
      (max A.skipDegree B.skipDegree) (stored A ∪ stored B) (view A') := by
  obtain ⟨C, hd, hv, -⟩ := umMarshall_marshallAppend rest small
  have hk : C.skipDegree = B.skipDegree := congrArg State.degree hv
  have hs : stored C = stored B := congrArg State.elems hv
  have hld' := hd []
  rw [append_nil] at hld'
  constructor
  · rintro ⟨A'', C', hrn', hld'', hl, he, -⟩
    have hA := congrArg Prod.fst (Option.some.inj ((run []).symm.trans (hrn' [])))
    have hC : C = C' := congrArg Prod.fst (Option.some.inj (hld'.symm.trans hld''))
    subst hA hC
    rw [hk, hs] at hl
    rw [hs] at he
    exact ⟨hl, he⟩
  · rintro ⟨hl, he⟩
    refine ⟨A', C, run, hld', ?_, ?_, count⟩
    · rw [hk, hs]
      exact hl
    · rw [hs]
      exact he

lemma readsAsUnion_ready_iff (ready : Ready A)
    (settled : Settled hashLevels uniquesHashMaxSize 0 S (view A)) (rest : Rest B)
    (small : B.skipDegree ≤ 16) : ReadsAsUnion A B ↔ DegreeForced A B := by
  have on := settled.on
  have ha : Settled hashLevels uniquesHashMaxSize A.skipDegree (stored A) (view A) := by
    have hs : thin hashLevels A.skipDegree (stored A) = stored A := thin_eq_self hashLevels on
    refine ⟨⟨le_refl _, ?_, fun j hj hlt => absurd hlt (not_lt.2 hj)⟩, hs.symm⟩
    change (thin hashLevels A.skipDegree (stored A)).card ≤ _
    rw [hs]
    exact settled.card_le
  by_cases oversized : Oversized A B
  · obtain ⟨A', hr, ht, hv⟩ := mergeRead_oversized ready rest oversized on
    have hu : stored A ∪ thin hashLevels A.skipDegree (stored B) =
        thin hashLevels A.skipDegree (stored A ∪ stored B) := by
      rw [thin_union]
      congr 1
      exact (thin_eq_self hashLevels on).symm
    rw [readsAsUnion_iff_settled rest small hr ht.card_stored.symm, hv, hu]
    constructor
    · rintro ⟨⟨hlo, hf, -⟩, -⟩
      exact inr (inr ⟨oversized, le_trans (le_max_right _ _) hlo, hf⟩)
    · rintro (hn | ⟨hb, -⟩ | ⟨-, hle, hf⟩)
      · exact absurd hn ready.buf_ne_nil
      · exact absurd oversized hb
      · rw [max_eq_left hle]
        exact ⟨⟨le_refl _, hf, fun j hj hlt => absurd hlt (not_lt.2 hj)⟩, rfl⟩
  · obtain ⟨A', hr, hy, hv⟩ := mergeRead_ready ready rest oversized
    have hl := offerAll_settled thin_sixteen_card ha B.items
    rw [← hv on, stored_toFinset_items] at hl
    rw [readsAsUnion_iff_settled rest small hr hy.toTable.card_stored.symm, hl.shift_iff]
    constructor
    · intro h
      exact inr (inl ⟨oversized, h⟩)
    · rintro (hn | ⟨-, h⟩ | ⟨ho, -⟩)
      · exact absurd hn ready.buf_ne_nil
      · exact h
      · exact absurd ho oversized

lemma readsAsUnion_zeroValue (rest : Rest B)
    (settled : Settled hashLevels uniquesHashMaxSize 0 S (view B))
    (small : B.skipDegree ≤ 16) : ReadsAsUnion zeroValue B := by
  obtain ⟨C, hl, hv, hc⟩ := umMarshall_marshallAppend rest small
  have he : stored zeroValue = ∅ := rfl
  have hm : max zeroValue.skipDegree B.skipDegree = B.skipDegree := zero_max _
  have hs : thin hashLevels B.skipDegree (stored B) = stored B :=
    thin_eq_self hashLevels settled.on
  rw [readsAsUnion_iff_settled rest small
    (fun tail => (mergeRead_nil rfl _).trans (hl tail)) hc, hv, he,
    Finset.empty_union, hm]
  refine ⟨⟨le_refl _, ?_, fun j hj hlt => absurd hlt (not_lt.2 hj)⟩, hs.symm⟩
  change (thin hashLevels B.skipDegree (stored B)).card ≤ _
  rw [hs]
  exact settled.card_le

lemma settled_degree_le {s : State Hash} (h : Settled hashLevels uniquesHashMaxSize 0 S s) :
    s.degree ≤ 16 := by
  by_contra hgt
  have := h.1.2.2 16 (zero_le _) (by omega)
  have := thin_sixteen_card S
  omega

theorem mergeRead_union_iff {sa sb A B : ChUnique} (freshA : Fresh sa) (freshB : Fresh sb)
    {va vb : List (BitVec 64)} (runA : insertAll sa va = some A)
    (runB : insertAll sb vb = some B) : ReadsAsUnion A B ↔ DegreeForced A B := by
  obtain ⟨restA, settledA⟩ := insertAll_rest freshA runA
  obtain ⟨restB, settledB⟩ := insertAll_rest freshB runB
  have small := settled_degree_le settledB
  rcases restA with rfl | readyA
  · exact iff_of_true (readsAsUnion_zeroValue restB settledB small) (inl rfl)
  · exact readsAsUnion_ready_iff readyA settledA restB small

theorem mergeRead_union_iff_equal_degrees : ∃ A B, insertAll zeroValue [2] = some A ∧
      insertAll zeroValue [2, 5] = some B ∧ ReadsAsUnion A B := by
  obtain ⟨A, runA, -, settledA⟩ := insertAll_settled (inl rfl) [2]
  obtain ⟨B, runB, restB, settledB⟩ := insertAll_settled (inl rfl) [2, 5]
  obtain ⟨hd, he⟩ := settledB.of_card_le (le_trans (toFinset_card_le _) (by decide))
  refine ⟨A, B, runA, runB,
    (mergeRead_union_iff (inl rfl) (inl rfl) runA runB).2 (inr (inl ⟨?_, inl ?_⟩))⟩
  · rintro ⟨hf, -⟩
    have hc : (stored B).card ≤ 2 := by
      change (view B).elems.card ≤ 2
      rw [he]
      exact toFinset_card_le _
    have hn := restB.card_stored
    have hm : uniquesHashMaxSize = 65536 := rfl
    omega
  · change (view B).degree ≤ _
    rw [hd]
    exact zero_le _

/-- A set of one odd hash reads a set that has begun to thin and has room left. -/
theorem mergeRead_union_counterexample : ∃ va vb A B, insertAll zeroValue va = some A ∧
      insertAll zeroValue vb = some B ∧ ¬ ReadsAsUnion A B := by
  let x : Hash := uintHash32 2
  let y : Hash := uintHash32 5
  obtain ⟨vb, hg, hc⟩ := exists_vals_card [2, 5] (n := 65537)
    (le_trans (toFinset_card_le _) (by decide)) (by decide)
  obtain ⟨A, runA, restA, settledA⟩ := insertAll_settled (inl rfl) [2]
  obtain ⟨B, runB, restB, settledB⟩ := insertAll_settled (inl rfl) vb
  obtain ⟨hd, he⟩ := settledA.of_card_le (le_trans (toFinset_card_le _) (by decide))
  have hs : stored A = {x} := he
  have hp : A.skipDegree = 0 := hd
  have hf : 0 < B.skipDegree :=
    settledB.degree_pos (by rw [hc]; decide)
  have ha : ∀ z : Hash, z.toNat % 2 = 1 → z ∉ stored B := by
    intro z hz hm
    have hv : 2 ^ B.skipDegree ∣ z.toNat := settledB.on z hm
    have hw := dvd_trans (dvd_pow_self 2 (by omega)) hv
    omega
  have hb : stored B ⊆ ((hashes vb).erase x).erase y := by
    intro z hz
    have hin : z ∈ hashes vb := by
      have ht : stored B = thin hashLevels B.skipDegree (hashes vb) := settledB.2
      rw [ht, mem_thin] at hz
      exact hz.1
    refine Finset.mem_erase.2 ⟨?_, Finset.mem_erase.2 ⟨?_, hin⟩⟩
    · rintro rfl
      exact ha y (by decide) hz
    · rintro rfl
      exact ha x (by decide) hz
  have hi : (stored A ∪ stored B).card ≤ 65536 := by
    have hx : x ∈ hashes vb := hg (by decide)
    have hy : y ∈ (hashes vb).erase x := Finset.mem_erase.2 ⟨by decide, hg (by decide)⟩
    have hle := Finset.card_le_card hb
    rw [Finset.card_erase_of_mem hy, Finset.card_erase_of_mem hx, hc] at hle
    have hu := Finset.card_union_le (stored A) (stored B)
    rw [hs, Finset.card_singleton] at hu
    rw [hs]
    omega
  refine ⟨[2], vb, A, B, runA, runB, ?_⟩
  have readyA : Ready A := by
    apply restA.resolve_left
    rintro rfl
    exact absurd hs.symm (Finset.singleton_ne_empty x)
  rw [readsAsUnion_ready_iff readyA settledA restB (settled_degree_le settledB)]
  rintro (hn | ⟨-, hle | ho⟩ | ⟨-, hle, -⟩)
  · exact readyA.buf_ne_nil hn
  · omega
  · have hh := Finset.card_le_card
      (thin_subset hashLevels (B.skipDegree - 1) (stored A ∪ stored B))
    have hj : uniquesHashMaxSize = 65536 := rfl
    omega
  · omega

end ChUniqueMergeRead
