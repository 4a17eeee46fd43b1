import StatsHouse.ChUniqueTable
import StatsHouse.Refinement
import StatsHouse.Thinning

/-!
# ChUnique as a thinned set of hashes

The buffer and the zero flag are read as one finite set. Each table operation is
matched with its meaning on thinned sets: insertion adds, `rehash` thins, `resize`
changes nothing, and `shrinkIfNeed` settles. Insertion of any sequence of hashes is
then an exact function of the set of hashes inserted.
-/

namespace ChUniqueSet

open LinearProbing ChUniqueTable Thinning Refinement ChUnique Finset Nat Or
variable {ch : ChUnique}

/-- Level `k` holds the hashes divisible by `2 ^ k`. -/
def hashLevels : Levels Hash where
  On k x := 2 ^ k ∣ x.toNat
  dec k x := inferInstanceAs (Decidable (2 ^ k ∣ x.toNat))
  zero x := by simp
  anti k x h := dvd_trans (pow_dvd_pow 2 (le_succ k)) h

lemma good_iff (ch : ChUnique) (x : Hash) : ch.good x = true ↔ hashLevels.On ch.skipDegree x := by
  have hba : ((x >>> ch.skipDegree) <<< ch.skipDegree).toNat =
      x.toNat / 2 ^ ch.skipDegree * 2 ^ ch.skipDegree := by
    have hle := div_mul_le_self x.toNat (2 ^ ch.skipDegree)
    rw [BitVec.toNat_shiftLeft, BitVec.toNat_ushiftRight, shiftLeft_eq,
      shiftRight_eq_div_pow, mod_eq_of_lt (by omega)]
  simp only [good, beq_iff_eq]
  rw [← BitVec.toNat_inj, hba]
  exact eq_comm.trans (dvd_iff_div_mul_eq x.toNat (2 ^ ch.skipDegree)).symm

lemma on_zero (k : Nat) : hashLevels.On k 0 := by simp [hashLevels]

/-- On level 16 there is room for every hash. -/
lemma thin_sixteen_card (S : Finset Hash) : (thin hashLevels 16 S).card ≤ uniquesHashMaxSize := by
  have hm : (thin hashLevels 16 S).card ≤ (range (2 ^ 16)).card := by
    apply card_le_card_of_injOn (fun x => x.toNat / 2 ^ 16)
    · intro x _
      simp only [coe_range, Set.mem_Iio]
      omega
    · intro x hx y hy ha
      have hx' : 2 ^ 16 ∣ x.toNat := ((mem_thin hashLevels).1 hx).2
      have hy' : 2 ^ 16 ∣ y.toNat := ((mem_thin hashLevels).1 hy).2
      dsimp only at ha
      apply BitVec.eq_of_toNat_eq
      omega
  rw [card_range] at hm
  exact hm

/-- The stored set: the non-zero cells, and zero if its flag is set. -/
def stored (ch : ChUnique) : Finset Hash :=
  (ch.buf.filter (· ≠ 0)).toFinset ∪ if ch.hasZeroItem then {0} else ∅

def view (ch : ChUnique) : State Hash := ⟨ch.skipDegree, stored ch⟩

lemma mem_stored {x : Hash} :
    x ∈ stored ch ↔ x ∈ occupied ch.buf ∨ (x = 0 ∧ ch.hasZeroItem = true) := by
  simp only [stored, mem_union, occupied]
  cases ch.hasZeroItem <;> simp

lemma stored_toFinset_items (ch : ChUnique) : ch.items.toFinset = stored ch := by
  simp only [items, stored]
  cases ch.hasZeroItem <;> simp

/-- The count is the number of non-zero cells, and one more for zero. -/
def Honest (ch : ChUnique) : Prop :=
  ch.itemsCount = (occupied ch.buf).card + if ch.hasZeroItem then 1 else 0

/-- The count is honest exactly when `MarshallAppend` writes as many items as it says. -/
lemma honest_iff_items (ch : ChUnique) : Honest ch ↔ ch.itemsCount = ch.items.length := by
  have hl : (ch.items.length : Int) =
      (occupied ch.buf).card + if ch.hasZeroItem then 1 else 0 := by
    rw [items, List.length_append]
    change _ = ((ch.buf.filter (· ≠ 0)).length : Int) + _
    cases ch.hasZeroItem <;> simp [Int.add_comm]
  rw [hl]
  exact .rfl

/-- A buffer of the right length whose entries are distinct, reachable and counted. -/
structure Table (ch : ChUnique) : Prop where
  sized : Sized ch
  nodup : (occupied ch.buf).Nodup
  chained : Chained ch
  honest : Honest ch

lemma Table.card_stored (table : Table ch) : ((stored ch).card : Int) = ch.itemsCount := by
  have hn := table.nodup
  have hc : (ch.buf.filter (· ≠ 0)).toFinset.card = (occupied ch.buf).card :=
    List.toFinset_card_of_nodup hn
  have hz : 0 ∉ (ch.buf.filter (· ≠ 0)).toFinset := by
    simp
  rw [table.honest, ← hc, stored]
  cases ch.hasZeroItem with
  | false => simp
  | true =>
    rw [if_pos rfl, if_pos rfl, union_comm, ← insert_eq, card_insert_of_notMem hz]
    rfl

lemma Table.occupied_card_le (table : Table ch) :
    ((occupied ch.buf).card : Int) ≤ ch.itemsCount := by
  rw [table.honest]
  cases ch.hasZeroItem <;> simp

lemma exists_free (sized : Sized ch) (few : (occupied ch.buf).card < ch.bufSize) :
    ∃ f < ch.bufSize, cell ch.buf f = 0 := by
  have hl : ch.buf.length = ch.bufSize := sized
  have few' : (occupied ch.buf).card < ch.buf.length - 0 := by omega
  obtain ⟨f, hf, -, hr⟩ := exists_free_from few'
  exact ⟨f, by omega, hr⟩

/-- A chained table that stops at a free cell does not hold the value looked for. -/
lemma absent_of_free {x : Hash} {h : Nat} (table : Table ch) (hx : x ≠ 0)
    (hw : ch.walk (fun v => v == x || v == 0) x = some h) (free : cell ch.buf h = 0)
    (few : (occupied ch.buf).card < ch.bufSize) : x ∉ occupied ch.buf := by
  intro hm
  have hl : ch.buf.length = ch.bufSize := table.sized
  obtain ⟨f, hf, hr⟩ := exists_free table.sized few
  obtain ⟨-, i, hi, hc⟩ := mem_occupied.1 hm
  have hn := table.chained i (by omega) (by rw [hc]; exact hx)
  have hp := place_lt ch (cell ch.buf i)
  obtain ⟨ahead, path⟩ := linked_of_run (by omega) (by omega) hr hn
  rw [hl, hc] at ahead path
  obtain ⟨ha, hhi, -⟩ := walk_spec hw hf (by omega) ahead (by simp [hc])
  exact path h (walk_some hw).1 ha (zero_le _) hhi free

/-- The zero item has no cell: a flag stands for it. -/
lemma insertImpl_zero (table : Table ch) :
    ∃ ch', ch.insertImpl 0 = some ch' ∧ Table ch' ∧ stored ch' = insert 0 (stored ch) ∧
      ch'.sizeDegree = ch.sizeDegree ∧ ch'.skipDegree = ch.skipDegree := by
  cases hz : ch.hasZeroItem with
  | true =>
    refine ⟨ch, by simp [insertImpl, hz], table, ?_, rfl, rfl⟩
    rw [insert_eq_self.2]
    exact mem_stored.2 (inr ⟨rfl, hz⟩)
  | false =>
    refine ⟨{ ch with itemsCount := ch.itemsCount + 1, hasZeroItem := true },
      by simp [insertImpl, hz],
      ⟨table.sized, table.nodup, table.chained, ?_⟩, ?_, rfl, rfl⟩
    · have := table.honest
      simp only [Honest, hz] at this ⊢
      simp only [this, if_true, Bool.false_eq_true, if_false]
      omega
    · ext y
      rw [mem_insert, mem_stored, mem_stored]
      simp [hz, or_comm]

/-- A new entry in the first free cell of its path. -/
lemma table_fill {x : Hash} {h cut : Nat} (table : Table ch) (hx : x ≠ 0)
    (hab : x ∉ occupied ch.buf) (hc : cut < ch.bufSize) (hh : h < ch.bufSize)
    (free : cell ch.buf h = 0) (reached : rank ch.bufSize cut (ch.place x) ≤ rank ch.bufSize cut h)
    (before : ∀ r < ch.bufSize, rank ch.bufSize cut (ch.place x) ≤ rank ch.bufSize cut r →
      rank ch.bufSize cut r < rank ch.bufSize cut h → cell ch.buf r ≠ 0) :
    Table { ch with buf := ch.buf.set h x, itemsCount := ch.itemsCount + 1 } ∧
      stored { ch with buf := ch.buf.set h x, itemsCount := ch.itemsCount + 1 } =
        insert x (stored ch) := by
  have hl : ch.buf.length = ch.bufSize := table.sized
  have ho := occupied_fill (by omega) free hx
  refine ⟨⟨?_, ?_, ?_, ?_⟩, ?_⟩
  · change (ch.buf.set h x).length = ch.bufSize
    rw [List.length_set]
    exact hl
  · change (occupied (ch.buf.set h x)).Nodup
    rw [ho, Multiset.nodup_cons]
    exact ⟨hab, table.nodup⟩
  · exact chained_fill table.sized table.chained hx hc hh reached before
  · have := table.honest
    simp only [Honest] at this ⊢
    rw [ho, Multiset.card_cons, this]
    omega
  · ext y
    rw [mem_insert, mem_stored, mem_stored]
    rw [ho, Multiset.mem_cons, or_assoc]

theorem insertImpl_spec (x : Hash) (table : Table ch) (few : (occupied ch.buf).card < ch.bufSize) :
    ∃ ch', ch.insertImpl x = some ch' ∧ Table ch' ∧ stored ch' = insert x (stored ch) ∧
      ch'.sizeDegree = ch.sizeDegree ∧ ch'.skipDegree = ch.skipDegree := by
  by_cases hx : x = 0
  · subst hx
    exact insertImpl_zero table
  · obtain ⟨f, hf, ha⟩ := exists_free table.sized few
    have hp := rank_lt hf (place_lt ch x)
    obtain ⟨h, hh, hw, hs⟩ := walk_total ch (fun v => v == x || v == 0) x hf (by simp [ha])
    obtain ⟨hl, -, before⟩ := walk_spec hw hf hf (by rw [rank_cut hf]; omega) (by simp [ha])
    have hi : ch.insertImpl x = some (if cell ch.buf h = x then ch
        else { ch with buf := ch.buf.set h x, itemsCount := ch.itemsCount + 1 }) := by
      simp only [insertImpl, if_neg hx, hw, Option.map_some]
    by_cases hn : cell ch.buf h = x
    · rw [if_pos hn] at hi
      refine ⟨ch, hi, table, ?_, rfl, rfl⟩
      rw [insert_eq_self.2]
      exact mem_stored.2 (inl (mem_occupied.2 ⟨hx, h, table.sized.symm ▸ hh, hn⟩))
    · rw [if_neg hn] at hi
      have hz : cell ch.buf h = 0 := by
        simp only [Bool.or_eq_true, beq_iff_eq] at hs
        exact hs.resolve_left hn
      have hab := absent_of_free table hx hw hz few
      obtain ⟨ht, hb⟩ := table_fill table hx hab hf hh hz hl (by
        intro r hr hc hg
        have := before r hr hc hg
        simp only [Bool.or_eq_false_iff, beq_eq_false_iff_ne] at this
        exact this.2)
      exact ⟨_, hi, ht, hb, rfl, rfl⟩

theorem rehash_stored (table : Table ch) (few : (occupied ch.buf).card < ch.bufSize) :
    ∃ ch', ch.rehash = some ch' ∧ Table ch' ∧
      stored ch' = thin hashLevels ch.skipDegree (stored ch) ∧
      ch'.sizeDegree = ch.sizeDegree ∧ ch'.skipDegree = ch.skipDegree ∧
      (occupied ch'.buf).card ≤ (occupied ch.buf).card := by
  obtain ⟨ch', hh, hf, ho, hc⟩ := rehash_spec table.sized
  have hd := hf.fields
  have hr : ch'.hasZeroItem = ch.hasZeroItem := by rw [hd]
  refine ⟨ch', hh, ⟨hf.sized table.sized, ?_, ?_, ?_⟩, ?_, by rw [hd],
    by rw [hd], ?_⟩
  · rw [ho]
    exact table.nodup.filter _
  · exact hc table.chained (exists_free table.sized few)
  · have ha := hf.count
    have := table.honest
    simp only [Honest, hr] at this ⊢
    omega
  · ext x
    rw [mem_thin, mem_stored, mem_stored, ho, Multiset.mem_filter, hr, good_iff]
    constructor
    · rintro (⟨hm, hn⟩ | ⟨rfl, hz⟩)
      · exact ⟨inl hm, hn⟩
      · exact ⟨inr ⟨rfl, hz⟩, on_zero _⟩
    · rintro ⟨hm | hz, hn⟩
      · exact inl ⟨hm, hn⟩
      · exact inr hz
  · rw [ho]
    exact Multiset.card_le_card (Multiset.filter_le _ _)

theorem resize_stored {newSizeDegree : Nat} (table : Table ch)
    (few : (occupied ch.buf).card < ch.bufSize) (hlt : ch.sizeDegree < newSizeDegree) :
    ∃ ch', ch.resize newSizeDegree = some ch' ∧ Table ch' ∧ stored ch' = stored ch ∧
      ch'.sizeDegree = newSizeDegree ∧ ch'.skipDegree = ch.skipDegree ∧
      ch'.itemsCount = ch.itemsCount := by
  obtain ⟨ch', hr, hh⟩ := resize_chained table.sized table.nodup few hlt
  obtain ⟨hs, ho, hf⟩ := resize_returns table.sized (le_of_lt hlt) hr
  have hz : ch'.hasZeroItem = ch.hasZeroItem := by rw [hf]
  have hc : ch'.itemsCount = ch.itemsCount := by rw [hf]
  refine ⟨ch', hr, ⟨hs, ?_, hh, ?_⟩, ?_, by rw [hf], by rw [hf], hc⟩
  · rw [ho]
    exact table.nodup
  · have := table.honest
    simp only [Honest, hz, hc, ho] at this ⊢
    exact this
  · ext x
    rw [mem_stored, mem_stored, ho, hz]

/-- A table at rest: at most half full, with at most `2 ^ 17` cells. -/
structure Ready (ch : ChUnique) : Prop extends Table ch where
  low : uniquesHashSetInitialSizeDegree ≤ ch.sizeDegree
  high : ch.sizeDegree ≤ uniquesHashMaxSizeDegree
  fill : ch.itemsCount ≤ ch.maxFill

lemma bufSize_eq (low : 4 ≤ ch.sizeDegree) : ch.bufSize = 2 * ch.maxFill ∧ 8 ≤ ch.maxFill := by
  have hp : 2 ^ ch.sizeDegree = 2 * 2 ^ (ch.sizeDegree - 1) := by
    rw [← pow_succ']
    congr 1
    omega
  have hf : ch.maxFill = 2 ^ (ch.sizeDegree - 1) := by
    simp only [maxFill, if_neg (show ch.sizeDegree ≠ 0 by omega)]
  rw [hf]
  refine ⟨hp, ?_⟩
  calc 8 = 2 ^ 3 := rfl
    _ ≤ 2 ^ (ch.sizeDegree - 1) := Nat.pow_le_pow_right (by decide) (by omega)

lemma maxFill_le (low : 4 ≤ ch.sizeDegree) (high : ch.sizeDegree ≤ 17) :
    ch.maxFill ≤ uniquesHashMaxSize := by
  simp only [maxFill, if_neg (show ch.sizeDegree ≠ 0 by omega)]
  exact Nat.pow_le_pow_right (by decide) (by
    simp only [uniquesHashMaxSizeDegree]
    omega)

lemma Ready.count_le (ready : Ready ch) : ch.itemsCount ≤ uniquesHashMaxSize := by
  have hm := maxFill_le ready.low ready.high
  have := ready.fill
  omega

lemma Ready.few (ready : Ready ch) : (occupied ch.buf).card + 1 < ch.bufSize := by
  obtain ⟨hs, he⟩ := bufSize_eq ready.low
  have := ready.fill
  have := ready.toTable.occupied_card_le
  omega

/-- The thinning loop stops at the least higher degree at which the set fits. Two more
turns than the degrees up to 16 are enough. -/
lemma thinOut_spec (fuel : Nat) (table : Table ch) (few : (occupied ch.buf).card < ch.bufSize)
    (excess : ch.itemsCount > uniquesHashMaxSize) (henough : 2 ≤ fuel)
    (enough : 18 ≤ fuel + ch.skipDegree) : ∃ ch', thinOut fuel ch = some ch' ∧ Table ch' ∧
      ch'.sizeDegree = ch.sizeDegree ∧ ch'.itemsCount ≤ uniquesHashMaxSize ∧
      LeastFrom hashLevels uniquesHashMaxSize (ch.skipDegree + 1) (stored ch)
        ch'.skipDegree ∧ stored ch' = thin hashLevels ch'.skipDegree (stored ch) := by
  induction fuel generalizing ch with
  | zero => omega
  | succ fuel ih =>
    let up : ChUnique := { ch with skipDegree := ch.skipDegree + 1 }
    have ht : Table up := ⟨table.sized, table.nodup, table.chained, table.honest⟩
    obtain ⟨ch1, hr, htb1, hst1, hsz1, hsk1, hcd1⟩ := rehash_stored ht few
    have hs : stored ch1 = thin hashLevels (ch.skipDegree + 1) (stored ch) := hst1
    have hk : ch1.skipDegree = ch.skipDegree + 1 := hsk1
    have hz : ch1.sizeDegree = ch.sizeDegree := hsz1
    have hb : ch1.bufSize = ch.bufSize := by
      simp only [bufSize, hz]
    have hc := htb1.card_stored
    have hl : thinOut (fuel + 1) ch = thinOut fuel ch1 := by
      simp only [thinOut, if_pos excess]
      rw [hr]
      rfl
    rw [hl]
    by_cases hf : ch1.itemsCount > uniquesHashMaxSize
    · have hg : ch.skipDegree + 1 < 16 := by
        by_contra hge
        have hle := card_thin_anti hashLevels (show 16 ≤ ch.skipDegree + 1 by omega) (stored ch)
        have := thin_sixteen_card (stored ch)
        rw [← hs] at hle
        omega
      have hcd1' : (occupied ch1.buf).card ≤ (occupied ch.buf).card := hcd1
      obtain ⟨ch', hh, htb', hsz', hcn', hls', hst'⟩ :=
        ih htb1 (by omega) hf (by omega) (by omega)
      have hu : ch.skipDegree + 1 ≤ ch'.skipDegree := by
        have := hls'.1
        omega
      rw [hs] at hls' hst'
      refine ⟨ch', hh, htb', by omega, hcn', (hls'.of_thin (by omega)).extend ?_ hu, ?_⟩
      · intro j hj hlt
        have hj' : j = ch.skipDegree + 1 := by omega
        rw [hj', ← hs]
        omega
      · rw [hst', thin_thin_of_le hashLevels hu]
    · have hd : thinOut fuel ch1 = some ch1 := by
        obtain ⟨fuel', rfl⟩ : ∃ fuel', fuel = fuel' + 1 := ⟨fuel - 1, by omega⟩
        simp only [thinOut, if_neg hf]
      refine ⟨ch1, hd, htb1, hz, by omega, ⟨by omega, ?_, ?_⟩, ?_⟩
      · rw [hk, ← hs]
        omega
      · intro j hj hlt
        omega
      · rw [hs, hk]

theorem shrinkIfNeed_spec (table : Table ch) (low : 4 ≤ ch.sizeDegree) (high : ch.sizeDegree ≤ 17)
    (fill : ch.itemsCount ≤ ch.maxFill + 1) :
    ∃ ch', ch.shrinkIfNeed = some ch' ∧ Ready ch' ∧ ch.sizeDegree ≤ ch'.sizeDegree ∧
      view ch' = settle hashLevels uniquesHashMaxSize (view ch) := by
  obtain ⟨ha, he⟩ := bufSize_eq low
  have hm := maxFill_le low high
  have hc := table.card_stored
  have hb := table.occupied_card_le
  by_cases hr : ch.itemsCount ≤ ch.maxFill
  · refine ⟨ch, by simp only [shrinkIfNeed, if_pos hr], ⟨table, low, high, hr⟩, le_refl _, ?_⟩
    rw [settle_of_le]
    change (stored ch).card ≤ _
    omega
  · by_cases ho : ch.itemsCount > uniquesHashMaxSize
    · obtain ⟨ch', ht, htb', hsz', hcn', hl, hs⟩ :=
        thinOut_spec 34 table (by omega) ho (by decide) (by omega)
      have hf : ch'.maxFill = ch.maxFill := by
        simp only [maxFill, hsz']
      have hu : ch.maxFill = uniquesHashMaxSize := by omega
      refine ⟨ch', by simp [shrinkIfNeed, if_neg hr, if_pos ho, ht],
        ⟨htb', ?_, ?_, by omega⟩, by omega, ?_⟩
      · rw [hsz']
        exact low
      · rw [hsz']
        exact high
      · rw [settle_of_gt (by change _ < (stored ch).card; omega) hl]
        simp only [view, hs]
    · have hd : ch.sizeDegree < 17 := by
        by_contra hge
        have h17 : ch.sizeDegree = 17 := by omega
        have hu : ch.maxFill = uniquesHashMaxSize := by
          simp only [maxFill, h17]
          rfl
        omega
      obtain ⟨ch', hz, htb', hs, hsz', hk, hn⟩ :=
        resize_stored table (by omega)
          (lt_succ_self ch.sizeDegree)
      have hf : ch'.maxFill = 2 * ch.maxFill := by
        obtain ⟨hsz'', -⟩ := bufSize_eq (show 4 ≤ ch'.sizeDegree by omega)
        have hp : ch'.bufSize = 2 * ch.bufSize := by
          simp only [bufSize, hsz']
          omega
        omega
      refine ⟨ch', by simp [shrinkIfNeed, if_neg hr, if_neg ho, hz],
        ⟨htb', ?_, ?_, by omega⟩, by omega, ?_⟩
      · change 4 ≤ ch'.sizeDegree
        omega
      · change ch'.sizeDegree ≤ 17
        omega
      · rw [settle_of_le]
        · simp [view, hs, hk]
        · change (stored ch).card ≤ _
          omega

/-- Unfiltered insertion followed by `shrinkIfNeed`, as `Merge` does it. -/
theorem insertImpl_shrink (ready : Ready ch) (x : Hash) :
    ∃ ch', (ch.insertImpl x).bind shrinkIfNeed = some ch' ∧ Ready ch' ∧
      ch.sizeDegree ≤ ch'.sizeDegree ∧
      view ch' = add hashLevels uniquesHashMaxSize (view ch) x := by
  have hf := ready.few
  obtain ⟨ch1, hi, htb1, ht, hs, hk⟩ := insertImpl_spec x ready.toTable (by omega)
  have hc := ready.toTable.card_stored
  have hcd1 := htb1.card_stored
  have hg := card_insert_le x (stored ch)
  rw [← ht] at hg
  have hl : ch1.maxFill = ch.maxFill := by
    simp only [maxFill, hs]
  have := ready.fill
  have low : 4 ≤ ch1.sizeDegree := hs ▸ ready.low
  have high : ch1.sizeDegree ≤ 17 := hs ▸ ready.high
  obtain ⟨ch', hh, hrd', hsz', hv⟩ := shrinkIfNeed_spec htb1 low high (by omega)
  refine ⟨ch', by rw [hi]; exact hh, hrd', by omega, ?_⟩
  rw [hv]
  simp [view, ht, hk, add]

/-- Filtered insertion is `offer` on the stored set. -/
theorem insertHash_spec (ready : Ready ch) (x : Hash) :
    ∃ ch', ch.insertHash x = some ch' ∧ Ready ch' ∧ ch.sizeDegree ≤ ch'.sizeDegree ∧
      view ch' = offer hashLevels uniquesHashMaxSize (view ch) x := by
  by_cases hg : ch.good x = false
  · refine ⟨ch, by simp only [insertHash, if_pos hg], ready, le_refl _, ?_⟩
    have hf : ¬hashLevels.On (view ch).degree x := by
      intro ho
      rw [(good_iff ch x).2 ho] at hg
      cases hg
    rw [offer, if_neg hf]
  · obtain ⟨ch', hin, hr, hs, hv⟩ := insertImpl_shrink ready x
    refine ⟨ch', by simp [insertHash, if_neg hg, hin], hr, hs, ?_⟩
    have ho : hashLevels.On (view ch).degree x := (good_iff ch x).1 (by simpa using hg)
    rw [offer, if_pos ho, hv]

lemma reset_ready (ch : ChUnique) : Ready ch.reset := by
  have ho : occupied ch.reset.buf = 0 := occupied_replicate_zero _
  refine ⟨⟨by simp [ChUniqueTable.Sized, reset, bufSize],
    by rw [ho]; exact Multiset.nodup_zero, ?_, ?_⟩, le_refl _, ?_, Int.natCast_nonneg _⟩
  · intro q _ hne
    refine absurd ?_ hne
    simp only [reset, cell, List.getD_eq_getElem?_getD, List.getElem?_replicate]
    split <;> rfl
  · rw [Honest, ho]
    rfl
  · change 4 ≤ 17
    decide

lemma reset_view (ch : ChUnique) : view ch.reset = ⟨0, ∅⟩ := by
  have ho : occupied ch.reset.buf = 0 := occupied_replicate_zero _
  ext x
  · rfl
  · change x ∈ stored ch.reset ↔ _
    rw [mem_stored, ho]
    simp [reset]

lemma settled_empty : Settled hashLevels uniquesHashMaxSize 0 ∅ ⟨0, ∅⟩ := by
  refine ⟨⟨le_refl _, by simp [thin], fun j _ hj => absurd hj (not_lt_zero j)⟩, ?_⟩
  simp [thin]

lemma buf_ne_nil (sized : Sized ch) : ch.buf ≠ [] := by
  intro hn
  have hl : ch.buf.length = ch.bufSize := sized
  have := bufSize_pos ch
  rw [hn, List.length_nil] at hl
  omega

lemma Ready.buf_ne_nil (ready : Ready ch) : ch.buf ≠ [] := ChUniqueSet.buf_ne_nil ready.sized

lemma Ready.ensureBuf (ready : Ready ch) : ch.ensureBuf = ch := by
  simp only [ChUnique.ensureBuf, if_neg ready.buf_ne_nil]

/-- A value at rest: never used, or a table at rest. -/
def Rest (ch : ChUnique) : Prop := ch = zeroValue ∨ Ready ch

section

variable (rest : Rest ch)
include rest

lemma Rest.card_stored : ((stored ch).card : Int) = ch.itemsCount := by
  rcases rest with rfl | ready
  · rfl
  · exact ready.toTable.card_stored

lemma Rest.card_le : (view ch).elems.card ≤ uniquesHashMaxSize := by
  rcases rest with rfl | ready
  · exact zero_le _
  · have hc := ready.toTable.card_stored
    have hle := ready.count_le
    change (stored ch).card ≤ _
    omega

lemma Rest.honest : Honest ch := by
  rcases rest with rfl | ready
  · rfl
  · exact ready.honest

lemma Rest.nodup : (occupied ch.buf).Nodup := by
  rcases rest with rfl | ready
  · exact List.nodup_nil
  · exact ready.nodup

lemma Rest.items_length :
    ch.itemsCount = ch.items.length ∧ ch.items.length ≤ uniquesHashMaxSize := by
  have hit := (honest_iff_items ch).1 rest.honest
  have hc := rest.card_stored
  have hle : (stored ch).card ≤ uniquesHashMaxSize := rest.card_le
  omega

lemma Rest.ensureBuf : Ready ch.ensureBuf ∧ view ch.ensureBuf = view ch := by
  rcases rest with rfl | ready
  · exact ⟨reset_ready zeroValue, reset_view zeroValue⟩
  · rw [ready.ensureBuf]
    exact ⟨ready, rfl⟩

end

lemma insertHash_refines (d : Nat) :
    Refines (fun ch => Ready ch ∧ d ≤ ch.sizeDegree) view insertHash
      (offer hashLevels uniquesHashMaxSize) := by
  rintro ch x ⟨ready, hs⟩
  obtain ⟨ch', hin, hr, hg, hv⟩ := insertHash_spec ready x
  exact ⟨ch', hin, ⟨hr, le_trans hs hg⟩, hv⟩

lemma insertHash_rest_refines : Refines Rest view (fun ch x => ch.ensureBuf.insertHash x)
      (offer hashLevels uniquesHashMaxSize) := by
  intro ch x rest
  obtain ⟨ready, hs⟩ := rest.ensureBuf
  obtain ⟨ch', hin, hr, -, hv⟩ := insertHash_spec ready x
  exact ⟨ch', hin, inr hr, by rw [hv, hs]⟩

/-- A sequence of hashes passed to `insertHash`, with the reset that `Insert` does. -/
def insertHashes (start : ChUnique) (hs : List Hash) : Option ChUnique :=
  hs.foldlM (fun ch x => ch.ensureBuf.insertHash x) start

/-- Where insertion starts: the zero value, or any value after `Reset`. -/
def Fresh (start : ChUnique) : Prop := start = zeroValue ∨ ∃ ch : ChUnique, start = ch.reset

lemma Fresh.rest {start : ChUnique} (fresh : Fresh start) : Rest start ∧ view start = ⟨0, ∅⟩ := by
  rcases fresh with rfl | ⟨ch, rfl⟩
  · exact ⟨inl rfl, rfl⟩
  · exact ⟨inr (reset_ready ch), reset_view ch⟩

/-- Insertion leaves a value at rest with the thinned set of everything inserted. -/
theorem insertHashes_settled {start : ChUnique} (fresh : Fresh start) (hs : List Hash) :
    ∃ ch, insertHashes start hs = some ch ∧ Rest ch ∧
      Settled hashLevels uniquesHashMaxSize 0 hs.toFinset (view ch) := by
  obtain ⟨hr, he⟩ := fresh.rest
  obtain ⟨ch, hn, hrs', hv⟩ := insertHash_rest_refines.foldlM hr hs
  refine ⟨ch, hn, hrs', ?_⟩
  rw [hv, he]
  have ha := offerAll_settled thin_sixteen_card settled_empty hs
  exact ha

/-- The state is exactly what the set `S` of inserted hashes calls for. -/
structure Exact (S : Finset Hash) (ch : ChUnique) : Prop where
  stored_eq : stored ch = S.filter (fun x => 2 ^ ch.skipDegree ∣ x.toNat)
  fits : (S.filter (fun x => 2 ^ ch.skipDegree ∣ x.toNat)).card ≤ uniquesHashMaxSize
  least : ∀ j < ch.skipDegree, uniquesHashMaxSize < (S.filter (fun x => 2 ^ j ∣ x.toNat)).card
  count : ch.itemsCount = (stored ch).card
  distinct : ∀ i < ch.buf.length, ∀ j < ch.buf.length,
    cell ch.buf i ≠ 0 → cell ch.buf i = cell ch.buf j → i = j
  reachable : ∀ i < ch.buf.length, cell ch.buf i ≠ 0 → Run ch.buf (ch.place (cell ch.buf i)) i

/-- Every sequence of insertions ends in the state that its set of hashes calls for, so
two sequences with the same hashes, in any order and with any repetitions, agree. -/
theorem insertHashes_exact (start : ChUnique) (fresh : Fresh start) (hs : List Hash) :
    ∃ ch, insertHashes start hs = some ch ∧ Exact hs.toFinset ch ∧
      ∀ start' hs' ch', Fresh start' → (∀ x, x ∈ hs' ↔ x ∈ hs) →
        insertHashes start' hs' = some ch' →
        stored ch' = stored ch ∧ ch'.itemsCount = ch.itemsCount ∧
          ch'.skipDegree = ch.skipDegree := by
  obtain ⟨ch, hn, hr, hl⟩ := insertHashes_settled fresh hs
  refine ⟨ch, hn, ⟨hl.2, hl.1.2.1, fun j hj => hl.1.2.2 j (zero_le _) hj,
    hr.card_stored.symm, ?_, ?_⟩, ?_⟩
  · rcases hr with rfl | hd
    · intro i hi
      exact absurd hi (not_lt_zero i)
    · intro i hi j hj hne ha
      exact occupied_unique hd.nodup hi hj hne ha
  · rcases hr with rfl | hd
    · intro i hi
      exact absurd hi (not_lt_zero i)
    · intro i hi hne
      exact hd.chained i (hd.sized ▸ hi) hne
  · intro start' hs' ch' fresh' ha hrn'
    obtain ⟨ch'', hrn'', hrs'', hsl''⟩ := insertHashes_settled fresh' hs'
    have heq := Option.some.inj (hrn''.symm.trans hrn')
    subst heq
    have he : hs'.toFinset = hs.toFinset := by
      ext x
      simpa using ha x
    rw [he] at hsl''
    have hv := hsl''.unique hl
    have ht : stored ch'' = stored ch := congrArg State.elems hv
    refine ⟨ht, ?_, congrArg State.degree hv⟩
    rw [← hrs''.card_stored, ← hr.card_stored, ht]

theorem insertHashes_exact_duplicates :
    Fresh zeroValue ∧ ∃ ch, insertHashes zeroValue [7, 0, 7] = some ch ∧
        Exact [7, 0, 7].toFinset ch := by
  obtain ⟨ch, hr, hexact, -⟩ := insertHashes_exact zeroValue (inl rfl) [7, 0, 7]
  exact ⟨inl rfl, ch, hr, hexact⟩

end ChUniqueSet
