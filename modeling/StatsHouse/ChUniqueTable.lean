import StatsHouse.ChUnique

/-!
# The cells of ChUnique under rehash and resize

`rehash` and `resize` move entries inside the buffer. Neither loses or duplicates an
entry, and both leave every entry reachable from its place. The argument cuts the
circle at a cell that stays free: for `rehash` any free cell will do, since entries
only move back towards their place; for `resize` it is a cell of the new half that
is still free when the old half has been swept.
-/

namespace ChUniqueTable

open LinearProbing List Option ChUnique Nat Or
variable {ch ch' : ChUnique} {x : Hash} {stop : Hash → Bool} {home : Hash → Nat} {buf : List Hash}
  {cut i newSizeDegree : Nat} {ch'' : ChUnique} {buf' : List Hash} {left m t : Nat}

/-- The buffer has the length that its degree says. -/
def Sized (ch : ChUnique) : Prop := ch.buf.length = ch.bufSize

/-- Every entry is reachable from its place by a run of non-zero cells. -/
def Chained (ch : ChUnique) : Prop :=
  ∀ q < ch.bufSize, cell ch.buf q ≠ 0 → Run ch.buf (ch.place (cell ch.buf q)) q

/-- Entries may have moved; nothing else has changed. -/
structure Rearranged (ch ch' : ChUnique) : Prop where
  fields : ch' = { ch with buf := ch'.buf }
  length : ch'.buf.length = ch.buf.length
  items : occupied ch'.buf = occupied ch.buf

lemma Rearranged.refl (ch : ChUnique) : Rearranged ch ch := ⟨rfl, rfl, rfl⟩

section

variable (h : Rearranged ch ch')
include h

lemma Rearranged.trans (h' : Rearranged ch' ch'') : Rearranged ch ch'' := by
  refine ⟨?_, h'.length.trans h.length, h'.items.trans h.items⟩
  have hf := h'.fields
  rw [h.fields] at hf
  exact hf

lemma Rearranged.bufSize : ch'.bufSize = ch.bufSize := by
  rw [h.fields]
  rfl

lemma Rearranged.place : ch'.place = ch.place := by
  rw [h.fields]
  rfl

lemma Rearranged.sized (sized : Sized ch) : Sized ch' := by
  have hl : ch'.buf.length = ch.bufSize := h.length.trans sized
  rw [← h.bufSize] at hl
  exact hl

end

lemma bufSize_pos (ch : ChUnique) : 0 < ch.bufSize := Nat.two_pow_pos _

lemma place_lt (ch : ChUnique) (x : Hash) : ch.place x < ch.bufSize := by
  simp only [place, mask, and_two_pow_sub_one_eq_mod]
  exact mod_lt _ (bufSize_pos ch)

lemma circular_mask (ch : ChUnique) : Circular ch.bufSize (fun p => (p + 1) &&& ch.mask) := by
  intro p hp
  simp only [mask, and_two_pow_sub_one_eq_mod]
  change (p + 1) % ch.bufSize = _
  split
  · rename_i hlt
    exact mod_eq_of_lt hlt
  · rename_i hge
    have : p + 1 = ch.bufSize := by omega
    rw [this, mod_self]

lemma walk_total (ch : ChUnique) (stop : Hash → Bool) (x : Hash) (ht : t < ch.bufSize)
    (stops : stop (cell ch.buf t) = true) :
    ∃ h < ch.bufSize, ch.walk stop x = some h ∧ stop (cell ch.buf h) = true :=
  probe_total (circular_mask ch) (place_lt ch x) ht stops

lemma walk_some {h : Nat} (hw : ch.walk stop x = some h) :
    h < ch.bufSize ∧ stop (cell ch.buf h) = true :=
  probe_some (circular_mask ch) (place_lt ch x) hw

/-- Where a walk ended, seen from a cut: not after a cell that stops it, and no cell
before it does. -/
lemma walk_spec {h : Nat} (hw : ch.walk stop x = some h) (hc : cut < ch.bufSize)
    (ht : t < ch.bufSize) (ahead : rank ch.bufSize cut (ch.place x) ≤ rank ch.bufSize cut t)
    (stops : stop (cell ch.buf t) = true) :
    rank ch.bufSize cut (ch.place x) ≤ rank ch.bufSize cut h ∧
      rank ch.bufSize cut h ≤ rank ch.bufSize cut t ∧
      ∀ r < ch.bufSize, rank ch.bufSize cut (ch.place x) ≤ rank ch.bufSize cut r →
        rank ch.bufSize cut r < rank ch.bufSize cut h → stop (cell ch.buf r) = false := by
  have hp := rank_lt hc ht
  obtain ⟨h', -, hw', -, found⟩ := probe_finds (circular_mask ch) hc (place_lt ch x) ht ahead stops
      (show _ < ch.bufSize by omega)
  obtain rfl : h' = h := some.inj (hw'.symm.trans hw)
  exact found

/-- A free cell at the end of a run of non-zero cells may be filled. -/
lemma chained_fill {f h : Nat} (sized : Sized ch) (chained : Chained ch) (hx : x ≠ 0)
    (hf : f < ch.bufSize) (hh : h < ch.bufSize)
    (reached : rank ch.bufSize f (ch.place x) ≤ rank ch.bufSize f h)
    (before : ∀ r < ch.bufSize, rank ch.bufSize f (ch.place x) ≤ rank ch.bufSize f r →
      rank ch.bufSize f r < rank ch.bufSize f h → cell ch.buf r ≠ 0) :
    Chained { ch with buf := ch.buf.set h x } := by
  have hl : ch.buf.length = ch.bufSize := sized
  have hp := place_lt ch x
  have more : ∀ r, cell ch.buf r ≠ 0 → cell (ch.buf.set h x) r ≠ 0 := by
    intro r hr
    rw [cell_set]
    split
    · exact hx
    · exact hr
  intro q hq ho
  change Run (ch.buf.set h x) (ch.place (cell (ch.buf.set h x) q)) q
  by_cases hb : q = h
  · subst q
    have he : cell (ch.buf.set h x) h = x := by simp [hl, hh]
    have hln' : (ch.buf.set h x).length = ch.bufSize := by simpa using hl
    have path : Linked (ch.buf.set h x).length f (ch.buf.set h x) 0 (ch.place x) h := by
      rw [hln']
      refine ⟨reached, fun r hr hc _ hg => ?_⟩
      by_cases ha : r = h
      · rw [ha, he]
        exact hx
      · have hne := mt (rank_inj hf hr hh) ha
        exact more r (before r hr hc (by omega))
    rw [he]
    exact run_of_linked (by omega) (by omega) (by omega) path
  · have hs : cell (ch.buf.set h x) q = cell ch.buf q := by simp [hb]
    rw [hs] at ho ⊢
    exact (chained q hq ho).mono (by simp) more

/-- An entry in its own place is linked. -/
lemma linked_at_home (hc : cut < m) (hi : i < m) (occupied : cell buf i ≠ 0) :
    Linked m cut buf 0 i i := by
  refine ⟨le_refl _, ?_⟩
  intro r hr hl _ hh
  have : r = i := rank_inj hc hr hi (by omega)
  exact this ▸ occupied

/-- Putting an entry back rearranges the buffer. For every cut that the entry does not
have to pass, this is a turn of the sweep, and a free cut stays free. -/
lemma moveBack_spec (sized : Sized ch) (hi : i < ch.bufSize) (occupied : cell ch.buf i ≠ 0) :
    ∃ ch', ch.moveBack i = some ch' ∧ Rearranged ch ch' ∧
      (∀ q, cell ch'.buf q = cell ch.buf q ∨ cell ch'.buf q = 0 ∨ cell ch'.buf q = cell ch.buf i) ∧
      ∀ cut < ch.bufSize, rank ch.bufSize cut (ch.place (cell ch.buf i)) ≤ rank ch.bufSize cut i →
        Turn ch.bufSize cut ch.place ch.buf ch'.buf i ∧
          (cell ch.buf cut = 0 → cell ch'.buf cut = 0) := by
  by_cases home : i = ch.place (cell ch.buf i)
  · refine ⟨ch, by simp only [moveBack, if_pos home], Rearranged.refl ch, fun q => inl rfl, ?_⟩
    intro cut hc _
    refine ⟨turn_stay ?_, id⟩
    rw [← home]
    exact linked_at_home hc hi occupied
  · have hl : i < ch.buf.length := sized.symm ▸ hi
    let out : ChUnique := { ch with buf := ch.buf.set i 0 }
    have hz : (cell out.buf i == 0) = true := by
      simp [out, hl]
    obtain ⟨h, hh, hw, hf⟩ := walk_total out (· == 0) (cell ch.buf i) hi hz
    have hd : h < ch.buf.length := sized.symm ▸ hh
    have hfr' : cell (ch.buf.set i 0) h = 0 := by simpa [out] using hf
    have hm : ch.moveBack i = some { ch with buf := (ch.buf.set i 0).set h (cell ch.buf i) } := by
      simp only [moveBack, if_neg home, reinsertImpl]
      rw [hw]
      rfl
    by_cases hhi : h = i
    · subst h
      have hba : (ch.buf.set i 0).set i (cell ch.buf i) = ch.buf := by
        rw [set_set, cell_eq_getElem hl, set_getElem_self]
      rw [hba] at hm
      refine ⟨ch, hm, Rearranged.refl ch, fun q => inl rfl, ?_⟩
      intro cut hc ahead
      obtain ⟨-, -, before⟩ := walk_spec hw hc hi ahead hz
      refine ⟨turn_stay (linked_of_before hc hi occupied ahead ?_), id⟩
      intro r hr ha hlt
      have hb : r ≠ i := by
        rintro rfl
        exact lt_irrefl _ hlt
      simpa [out, hb] using before r hr ha hlt
    · have hfr'' : cell ch.buf h = 0 := by simpa [hhi] using hfr'
      refine ⟨_, hm, ⟨rfl, by simp, ?_⟩, ?_, ?_⟩
      · exact occupied_move hl hd hhi occupied hfr''
      · intro q
        simp only [cell_set]
        split
        · exact inr (inr rfl)
        · split
          · exact inr (inl rfl)
          · exact inl rfl
      · intro cut hc ahead
        obtain ⟨ha, he, before⟩ := walk_spec hw hc hi ahead hz
        have hlt := he.lt_of_ne (mt (rank_inj hc hh hi) hhi)
        refine ⟨turn_move sized hc hi hh hhi occupied ha ?_ (fun _ => hlt) hfr'',
          cut_free_of_move hc hi hlt occupied⟩
        intro r hr hj hg
        have hb : r ≠ i := by
          rintro rfl
          exact lt_asymm hlt hg
        simpa [out, hb] using before r hr hj hg

/-- Entries may have been dropped, and the count follows. -/
structure Filtered (ch ch' : ChUnique) : Prop where
  fields : ch' = { ch with buf := ch'.buf, itemsCount := ch'.itemsCount }
  length : ch'.buf.length = ch.buf.length
  items : (occupied ch'.buf).filter (ch.good · = true) = (occupied ch.buf).filter (ch.good · = true)
  count : ch'.itemsCount - (occupied ch'.buf).card = ch.itemsCount - (occupied ch.buf).card

lemma Rearranged.filtered (h : Rearranged ch ch') : Filtered ch ch' := by
  obtain ⟨buf', c', d', k', z'⟩ := ch'
  obtain ⟨hf, hl, hit⟩ := h
  obtain ⟨rfl, rfl, rfl, rfl⟩ := hf
  exact ⟨rfl, hl, by rw [hit], by rw [hit]⟩

lemma Filtered.refl (ch : ChUnique) : Filtered ch ch := (Rearranged.refl ch).filtered

section

variable (h : Filtered ch ch')
include h

lemma Filtered.good : ch'.good = ch.good := by
  rw [h.fields]
  rfl

lemma Filtered.bufSize : ch'.bufSize = ch.bufSize := by
  rw [h.fields]
  rfl

lemma Filtered.place : ch'.place = ch.place := by
  rw [h.fields]
  rfl

lemma Filtered.sized (sized : Sized ch) : Sized ch' := by
  have hl : ch'.buf.length = ch.bufSize := h.length.trans sized
  rw [← h.bufSize] at hl
  exact hl

lemma Filtered.trans (h' : Filtered ch' ch'') : Filtered ch ch'' := by
  refine ⟨?_, h'.length.trans h.length, ?_, h'.count.trans h.count⟩
  · have hf := h'.fields
    rw [h.fields] at hf
    exact hf
  · rw [← h.items, ← h.good]
    exact h'.items

end

/-- Progress of the first loop of `rehash` when it is about to turn cell `i`: ranks from
that of cell 0 up to the cut are swept first, the ranks before it afterwards. -/
structure Front (m cut : Nat) (home : Hash → Nat) (i : Nat) (buf : List Hash) : Prop where
  homed : Homed m cut home buf
  free : cell buf cut = 0
  first : i ≤ cut → Swept m cut home buf (m - 1 - cut) (i + (m - 1 - cut))
  after : cut < i → Swept m cut home buf (m - 1 - cut) m ∧ Swept m cut home buf 0 (i - (cut + 1))

lemma Front.step (hc : cut < m) (hi : i < m) (front : Front m cut home i buf)
    (turn : Turn m cut home buf buf' i) (free : cell buf' cut = 0) :
    Front m cut home (i + 1) buf' := by
  refine ⟨turn.homed front.homed, free, ?_, ?_⟩
  · intro hle
    have hr : rank m cut i = i + (m - 1 - cut) := if_pos (by omega)
    have ha : i + 1 + (m - 1 - cut) = rank m cut i + 1 := by omega
    rw [ha]
    exact turn.swept_extend hc hi (hr ▸ front.first (by omega))
  · intro hlt
    rcases lt_or_ge cut i with hp | ht
    · have hr : rank m cut i = i - (cut + 1) := if_neg (by omega)
      obtain ⟨hh, hl⟩ := front.after hp
      have ha : i + 1 - (cut + 1) = rank m cut i + 1 := by omega
      refine ⟨turn.swept_above (by omega) hh, ?_⟩
      rw [ha]
      exact turn.swept_extend hc hi (hr ▸ hl)
    · obtain rfl : i = cut := by omega
      have hr : rank m i i = i + (m - 1 - i) := if_pos le_rfl
      have hn := turn.swept_extend hc hi (hr ▸ front.first le_rfl)
      rw [show rank m i i + 1 = m by omega] at hn
      refine ⟨hn, ?_⟩
      intro q _ _ _ hlt
      omega

lemma front_start (homed : Homed m cut home buf) (free : cell buf cut = 0) :
    Front m cut home 0 buf := by
  refine ⟨homed, free, ?_, fun h => absurd h (not_lt_zero _)⟩
  intro _ q _ _ hl hh
  omega

/-- One turn of the first loop, with what it drops and how far it carries the sweep. -/
lemma rehashStep_spec (sized : Sized ch) (hi : i < ch.bufSize)
    (clean : ∀ q < i, cell ch.buf q ≠ 0 → ch.good (cell ch.buf q) = true) :
    ∃ ch', ch.rehashStep i = some ch' ∧ Filtered ch ch' ∧
      (∀ q < i + 1, cell ch'.buf q ≠ 0 → ch.good (cell ch'.buf q) = true) ∧
      ∀ cut < ch.bufSize, Front ch.bufSize cut ch.place i ch.buf →
        Front ch.bufSize cut ch.place (i + 1) ch'.buf := by
  have hl : i < ch.buf.length := sized.symm ▸ hi
  by_cases hf : cell ch.buf i = 0
  · refine ⟨ch, by simp only [rehashStep, if_pos hf], Filtered.refl ch, ?_, ?_⟩
    · intro q hq ho
      have : q ≠ i := fun heq => ho (heq ▸ hf)
      exact clean q (by omega) ho
    · intro cut hc front
      exact front.step hc hi (turn_skip hf) front.free
  · by_cases hb : ch.good (cell ch.buf i) = false
    · refine ⟨{ ch with buf := ch.buf.set i 0, itemsCount := ch.itemsCount - 1 },
        by simp only [rehashStep, if_neg hf, if_pos hb], ?_, ?_, ?_⟩
      · have hu := occupied_clear hl hf
        refine ⟨rfl, by simp, ?_, ?_⟩
        · rw [hu, Multiset.filter_cons_of_neg _ (by simp [hb])]
        · rw [hu, Multiset.card_cons]
          push_cast
          omega
      · intro q hq ho
        by_cases ha : q = i
        · simp [ha, hl] at ho
        · simp only [cell_set, ha] at ho ⊢
          exact clean q (by omega) ho
      · intro cut hc front
        apply front.step hc hi turn_clear
        simp only [cell_set, front.free]
        split <;> rfl
    · have hg : ch.good (cell ch.buf i) = true := by simpa using hb
      obtain ⟨ch', hm, hr, hs, ht⟩ := moveBack_spec sized hi hf
      refine ⟨ch', by simp only [rehashStep, if_neg hf, if_neg hb, hm], hr.filtered, ?_, ?_⟩
      · intro q hq ho
        rcases hs q with hd | hz | he
        · rw [hd] at ho ⊢
          by_cases ha : q = i
          · exact ha ▸ hg
          · exact clean q (by omega) ho
        · exact absurd hz ho
        · rw [he]
          exact hg
      · intro cut hc front
        obtain ⟨turn, hy⟩ := ht cut hc (front.homed i hi hf)
        exact front.step hc hi turn (hy front.free)

lemma rehashCells_spec (sized : Sized ch) (total : i + left = ch.bufSize)
    (clean : ∀ q < i, cell ch.buf q ≠ 0 → ch.good (cell ch.buf q) = true) :
    ∃ ch', rehashCells left i ch = some ch' ∧ Filtered ch ch' ∧
      (∀ q < ch.bufSize, cell ch'.buf q ≠ 0 → ch.good (cell ch'.buf q) = true) ∧
      ∀ cut < ch.bufSize, Front ch.bufSize cut ch.place i ch.buf →
        Front ch.bufSize cut ch.place ch.bufSize ch'.buf := by
  induction left generalizing i ch with
  | zero =>
    have he : i = ch.bufSize := by omega
    subst he
    exact ⟨ch, rfl, Filtered.refl ch, clean, fun _ _ front => front⟩
  | succ left ih =>
    obtain ⟨ch1, hs, hf, hn, ht⟩ := rehashStep_spec sized (by omega) clean
    have hsm1 : i + 1 + left = ch1.bufSize := by
      rw [hf.bufSize]
      omega
    rw [← hf.good] at hn
    obtain ⟨ch2, hr, hfl2, hcn2, hft2⟩ := ih (hf.sized sized) hsm1 hn
    rw [hf.bufSize, hf.good] at hcn2
    rw [hf.bufSize, hf.place] at hft2
    refine ⟨ch2, ?_, hf.trans hfl2, hcn2, ?_⟩
    · simp [rehashCells, hs, hr]
    · intro cut hc front
      exact hft2 cut hc (ht cut hc front)

/-- What a loop that sweeps to the first free cell starts from: everything below rank
`i` is linked, everything above is linked from there on. -/
structure Tail (m cut : Nat) (home : Hash → Nat) (i : Nat) (buf : List Hash) : Prop where
  free : cell buf cut = 0
  low : Swept m cut home buf 0 (rank m cut i)
  high : Swept m cut home buf (rank m cut i) m

lemma Tail.homed (hc : cut < m) (tail : Tail m cut home i buf) : Homed m cut home buf := by
  intro q hq ho
  rcases lt_or_ge (rank m cut q) (rank m cut i) with hlt | hge
  · exact (tail.low q hq ho (Nat.zero_le _) hlt).1
  · exact (tail.high q hq ho hge (rank_lt hc hq)).1

lemma Tail.step (hc : cut < m) (hi : i < cut) (tail : Tail m cut home i buf)
    (turn : Turn m cut home buf buf' i) (free : cell buf' cut = 0) :
    Tail m cut home (i + 1) buf' := by
  refine ⟨free, ?_, ?_⟩
  · rw [rank_succ hi]
    exact turn.swept_extend hc (by omega) tail.low
  · rw [rank_succ hi]
    exact turn.swept_raise tail.high

lemma rehashChain_spec (sized : Sized ch) (total : i + left = ch.bufSize) :
    ∃ ch', rehashChain left i ch = some ch' ∧ Rearranged ch ch' ∧
      ∀ cut < ch.bufSize, i ≤ cut → Tail ch.bufSize cut ch.place i ch.buf →
        cell ch'.buf cut = 0 ∧ ∀ q < ch.bufSize, cell ch'.buf q ≠ 0 →
          Linked ch.bufSize cut ch'.buf 0 (ch.place (cell ch'.buf q)) q := by
  induction left generalizing i ch with
  | zero =>
    refine ⟨ch, rfl, Rearranged.refl ch, ?_⟩
    intro cut hc hle _
    omega
  | succ left ih =>
    by_cases hf : cell ch.buf i = 0
    · refine ⟨ch, by simp only [rehashChain, if_pos hf], Rearranged.refl ch, ?_⟩
      intro cut hc hle tail
      exact ⟨tail.free, fun q hq ho =>
        swept_join hc (by omega) hf tail.low tail.high hq ho⟩
    · obtain ⟨ch1, hm, hr, -, ht⟩ := moveBack_spec sized (by omega) hf
      have hsm1 : i + 1 + left = ch1.bufSize := by
        rw [hr.bufSize]
        omega
      obtain ⟨ch2, hs, hre2, hl⟩ := ih (hr.sized sized) hsm1
      rw [hr.bufSize, hr.place] at hl
      refine ⟨ch2, ?_, hr.trans hre2, ?_⟩
      · simp only [rehashChain, if_neg hf, hm, bind_some, hs]
      · intro cut hc hle tail
        have hlt : i < cut := by
          have : i ≠ cut := fun heq => hf (heq ▸ tail.free)
          omega
        obtain ⟨turn, hy⟩ := ht cut hc (tail.homed hc i (by omega) hf)
        exact hl cut hc hlt (tail.step hc hlt turn (hy tail.free))

lemma homed_of_chained (sized : Sized ch) (chained : Chained ch) (hc : cut < ch.bufSize)
    (free : cell ch.buf cut = 0) : Homed ch.bufSize cut ch.place ch.buf := by
  intro q hq ho
  have hn : ch.buf.length = ch.bufSize := sized
  have hp := place_lt ch (cell ch.buf q)
  have hl := linked_of_run (by omega) (by omega) free (chained q hq ho)
  rw [hn] at hl
  exact hl.1

/-- `rehash` keeps exactly the good entries, and the count follows. If the buffer was
chained and had a free cell, it is chained again. -/
theorem rehash_spec (sized : Sized ch) : ∃ ch', ch.rehash = some ch' ∧ Filtered ch ch' ∧
      occupied ch'.buf = (occupied ch.buf).filter (ch.good · = true) ∧
      (Chained ch → (∃ f < ch.bufSize, cell ch.buf f = 0) → Chained ch') := by
  obtain ⟨ch1, hd, hl, hg, hi⟩ := rehashCells_spec sized (Nat.zero_add _) (by omega)
  obtain ⟨ch2, hc, hr, ht⟩ := rehashChain_spec (hl.sized sized) (Nat.zero_add _)
  rw [hl.bufSize] at hc
  have ha := hl.trans hr.filtered
  refine ⟨ch2, ?_, ha, ?_, ?_⟩
  · simp [rehash, hd, hc]
  · rw [← ha.items, hr.items, Multiset.filter_eq_self.2]
    intro x hx
    obtain ⟨hne, q, hq, he⟩ := mem_occupied.1 hx
    have hs := hl.sized sized
    have hq' : q < ch.bufSize := by
      rw [← hl.bufSize, ← hs]
      exact hq
    rw [← he]
    exact hg q hq' (he ▸ hne)
  · rintro chained ⟨f, hf, hb⟩
    have hn := hi f hf (front_start (homed_of_chained sized chained hf hb) hb)
    obtain ⟨hh, hw⟩ := hn.after hf
    have hk : rank ch.bufSize f 0 = ch.bufSize - 1 - f := by
      simp [rank]
    have tail : Tail ch.bufSize f ch.place 0 ch1.buf := by
      refine ⟨hn.free, ?_, ?_⟩
      · rw [hk, show ch.bufSize - 1 - f = ch.bufSize - (f + 1) by omega]
        exact hw
      · rw [hk]
        exact hh
    rw [hl.bufSize, hl.place] at ht
    obtain ⟨hfr2, hj⟩ := ht f hf (Nat.zero_le _) tail
    have hs : ch2.buf.length = ch.bufSize := by
      rw [← ha.bufSize]
      exact ha.sized sized
    intro q hq ho
    rw [ha.bufSize] at hq
    have hq' : q < ch2.buf.length := by omega
    have hf' : f < ch2.buf.length := by omega
    have hp := place_lt ch (cell ch2.buf q)
    rw [ha.place]
    apply run_of_linked hf' (by omega) hq'
    rw [hs]
    exact hj q hq ho

/-- The walk of `resize` for the entry of cell `i`, seen from a free cut: it passes only
other entries. -/
lemma resizeWalk_spec {h : Nat}
    (hw : ch.walk (fun v => v == 0 || v == cell ch.buf i) (cell ch.buf i) = some h)
    (hc : cut < ch.bufSize) (free : cell ch.buf cut = 0) :
    rank ch.bufSize cut (ch.place (cell ch.buf i)) ≤ rank ch.bufSize cut h ∧ ∀ r < ch.bufSize,
        rank ch.bufSize cut (ch.place (cell ch.buf i)) ≤ rank ch.bufSize cut r →
        rank ch.bufSize cut r < rank ch.bufSize cut h →
        cell ch.buf r ≠ 0 ∧ cell ch.buf r ≠ cell ch.buf i := by
  have hs : (cell ch.buf cut == 0 || cell ch.buf cut == cell ch.buf i) = true := by
    simp [free]
  have ht := rank_lt hc (place_lt ch (cell ch.buf i))
  obtain ⟨hl, -, before⟩ := walk_spec hw hc hc (by rw [rank_cut hc]; omega) hs
  refine ⟨hl, ?_⟩
  intro r hr ha hg
  simpa only [Bool.or_eq_false_iff, beq_eq_false_iff_ne] using before r hr ha hg

variable (sized : Sized ch)
include sized

/-- One turn of `resize`. With distinct entries it is a turn of the sweep for every cut
that is free before and after it, and the entry cannot pass a cut it is not beyond. -/
lemma resizeStep_spec (hi : i < ch.bufSize) :
    ∃ ch', ch.resizeStep i = some ch' ∧ Rearranged ch ch' ∧
      (∀ q, q ≠ i → cell ch.buf q ≠ 0 → cell ch'.buf q = cell ch.buf q) ∧
      ((occupied ch.buf).Nodup → ∀ cut < ch.bufSize, cell ch.buf cut = 0 →
        Turn ch.bufSize cut ch.place ch.buf ch'.buf i ∧
        (rank ch.bufSize cut (ch.place (cell ch.buf i)) ≤ rank ch.bufSize cut i →
          cell ch'.buf cut = 0)) := by
  have hn : i < ch.buf.length := sized.symm ▸ hi
  by_cases hf : cell ch.buf i = 0
  · refine ⟨ch, by simp only [resizeStep, if_pos hf], Rearranged.refl ch, fun _ _ _ => rfl, ?_⟩
    intro _ cut _ ht
    exact ⟨turn_skip hf, fun _ => ht⟩
  by_cases home : ch.place (cell ch.buf i) = i
  · refine ⟨ch, by simp [resizeStep, if_pos home],
      Rearranged.refl ch, fun _ _ _ => rfl, ?_⟩
    intro _ cut hc ht
    refine ⟨turn_stay ?_, fun _ => ht⟩
    rw [home]
    exact linked_at_home hc hi hf
  have he : (cell ch.buf i == 0 || cell ch.buf i == cell ch.buf i) = true := by simp
  obtain ⟨h, hh, hw, hb⟩ := walk_total ch
    (fun v => v == 0 || v == cell ch.buf i) (cell ch.buf i) hi he
  have hd : h < ch.buf.length := sized.symm ▸ hh
  have hp : ch.resizeStep i = some (if cell ch.buf h = cell ch.buf i then ch
      else { ch with buf := (ch.buf.set h (cell ch.buf i)).set i 0 }) := by
    simp only [resizeStep, if_neg hf, if_neg home, hw, map_some]
  by_cases hs : cell ch.buf h = cell ch.buf i
  · rw [if_pos hs] at hp
    refine ⟨ch, hp, Rearranged.refl ch, fun _ _ _ => rfl, ?_⟩
    intro nodup cut hc ht
    refine ⟨turn_stay ?_, fun _ => ht⟩
    have hhi : h = i := occupied_unique nodup hd hn (hs ▸ hf) hs
    subst hhi
    obtain ⟨hl, before⟩ := resizeWalk_spec hw hc ht
    exact linked_of_before hc hi hf hl (fun r hr ha hlt => (before r hr ha hlt).1)
  · have hz : cell ch.buf h = 0 := by
      simp only [Bool.or_eq_true, beq_iff_eq] at hb
      exact hb.resolve_right hs
    have hhi : h ≠ i := fun heq => hf (heq ▸ hz)
    rw [if_neg hs, set_comm _ _ hhi] at hp
    refine ⟨_, hp, ⟨rfl, by simp, occupied_move hn hd hhi hf hz⟩, ?_, ?_⟩
    · intro q hg hq
      have hj : q ≠ h := fun heq => hq (heq ▸ hz)
      simp [hg, hj]
    intro _ cut hc ht
    obtain ⟨hl, before⟩ := resizeWalk_spec hw hc ht
    have apart : rank ch.bufSize cut (ch.place (cell ch.buf i)) ≤ rank ch.bufSize cut i →
        rank ch.bufSize cut h < rank ch.bufSize cut i := by
      intro ahead
      by_contra hm
      have hne := mt (rank_inj hc hh hi) hhi
      exact (before i hi ahead (by omega)).2 rfl
    refine ⟨turn_move sized hc hi hh hhi hf hl ?_ apart hz, ?_⟩
    · intro r hr ha hk
      exact (before r hr ha hk).1
    · intro ahead
      exact cut_free_of_move hc hi (apart ahead) hf ht

/-- Whenever the loop of `resize` returns, it has only rearranged the buffer. -/
lemma resizeCells_rearranged {oldSize : Nat} (total : i + left = ch.bufSize)
    (h : resizeCells oldSize left i ch = some ch') : Rearranged ch ch' := by
  induction left generalizing i ch with
  | zero => exact absurd h (by simp [resizeCells])
  | succ left ih =>
    by_cases hg : i < oldSize ∨ cell ch.buf i ≠ 0
    · obtain ⟨ch1, hs, hr, -⟩ := resizeStep_spec sized (show i < ch.bufSize by omega)
      simp only [resizeCells, if_pos hg, hs] at h
      have hsm1 : i + 1 + left = ch1.bufSize := by
        rw [hr.bufSize]
        omega
      exact hr.trans (ih (hr.sized sized) hsm1 h)
    · simp only [resizeCells, if_neg hg, some.injEq] at h
      exact h ▸ Rearranged.refl ch

/-- Sweeping the old half. Cells of the new half are only filled, so a cell of it that
is free afterwards was free all the time and serves as the cut. -/
lemma resizeCells_front {oldSize : Nat} (nodup : (occupied ch.buf).Nodup)
    (total : i + left = ch.bufSize) (hi : i ≤ oldSize) (hold : oldSize < ch.bufSize) :
    ∃ ch1, resizeCells oldSize left i ch =
        resizeCells oldSize (ch.bufSize - oldSize) oldSize ch1 ∧ Rearranged ch ch1 ∧
      (∀ q, oldSize ≤ q → cell ch.buf q ≠ 0 → cell ch1.buf q ≠ 0) ∧
      ∀ cut < ch.bufSize, oldSize ≤ cut → cell ch1.buf cut = 0 →
        Swept ch.bufSize cut ch.place ch.buf 0 (rank ch.bufSize cut i) →
        Swept ch.bufSize cut ch.place ch.buf (rank ch.bufSize cut oldSize) ch.bufSize →
        Tail ch.bufSize cut ch.place oldSize ch1.buf := by
  induction left generalizing i ch with
  | zero => omega
  | succ left ih =>
    by_cases he : i = oldSize
    · subst he
      refine ⟨ch, ?_, Rearranged.refl ch, fun _ _ h => h, ?_⟩
      · rw [← total, Nat.add_sub_cancel_left]
      · intro cut _ _ ht hw hh
        exact ⟨ht, hw, hh⟩
    · have hlt : i < oldSize := by omega
      obtain ⟨ch1, hp, hr, hk, hn⟩ := resizeStep_spec sized (show i < ch.bufSize by omega)
      have hsm1 : i + 1 + left = ch1.bufSize := by
        rw [hr.bufSize]
        omega
      obtain ⟨ch2, hs, hre2, hhg2, htl2⟩ :=
        ih (hr.sized sized) (hr.items ▸ nodup) hsm1 hlt (hr.bufSize ▸ hold)
      rw [hr.bufSize] at hs
      rw [hr.bufSize, hr.place] at htl2
      have hf : ∀ q, oldSize ≤ q → cell ch.buf q ≠ 0 → cell ch1.buf q ≠ 0 := by
        intro q hq ho
        rw [hk q (by omega) ho]
        exact ho
      refine ⟨ch2, ?_, hr.trans hre2, fun q hq ho => hhg2 q hq (hf q hq ho), ?_⟩
      · simp [resizeCells, if_pos (inl hlt), hp, hs]
      · intro cut hc hl ht hw hh
        have hct1 : cell ch1.buf cut = 0 := by
          by_contra hne
          exact hhg2 cut hl hne ht
        have hct0 : cell ch.buf cut = 0 := by
          by_contra hne
          exact hf cut hl hne hct1
        obtain ⟨turn, -⟩ := hn nodup cut hc hct0
        have hb : rank ch.bufSize cut i < rank ch.bufSize cut oldSize := by
          simp only [rank, if_pos (show i ≤ cut by omega), if_pos hl]
          omega
        refine htl2 cut hc hl ht ?_ (turn.swept_above hb hh)
        rw [rank_succ (by omega)]
        exact turn.swept_extend hc (by omega) hw

/-- The chain that runs on from the old half into the new one. -/
lemma resizeCells_tail {oldSize : Nat} (nodup : (occupied ch.buf).Nodup)
    (total : i + left = ch.bufSize) (hi : oldSize ≤ i) (hc : cut < ch.bufSize) (hle : i ≤ cut)
    (tail : Tail ch.bufSize cut ch.place i ch.buf) :
    ∃ ch', resizeCells oldSize left i ch = some ch' ∧ cell ch'.buf cut = 0 ∧
      ∀ q < ch.bufSize, cell ch'.buf q ≠ 0 →
        Linked ch.bufSize cut ch'.buf 0 (ch.place (cell ch'.buf q)) q := by
  induction left generalizing i ch with
  | zero => omega
  | succ left ih =>
    by_cases hf : cell ch.buf i = 0
    · have hs : ¬(i < oldSize ∨ cell ch.buf i ≠ 0) := by
        rintro (hlt | hne)
        · omega
        · exact hne hf
      refine ⟨ch, by simp only [resizeCells, if_neg hs], tail.free, ?_⟩
      intro q hq ho
      exact swept_join hc (by omega) hf tail.low tail.high hq ho
    · have hlt : i < cut := by
        have : i ≠ cut := fun heq => hf (heq ▸ tail.free)
        omega
      obtain ⟨ch1, hp, hr, -, ht⟩ := resizeStep_spec sized (show i < ch.bufSize by omega)
      obtain ⟨turn, hy⟩ := ht nodup cut hc tail.free
      have hct1 := hy (tail.homed hc i (by omega) hf)
      have htl1 := tail.step hc hlt turn hct1
      rw [← hr.bufSize, ← hr.place] at htl1
      have hsm1 : i + 1 + left = ch1.bufSize := by
        rw [hr.bufSize]
        omega
      obtain ⟨ch2, ha, hct2, hl⟩ :=
        ih (hr.sized sized) (hr.items ▸ nodup) hsm1 (by omega) (hr.bufSize ▸ hc) hlt htl1
      rw [hr.bufSize, hr.place] at hl
      refine ⟨ch2, ?_, hct2, hl⟩
      simp only [resizeCells, if_pos (inr hf), hp, bind_some, ha]

section

variable (hle : ch.sizeDegree ≤ newSizeDegree)
include hle

lemma expand_buf : (ch.expand newSizeDegree).buf =
      ch.buf ++ List.replicate (2 ^ newSizeDegree - ch.bufSize) 0 := by
  have hl : ch.buf.length = ch.bufSize := sized
  have hp : ch.bufSize ≤ 2 ^ newSizeDegree := Nat.pow_le_pow_right (by decide) hle
  simp only [expand]
  rw [take_append, take_of_length_le (by omega), take_replicate, hl]
  congr 2
  omega

lemma expand_sized : Sized (ch.expand newSizeDegree) := by
  have hl : ch.buf.length = ch.bufSize := sized
  have hp : ch.bufSize ≤ 2 ^ newSizeDegree := Nat.pow_le_pow_right (by decide) hle
  change (ch.expand newSizeDegree).buf.length = 2 ^ newSizeDegree
  rw [expand_buf sized hle, length_append, length_replicate, hl]
  omega

lemma expand_occupied : occupied (ch.expand newSizeDegree).buf = occupied ch.buf := by
  rw [expand_buf sized hle, occupied_append, occupied_replicate_zero, Multiset.add_zero]

/-- Whenever `resize` returns, it has kept every entry and changed only the size. -/
theorem resize_returns (h : ch.resize newSizeDegree = some ch') :
    Sized ch' ∧ occupied ch'.buf = occupied ch.buf ∧
      ch' = { ch with sizeDegree := newSizeDegree, buf := ch'.buf } := by
  have hr := resizeCells_rearranged (expand_sized sized hle) (Nat.zero_add _) h
  refine ⟨hr.sized (expand_sized sized hle), ?_, hr.fields⟩
  rw [hr.items, expand_occupied sized hle]

/-- Outside the old half every cell of the new buffer starts out free. -/
lemma expand_free (q : Nat) (hq : ch.bufSize ≤ q) : cell (ch.expand newSizeDegree).buf q = 0 := by
  have hl : ch.buf.length ≤ q := by
    rw [sized]
    exact hq
  rw [expand_buf sized hle]
  simp only [cell, getD_eq_getElem?_getD]
  rw [getElem?_append_right hl, getElem?_replicate]
  split <;> rfl

end

/-- `resize` to a larger size returns, and leaves every entry reachable from its new
place, if the buffer held distinct entries and was not full. -/
theorem resize_chained (nodup : (occupied ch.buf).Nodup) (few : (occupied ch.buf).card < ch.bufSize)
    (hlt : ch.sizeDegree < newSizeDegree) :
    ∃ ch', ch.resize newSizeDegree = some ch' ∧ Chained ch' := by
  have hle := le_of_lt hlt
  have hd : 2 * ch.bufSize ≤ (ch.expand newSizeDegree).bufSize := by
    change 2 * 2 ^ ch.sizeDegree ≤ 2 ^ newSizeDegree
    rw [← Nat.pow_succ']
    exact Nat.pow_le_pow_right (by decide) hlt
  have hs := expand_sized sized hle
  have ho := expand_occupied sized hle
  obtain ⟨ch1, hf, hre1, -, hl⟩ := resizeCells_front hs (ho ▸ nodup)
    (Nat.zero_add (ch.expand newSizeDegree).bufSize) (Nat.zero_le ch.bufSize) (by omega)
  have hln1 := hre1.length.trans hs
  have few1 : (occupied ch1.buf).card < ch1.buf.length - ch.bufSize := by
    rw [hre1.items, ho, hln1]
    omega
  obtain ⟨cut, hcen, hc, hb⟩ := exists_free_from few1
  rw [hln1] at hcen
  have he := expand_free sized hle
  have tail := hl cut hcen hc hb (by
      intro q hq hoc' _ hr
      simp only [rank, Nat.zero_le, if_true] at hr
      refine absurd (he q ?_) hoc'
      split at hr <;> omega)
    (by
      intro q hq hoc' hr _
      simp only [rank, if_pos hc] at hr
      refine absurd (he q ?_) hoc'
      split at hr <;> omega)
  have ha : ch.bufSize + ((ch.expand newSizeDegree).bufSize - ch.bufSize) = ch1.bufSize := by
    rw [hre1.bufSize]
    omega
  rw [← hre1.bufSize, ← hre1.place] at tail
  obtain ⟨ch2, ht, hct2, hk⟩ := resizeCells_tail (hre1.sized hs)
    (hre1.items ▸ ho ▸ nodup) ha le_rfl (hre1.bufSize ▸ hcen) hc tail
  have hz := hf.trans ht
  obtain ⟨hsz2, -, -⟩ := resize_returns sized hle hz
  have hre2 := resizeCells_rearranged (hre1.sized hs) ha ht
  refine ⟨ch2, hz, ?_⟩
  intro q hq hoc2
  have hln2 : ch2.buf.length = ch2.bufSize := hsz2
  have hp := place_lt ch2 (cell ch2.buf q)
  have hct' : cut < ch2.buf.length := by
    rw [hln2, hre2.bufSize, hre1.bufSize]
    exact hcen
  apply run_of_linked hct' (by omega) (by omega)
  rw [hln2, hre2.bufSize, hre2.place]
  exact hk q (hre2.bufSize ▸ hq) hoc2

end ChUniqueTable
