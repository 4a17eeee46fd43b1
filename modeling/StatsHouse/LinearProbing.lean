import Mathlib.Data.Multiset.UnionInter

/-!
# Linear probing in a circular table

A table is a list of cells and the zero of the cell type marks a free cell. The
circle is cut open just after one chosen cell, so that a circular run of occupied
cells that avoids the cut becomes an interval of ranks. Sweeps over the table
(deletion, growth) are described by what one turn may do to the cells and by the
part of each probe path that is already known to be occupied.
-/

namespace LinearProbing

open List Nat Or
universe u

variable {α : Type u} [Zero α] {buf : List α} {cut i : Nat} {next : Nat → Nat} {stop : α → Bool}
  {h lo m p q : Nat} {x : α}

/-- The content of a cell, free outside the table. -/
def cell (buf : List α) (p : Nat) : α := buf.getD p 0

/-- Walk along `next` until the first cell that satisfies `stop`. The value `none`
means that the whole walk of `fuel` cells met no such cell. -/
def probe (next : Nat → Nat) (stop : α → Bool) (buf : List α) : Nat → Nat → Option Nat
  | 0, _ => none
  | fuel + 1, p => if stop (cell buf p) then some p else probe next stop buf fuel (next p)

/-- One step around a circle of `m` cells. -/
def Circular (m : Nat) (next : Nat → Nat) : Prop :=
  ∀ p, p < m → next p = if p + 1 < m then p + 1 else 0

/-- Position of a cell in the order that starts just after the cut and ends with it. -/
def rank (m cut p : Nat) : Nat :=
  if p ≤ cut then p + (m - 1 - cut) else p - (cut + 1)

lemma rank_lt (hc : cut < m) (hp : p < m) : rank m cut p < m := by
  unfold rank
  split <;> omega

lemma rank_inj (hc : cut < m) (hp : p < m) (hq : q < m) (h : rank m cut p = rank m cut q) :
    p = q := by
  unfold rank at h
  split at h <;> split at h <;> omega

lemma rank_cut (hc : cut < m) : rank m cut cut = m - 1 := by
  simp only [rank, le_refl, if_true]
  omega

lemma rank_succ (hi : i < cut) : rank m cut (i + 1) = rank m cut i + 1 := by
  simp only [rank, if_pos hi.le, if_pos (succ_le_of_lt hi)]
  omega

lemma rank_next (circ : Circular m next) (hc : cut < m) (hp : p < m) (hne : p ≠ cut) :
    next p < m ∧ rank m cut (next p) = rank m cut p + 1 := by
  rw [circ p hp]
  unfold rank
  constructor
  · split <;> omega
  · split <;> split <;> split <;> omega

/-- Any cell can be made the first one by cutting just before it. -/
lemma exists_cut_before (hp : p < m) : ∃ cut < m, rank m cut p = 0 := by
  by_cases h : p = 0
  · refine ⟨m - 1, by omega, ?_⟩
    unfold rank
    split <;> omega
  · refine ⟨p - 1, by omega, ?_⟩
    unfold rank
    split <;> omega

/-- The walk stops at the first stopping cell, no later than any stopping cell that
is ahead of the start. The induction is on the distance to that cell. -/
lemma probe_finds {t fuel : Nat} (circ : Circular m next) (hc : cut < m) (hp : p < m) (ht : t < m)
    (ahead : rank m cut p ≤ rank m cut t) (stops : stop (cell buf t) = true)
    (enough : rank m cut t - rank m cut p < fuel) :
    ∃ h < m, probe next stop buf fuel p = some h ∧ stop (cell buf h) = true ∧
      rank m cut p ≤ rank m cut h ∧ rank m cut h ≤ rank m cut t ∧
      ∀ r < m, rank m cut p ≤ rank m cut r → rank m cut r < rank m cut h →
        stop (cell buf r) = false := by
  induction fuel generalizing p with
  | zero => omega
  | succ fuel ih =>
    by_cases hs : stop (cell buf p) = true
    · refine ⟨p, hp, by simp [probe, hs], hs, le_refl _, ahead, ?_⟩
      intro r _ hl hhi
      omega
    · have hk := mt (rank_inj hc hp ht) fun heq => hs (heq ▸ stops)
      have ho := rank_lt hc ht
      have hb : p ≠ cut := by
        rintro rfl
        have := rank_cut hc
        omega
      obtain ⟨hn, hr⟩ := rank_next circ hc hp hb
      obtain ⟨h, hm, hd, hf, hl, hhi, he⟩ := ih hn (by omega) (by omega)
      refine ⟨h, hm, by simpa [probe, hs] using hd, hf, by omega, hhi, ?_⟩
      intro r ha hq hg
      by_cases hj : r = p
      · subst r
        simpa using hs
      · have := mt (rank_inj hc ha hp) hj
        exact he r ha (by omega) hg

/-- A full walk finds a stopping cell whenever there is one. -/
lemma probe_total {t : Nat} (circ : Circular m next) (hp : p < m) (ht : t < m)
    (stops : stop (cell buf t) = true) :
    ∃ h < m, probe next stop buf m p = some h ∧ stop (cell buf h) = true := by
  obtain ⟨cut, hc, hz⟩ := exists_cut_before hp
  have enough : rank m cut t - rank m cut p < m := by
    have := rank_lt hc ht
    omega
  obtain ⟨h, hm, hr, hf, -⟩ := probe_finds circ hc hp ht (by omega) stops enough
  exact ⟨h, hm, hr, hf⟩

lemma probe_some {fuel : Nat} (circular : Circular m next) (hp : p < m)
    (found : probe next stop buf fuel p = some h) : h < m ∧ stop (cell buf h) = true := by
  induction fuel generalizing p with
  | zero => simp [probe] at found
  | succ fuel ih =>
    by_cases hs : stop (cell buf p) = true
    · obtain rfl : p = h := by simpa [probe, hs] using found
      exact ⟨hp, hs⟩
    · have hn : next p < m := by
        rw [circular p hp]
        split <;> omega
      exact ih hn (by simpa [probe, hs] using found)

/-- Occupied cells, with multiplicity. -/
def occupied [DecidableEq α] (buf : List α) : Multiset α := (buf.filter (· ≠ 0) : List α)

@[simp]
lemma cell_set (buf : List α) (i q : Nat) (x : α) :
    cell (buf.set i x) q = if q = i ∧ i < buf.length then x else cell buf q := by
  unfold cell
  by_cases h : i = q
  · subst q
    by_cases hl : i < buf.length
    · simp [hl]
    · simp [hl]
  · have h' : q ≠ i := fun e => h e.symm
    simp [h, h']

lemma cell_eq_getElem (hi : i < buf.length) : cell buf i = buf[i] := by
  simp [cell, hi]

lemma cell_out (hi : buf.length ≤ i) : cell buf i = 0 := by
  simp [cell, hi]

section Occupied

variable [DecidableEq α]

lemma mem_occupied : x ∈ occupied buf ↔ x ≠ 0 ∧ ∃ i < buf.length, cell buf i = x := by
  simp only [occupied, Multiset.mem_coe, mem_filter, decide_eq_true_eq]
  rw [mem_iff_getElem]
  constructor
  · rintro ⟨⟨i, hi, hx⟩, hne⟩
    exact ⟨hne, i, hi, (cell_eq_getElem hi).trans hx⟩
  · rintro ⟨hne, i, hi, hx⟩
    exact ⟨⟨i, hi, (cell_eq_getElem hi).symm.trans hx⟩, hne⟩

lemma occupied_append (front back : List α) :
    occupied (front ++ back) = occupied front + occupied back := by
  simp [occupied]

lemma occupied_replicate_zero (n : Nat) : occupied (List.replicate n (0 : α)) = 0 := by
  simp [occupied]

/-- Taking an entry out of its cell removes it once. -/
lemma occupied_clear (hi : i < buf.length) (hne : cell buf i ≠ 0) :
    occupied buf = cell buf i ::ₘ occupied (buf.set i 0) := by
  have hold := (getElem_cons_eraseIdx_perm hi).filter (fun x => decide (x ≠ 0))
  have hn := (set_perm_cons_eraseIdx hi 0).filter (fun x => decide (x ≠ 0))
  rw [cell_eq_getElem hi] at hne ⊢
  rw [filter_cons_of_pos (by simpa using hne)] at hold
  rw [filter_cons_of_neg (by simp)] at hn
  unfold occupied
  rw [Multiset.cons_coe, Multiset.coe_eq_coe]
  exact hold.symm.trans (hn.symm.cons _)

/-- Writing an entry into a free cell adds it once. -/
lemma occupied_fill (hi : i < buf.length) (hf : cell buf i = 0) (hx : x ≠ 0) :
    occupied (buf.set i x) = x ::ₘ occupied buf := by
  have hs : (buf.set i x).set i 0 = buf := by
    have hz := (cell_eq_getElem hi).symm.trans hf
    rw [set_set, ← hz, set_getElem_self]
  have hl : i < (buf.set i x).length := by simpa using hi
  have hn : cell (buf.set i x) i = x := by simp [hi]
  have h := occupied_clear hl (hn.symm ▸ hx)
  rw [hn, hs] at h
  exact h

/-- Moving an entry to a free cell changes no multiplicity. -/
lemma occupied_move (hi : i < buf.length) (hh : h < buf.length) (hne : h ≠ i)
    (hoccupied : cell buf i ≠ 0) (hf : cell buf h = 0) :
    occupied ((buf.set i 0).set h (cell buf i)) = occupied buf := by
  rw [occupied_clear hi hoccupied]
  apply occupied_fill
  · simpa using hh
  · simpa [hne] using hf
  · exact hoccupied

/-- Too few entries to fill the tail of the table leave a free cell there. -/
lemma exists_free_from (few : (occupied buf).card < buf.length - lo) :
    ∃ g < buf.length, lo ≤ g ∧ cell buf g = 0 := by
  by_contra none_free
  have full : (buf.drop lo).filter (· ≠ 0) = buf.drop lo := by
    rw [filter_eq_self]
    intro x hx
    obtain ⟨k, hk, hgt⟩ := mem_iff_getElem.1 hx
    have hl : lo + k < buf.length := by
      simp only [length_drop] at hk
      omega
    have hc : cell buf (lo + k) = x := by
      rw [cell_eq_getElem hl]
      simpa using hgt
    have : x ≠ 0 := fun hx => none_free ⟨lo + k, hl, by omega, hc.trans hx⟩
    simpa using this
  have hs := occupied_append (buf.take lo) (buf.drop lo)
  rw [take_append_drop] at hs
  have hd : (occupied (buf.drop lo)).card = buf.length - lo := by
    simp only [occupied, full, Multiset.coe_card, length_drop]
  rw [hs, Multiset.card_add] at few
  omega

/-- Distinct entries sit in distinct cells. -/
lemma occupied_unique (nodup : (occupied buf).Nodup) {j : Nat} (hi : i < buf.length)
    (hj : j < buf.length) (hne : cell buf i ≠ 0) (same : cell buf i = cell buf j) : i = j := by
  by_contra hij
  rw [occupied_clear hi hne, Multiset.nodup_cons] at nodup
  apply nodup.1
  rw [mem_occupied]
  refine ⟨hne, j, by simpa using hj, ?_⟩
  have : j ≠ i := fun h => hij h.symm
  simp [this, same]

end Occupied

/-- Cells `p`, `p + 1`, ..., `q` around the circle are all occupied. -/
def Run (buf : List α) (p q : Nat) : Prop :=
  ∃ n, (p + n) % buf.length = q ∧ ∀ t ≤ n, cell buf ((p + t) % buf.length) ≠ 0

/-- The part of the path from `p` to `q` whose ranks are at least `lo` is occupied. -/
def Linked (m cut : Nat) (buf : List α) (lo p q : Nat) : Prop :=
  rank m cut p ≤ rank m cut q ∧ ∀ r < m, rank m cut p ≤ rank m cut r → lo ≤ rank m cut r →
      rank m cut r ≤ rank m cut q → cell buf r ≠ 0

lemma Linked.mono {lo' : Nat} (hlo : lo ≤ lo') (h : Linked m cut buf lo p q) :
    Linked m cut buf lo' p q :=
  ⟨h.1, fun r hr hp hl hq => h.2 r hr hp (by omega) hq⟩

/-- An entry is linked to `p` when all cells before it on the path are occupied. -/
lemma linked_of_before (hc : cut < m) (hq : q < m) (occupied : cell buf q ≠ 0)
    (ahead : rank m cut p ≤ rank m cut q)
    (before : ∀ r < m, rank m cut p ≤ rank m cut r → rank m cut r < rank m cut q →
      cell buf r ≠ 0) : Linked m cut buf 0 p q := by
  refine ⟨ahead, ?_⟩
  intro r hr hl _ hhi
  rcases hhi.eq_or_lt with heq | hlt
  · exact rank_inj hc hr hq heq ▸ occupied
  · exact before r hr hl hlt

lemma rank_walk {t : Nat} (hc : cut < m) (hp : p < m) (inside : rank m cut p + t < m) :
    (p + t) % m < m ∧ rank m cut ((p + t) % m) = rank m cut p + t := by
  refine ⟨mod_lt _ (by omega), ?_⟩
  rcases lt_or_ge (p + t) m with hlt | hge
  · rw [mod_eq_of_lt hlt]
    unfold rank at *
    split at inside <;> split <;> omega
  · have hs : (p + t) % m = p + t - m := by
      rw [mod_eq_sub_mod hge, mod_eq_of_lt]
      unfold rank at inside
      split at inside <;> omega
    unfold rank at *
    split at inside <;> split <;> omega

/-- A linked path is a circular run. -/
lemma run_of_linked (hc : cut < buf.length) (hp : p < buf.length) (hq : q < buf.length)
    (h : Linked buf.length cut buf 0 p q) : Run buf p q := by
  obtain ⟨hle, ho⟩ := h
  have ha := rank_lt hc hq
  refine ⟨rank buf.length cut q - rank buf.length cut p, ?_, ?_⟩
  · obtain ⟨hlt, hw⟩ := rank_walk (t := rank buf.length cut q - rank buf.length cut p)
      hc hp (by omega)
    exact rank_inj hc hlt hq (by omega)
  · intro t ht
    obtain ⟨hlt, hw⟩ := rank_walk (t := t) hc hp (by omega)
    exact ho _ hlt (by omega) (by omega) (by omega)

/-- A circular run never meets a free cell, so it is linked for every cut at one. -/
lemma linked_of_run (hc : cut < buf.length) (hp : p < buf.length) (free : cell buf cut = 0)
    (h : Run buf p q) : Linked buf.length cut buf 0 p q := by
  obtain ⟨n, he, ho⟩ := h
  have short : ∀ t ≤ n, rank buf.length cut p + t < buf.length - 1 := by
    have avoid : ∀ t ≤ n, rank buf.length cut p + t < buf.length →
        rank buf.length cut p + t < buf.length - 1 := by
      intro t ht hin
      obtain ⟨hlt, hk⟩ := rank_walk hc hp hin
      by_contra hl
      have ha : (p + t) % buf.length = cut := by
        apply rank_inj hc hlt hc
        rw [rank_cut hc]
        omega
      exact ho t ht (ha ▸ free)
    intro t
    induction t with
    | zero => exact fun ht => avoid 0 ht (rank_lt hc hp)
    | succ t ih =>
      intro ht
      exact avoid (t + 1) ht (by omega)
  have hk : rank buf.length cut q = rank buf.length cut p + n := by
    rw [← he]
    exact (rank_walk hc hp (by have := short n le_rfl; omega)).2
  refine ⟨by omega, ?_⟩
  intro r hr hb _ hhi
  have hin : rank buf.length cut p + (rank buf.length cut r - rank buf.length cut p) <
      buf.length := by
    have := rank_lt hc hr
    omega
  obtain ⟨hlt, hw⟩ := rank_walk hc hp hin
  have hs := rank_inj hc hlt hr (by omega)
  exact hs ▸ ho _ (by omega)

/-- More entries keep every run. -/
lemma Run.mono {buf' : List α} (hlen : buf'.length = buf.length)
    (more : ∀ r, cell buf r ≠ 0 → cell buf' r ≠ 0) (h : Run buf p q) : Run buf' p q := by
  obtain ⟨n, he, ho⟩ := h
  refine ⟨n, by rw [hlen]; exact he, ?_⟩
  intro t ht
  rw [hlen]
  exact more _ (ho t ht)

/-- What one turn of a sweep may do at cell `i`: every other entry stays where it is,
and an entry that is new in its cell is linked to its home. -/
structure Turn (m cut : Nat) (home : α → Nat) (buf buf' : List α) (i : Nat) : Prop where
  keeps : ∀ q < m, q ≠ i → cell buf q ≠ 0 → cell buf' q = cell buf q
  entries : ∀ q < m, cell buf' q ≠ 0 →
    (q ≠ i ∧ cell buf' q = cell buf q) ∨ Linked m cut buf' 0 (home (cell buf' q)) q

/-- Entries with ranks in `[lo, hi)` are linked to their homes from `lo` on. -/
def Swept (m cut : Nat) (home : α → Nat) (buf : List α) (lo hi : Nat) : Prop :=
  ∀ q < m, cell buf q ≠ 0 → lo ≤ rank m cut q → rank m cut q < hi →
    Linked m cut buf lo (home (cell buf q)) q

/-- No entry sits before its home. -/
def Homed (m cut : Nat) (home : α → Nat) (buf : List α) : Prop :=
  ∀ q < m, cell buf q ≠ 0 → rank m cut (home (cell buf q)) ≤ rank m cut q

section Sweep

variable {m cut i : Nat} {home : α → Nat} {buf buf' : List α} {hi : Nat}

lemma turn_skip (free : cell buf i = 0) : Turn m cut home buf buf i :=
  ⟨fun _ _ _ _ => rfl, fun _ _ hq => inl ⟨fun h => hq (h ▸ free), rfl⟩⟩

lemma turn_clear : Turn m cut home buf (buf.set i 0) i := by
  constructor
  · intro q _ hne _
    simp [hne]
  · intro q hq ho
    have hne : q ≠ i := by
      intro h
      subst q
      by_cases hl : i < buf.length
      · simp [hl] at ho
      · simp [cell_out (Nat.le_of_not_lt hl)] at ho
    exact inl ⟨hne, by simp [hne]⟩

lemma turn_stay (linked : Linked m cut buf 0 (home (cell buf i)) i) :
    Turn m cut home buf buf i := by
  refine ⟨fun _ _ _ _ => rfl, fun q _ _ => ?_⟩
  by_cases h : q = i
  · subst q
    exact inr linked
  · exact inl ⟨h, rfl⟩

/-- The cut has the last rank, so an entry that moves to an earlier cell leaves it free. -/
lemma cut_free_of_move {v : α} (hc : cut < m) (hi : i < m) (hlt : rank m cut h < rank m cut i)
    (occupied : cell buf i ≠ 0) (free : cell buf cut = 0) : cell
    ((buf.set i 0).set h v) cut = 0 := by
  have hl := rank_cut hc
  have hb := rank_lt hc hi
  have hh : cut ≠ h := by
    rintro rfl
    omega
  have ha : cut ≠ i := fun heq => occupied (heq ▸ free)
  simp [hh, free]

/-- Moving the entry of cell `i` to the first free cell `h` of its probe path. -/
lemma turn_move (hm : buf.length = m) (hc : cut < m) (hi : i < m) (hh : h < m) (hne : h ≠ i)
    (occupied : cell buf i ≠ 0) (ahead : rank m cut (home (cell buf i)) ≤ rank m cut h)
    (before : ∀ r < m, rank m cut (home (cell buf i)) ≤ rank m cut r →
      rank m cut r < rank m cut h → cell buf r ≠ 0)
    (apart : rank m cut (home (cell buf i)) ≤ rank m cut i → rank m cut h < rank m cut i)
    (free : cell buf h = 0) : Turn m cut home buf ((buf.set i 0).set h (cell buf i)) i := by
  subst hm
  have cells : ∀ q, cell ((buf.set i 0).set h (cell buf i)) q =
      if q = h then cell buf i else if q = i then 0 else cell buf q := by
    intro q
    simp [hh, hi]
  constructor
  · intro q _ ha hq
    have hb : q ≠ h := fun heq => hq (heq ▸ free)
    rw [cells, if_neg hb, if_neg ha]
  · intro q hq hoc'
    by_cases hb : q = h
    · right
      subst q
      refine ⟨by simpa [cells] using ahead, ?_⟩
      intro r hr hl _ hhi
      simp only [cells, if_true] at hl
      by_cases hd : r = h
      · simpa [cells, hd] using occupied
      · have hlt := hhi.lt_of_ne (mt (rank_inj hc hr hh) hd)
        have he : r ≠ i := by
          rintro rfl
          omega
        rw [cells, if_neg hd, if_neg he]
        exact before r hr hl hlt
    · left
      have ha : q ≠ i := by
        intro heq
        exact hoc' (by simp [cells, heq, hne.symm])
      exact ⟨ha, by simp [hb, ha]⟩

section

variable (turn : Turn m cut home buf buf' i)
include turn

lemma Turn.occupied_of (hq : q < m) (hne : q ≠ i)
    (occupied : cell buf q ≠ 0) : cell buf' q ≠ 0 := by
  rw [turn.keeps q hq hne occupied]
  exact occupied

lemma Turn.homed (homed : Homed m cut home buf) : Homed m cut home buf' := by
  intro q hq ho
  rcases turn.entries q hq ho with ⟨_, same⟩ | linked
  · rw [same] at ho ⊢
    exact homed q hq ho
  · exact linked.1

/-- An entry that no turn touched stays linked on ranks that avoid the turned cell. -/
lemma Turn.linked_of {lo' : Nat} (linked : Linked m cut buf lo p q) (hlo : lo ≤ lo')
    (avoid : rank m cut q < rank m cut i ∨ rank m cut i < lo') : Linked m cut buf' lo' p q := by
  refine ⟨linked.1, ?_⟩
  intro r hr hp hl hq
  have ha : r ≠ i := by
    rintro rfl
    omega
  exact turn.occupied_of hr ha (linked.2 r hr hp (by omega) hq)

/-- Turning the next cell extends a sweep by that cell. -/
lemma Turn.swept_extend (hc : cut < m) (hi : i < m)
    (swept : Swept m cut home buf lo (rank m cut i)) :
    Swept m cut home buf' lo (rank m cut i + 1) := by
  intro q hq ho hl hhi
  rcases turn.entries q hq ho with ⟨ha, same⟩ | linked
  · have hlt := (Nat.le_of_lt_succ hhi).lt_of_ne (mt (rank_inj hc hq hi) ha)
    rw [same] at ho ⊢
    exact turn.linked_of (swept q hq ho hl hlt) le_rfl (inl hlt)
  · exact linked.mono (zero_le _)

/-- A turn below a swept range leaves it swept. -/
lemma Turn.swept_above (below : rank m cut i < lo) (swept : Swept m cut home buf lo hi) :
    Swept m cut home buf' lo hi := by
  intro q hq ho hl hhi
  rcases turn.entries q hq ho with ⟨_, same⟩ | linked
  · rw [same] at ho ⊢
    exact turn.linked_of (swept q hq ho hl hhi) le_rfl (inr below)
  · exact linked.mono (zero_le _)

/-- A turn at the first cell of a swept range leaves the rest of the range swept. -/
lemma Turn.swept_raise (swept : Swept m cut home buf (rank m cut i) hi) :
    Swept m cut home buf' (rank m cut i + 1) hi := by
  intro q hq ho hl hhi
  rcases turn.entries q hq ho with ⟨_, same⟩ | linked
  · rw [same] at ho ⊢
    exact turn.linked_of (swept q hq ho (by omega) hhi) (by omega) (inr (by omega))
  · exact linked.mono (zero_le _)

end

/-- A free cell between two swept ranges lets them be joined: no path crosses it. -/
lemma swept_join (hc : cut < m) (hi : i < m) (free : cell buf i = 0)
    (low : Swept m cut home buf 0 (rank m cut i)) (high : Swept m cut home buf (rank m cut i) m)
    (hq : q < m) (occupied : cell buf q ≠ 0) : Linked m cut buf 0 (home (cell buf q)) q := by
  rcases lt_or_ge (rank m cut q) (rank m cut i) with hlt | hge
  · exact low q hq occupied (zero_le _) hlt
  · obtain ⟨hle, hoc'⟩ := high q hq occupied hge (rank_lt hc hq)
    have beyond : rank m cut i < rank m cut (home (cell buf q)) := by
      by_contra hn
      exact hoc' i hi (by omega) le_rfl hge free
    exact ⟨hle, fun r hr hp _ hq => hoc' r hr hp (by omega) hq⟩

end Sweep
end LinearProbing
