import StatsHouse.ChUniqueHash

/-!
# Merging two sets in memory

`Merge` raises the target to the degree of the other set and then pours the items of the
other set in, filtered by the degree of that other set and not by its own. The result is
the union exactly when no item below the final degree arrives after that degree has been
reached, in both orders of the merge.
-/

namespace ChUniqueMerge

open LinearProbing ChUniqueSet ChUniqueHash Thinning Refinement List ChUnique Or
variable {ch : ChUnique}

lemma insertImpl_shrink_zero (ready : Ready ch) (h : ch.hasZeroItem = true) :
    add hashLevels uniquesHashMaxSize (view ch) 0 = view ch := by
  have hin := mem_stored.2 (inr ⟨rfl, h⟩)
  have hs := Finset.insert_eq_self.2 hin
  change settle _ _ ⟨ch.skipDegree, insert 0 (stored ch)⟩ = view ch
  rw [hs]
  exact settle_of_le (Rest.card_le (inr ready))

/-- The items that `Merge` takes from `rhs`, in their order. -/
def taken (rhs : ChUnique) : List Hash := rhs.items.filter (fun x => rhs.good x)

lemma good_zero (ch : ChUnique) : ch.good 0 = true := (good_iff ch 0).2 (on_zero _)

lemma taken_eq (rhs : ChUnique) : taken rhs = (if rhs.hasZeroItem then [0] else []) ++
      rhs.buf.filter (fun x => decide (x ≠ 0 ∧ rhs.good x = true)) := by
  have hc : (rhs.buf.filter (· ≠ 0)).filter (fun x => rhs.good x) =
      rhs.buf.filter (fun x => decide (x ≠ 0 ∧ rhs.good x = true)) := by
    rw [filter_filter]
    congr 1
    funext x
    cases rhs.good x <;> simp
  rw [taken, items, filter_append, hc]
  cases rhs.hasZeroItem with
  | false => rfl
  | true => rw [if_pos rfl, filter_cons_of_pos (good_zero rhs), filter_nil]

/-- A rehash of a table at rest, after its degree was set to `k`. -/
lemma rehash_ready (ready : Ready ch) (k : Nat) :
    ∃ ch', rehash { ch with skipDegree := k } = some ch' ∧ Ready ch' ∧
      ch'.sizeDegree = ch.sizeDegree ∧ view ch' = ⟨k, thin hashLevels k (stored ch)⟩ := by
  let up : ChUnique := { ch with skipDegree := k }
  have ht : Table up := ⟨ready.sized, ready.nodup, ready.chained, ready.honest⟩
  have hf := ready.few
  obtain ⟨ch', hr, htb', hs, hz, hk, -⟩ :=
    rehash_stored ht (by
      change (occupied ch.buf).card < ch.bufSize
      omega)
  have hst' : stored ch' = thin hashLevels k (stored ch) := hs
  have hsz' : ch'.sizeDegree = ch.sizeDegree := hz
  have hsk' : ch'.skipDegree = k := hk
  have hl : ch'.maxFill = ch.maxFill := by
    simp only [maxFill, hsz']
  have hc : ch'.itemsCount ≤ ch.itemsCount := by
    have hd := Finset.card_le_card (thin_subset hashLevels k (stored ch))
    have hold := ready.toTable.card_stored
    have hn := htb'.card_stored
    rw [hst'] at hn
    omega
  have hm := ready.fill
  refine ⟨ch', hr, ⟨htb', ?_, ?_, by omega⟩, hsz', ?_⟩
  · rw [hsz']
    exact ready.low
  · rw [hsz']
    exact ready.high
  · simp [view, hst', hsk']

lemma mergeDegree_spec (ready : Ready ch) (rhs : ChUnique) :
    ∃ ch', ch.mergeDegree rhs = some ch' ∧ Ready ch' ∧
      view ch' = raise hashLevels rhs.skipDegree (view ch) := by
  by_cases hlt : ch.skipDegree < rhs.skipDegree
  · obtain ⟨ch', hr, hd, -, hv⟩ := rehash_ready ready rhs.skipDegree
    refine ⟨ch', ?_, hd, ?_⟩
    · simp [mergeDegree, if_pos hlt, hr]
    · have hlt' : (view ch).degree < rhs.skipDegree := hlt
      rw [hv, raise, if_pos hlt']
      rfl
  · refine ⟨ch, ?_, ready, ?_⟩
    · simp [mergeDegree, if_neg hlt]
    · have hlt' : ¬(view ch).degree < rhs.skipDegree := hlt
      simp only [raise, if_neg hlt']

lemma mergeZero_spec (ready : Ready ch) (rhs : ChUnique) :
    ∃ ch', mergeZero rhs ch = some ch' ∧ Ready ch' ∧
      view ch' = pour hashLevels uniquesHashMaxSize (view ch)
        (if rhs.hasZeroItem then [0] else []) := by
  cases hr : rhs.hasZeroItem with
  | false => exact ⟨ch, by simp [mergeZero, hr], ready, rfl⟩
  | true =>
    cases hc : ch.hasZeroItem with
    | true =>
      refine ⟨ch, by simp [mergeZero, hc], ready, ?_⟩
      exact (insertImpl_shrink_zero ready hc).symm
    | false =>
      obtain ⟨ch', his, hd, -, hv⟩ := insertImpl_shrink ready 0
      refine ⟨ch', ?_, hd, hv⟩
      rw [← his]
      simp [mergeZero, insertImpl, hr, hc]

lemma mergeItem_refines (rhs : ChUnique) : Refines Ready view (mergeItem rhs)
      (fun s x => if decide (x ≠ 0 ∧ rhs.good x = true) = true
        then add hashLevels uniquesHashMaxSize s x else s) := by
  intro ch x ready
  by_cases ht : x ≠ 0 ∧ rhs.good x = true
  · obtain ⟨ch', his, hr, -, hv⟩ := insertImpl_shrink ready x
    refine ⟨ch', ?_, hr, ?_⟩
    · simp only [mergeItem, if_pos ht, his]
    · simp only [decide_eq_true_eq, if_pos ht, hv]
  · refine ⟨ch, ?_, ready, ?_⟩
    · simp only [mergeItem, if_neg ht]
    · simp only [decide_eq_true_eq, if_neg ht]

/-- `Merge` is an unfiltered pour of the items taken, after the target was raised. -/
theorem merge_spec {rhs : ChUnique} (rest : Rest ch) (rest' : Rest rhs) :
    ∃ ch', ch.merge rhs = some ch' ∧ Rest ch' ∧ view ch' = pour hashLevels uniquesHashMaxSize
        (raise hashLevels rhs.skipDegree (view ch)) (taken rhs) := by
  rcases rest' with rfl | ready'
  · refine ⟨ch, rfl, rest, ?_⟩
    have hn : ¬(view ch).degree < zeroValue.skipDegree := Nat.not_lt_zero _
    rfl
  · obtain ⟨ready, hs⟩ := rest.ensureBuf
    obtain ⟨ch1, hd, hrd1, hv1⟩ := mergeDegree_spec ready rhs
    obtain ⟨ch2, hz, hrd2, hv2⟩ := mergeZero_spec hrd1 rhs
    obtain ⟨ch3, hc, hrd3, hv3⟩ := (mergeItem_refines rhs).foldlM hrd2 rhs.buf
    refine ⟨ch3, ?_, inr hrd3, ?_⟩
    · simp [ChUnique.merge, if_neg ready'.buf_ne_nil, hd, hz, hc]
    · rw [hv3, hv2, hv1, hs, taken_eq, pour_append]
      exact (foldl_filter).symm

/-- The values inserted one by one. -/
def insertAll (start : ChUnique) (vals : List (BitVec 64)) : Option ChUnique :=
  vals.foldlM insert start

lemma insertAll_eq (start : ChUnique) (vals : List (BitVec 64)) :
    insertAll start vals = insertHashes start (vals.map uintHash32) := by
  rw [insertHashes, foldlM_map]
  rfl

lemma insertAll_settled {start : ChUnique} (fresh : Fresh start) (vals : List (BitVec 64)) :
    ∃ ch, insertAll start vals = some ch ∧ Rest ch ∧
      Settled hashLevels uniquesHashMaxSize 0 (hashes vals) (view ch) := by
  rw [insertAll_eq]
  exact insertHashes_settled fresh _

lemma insertAll_rest {start : ChUnique} (fresh : Fresh start) {vals : List (BitVec 64)}
    (run : insertAll start vals = some ch) : Rest ch ∧
      Settled hashLevels uniquesHashMaxSize 0 (hashes vals) (view ch) := by
  obtain ⟨ch', hn, hr, hs⟩ := insertAll_settled fresh vals
  obtain rfl : ch' = ch := Option.some.inj (hn.symm.trans run)
  exact ⟨hr, hs⟩

lemma taken_of_settled {rhs : ChUnique} {S : Finset Hash}
    (h : Settled hashLevels uniquesHashMaxSize 0 S (view rhs)) :
    taken rhs = rhs.items := by
  apply filter_eq_self.2
  intro x hx
  have hin : x ∈ stored rhs := by
    rw [← stored_toFinset_items]
    exact mem_toFinset.2 hx
  exact (good_iff rhs x).2 (h.on x hin)

/-- What `A.Merge(B)` and `B.Merge(A)` should leave when `vals` are all values inserted
into `A` and `B`. -/
def MergesAsUnion (vals : List (BitVec 64)) (A B : ChUnique) : Prop :=
  ∃ AB BA U, A.merge B = some AB ∧ B.merge A = some BA ∧ insertAll zeroValue vals = some U ∧
    (stored AB = stored U ∧ AB.skipDegree = U.skipDegree) ∧
    (∀ x ∈ stored AB, 2 ^ AB.skipDegree ∣ x.toNat) ∧
    stored BA = stored AB ∧ BA.itemsCount = AB.itemsCount ∧ BA.skipDegree = AB.skipDegree

/-- The degree that the whole set of inserted values calls for. -/
noncomputable def unionDegree (vals : List (BitVec 64)) : Nat :=
  least hashLevels uniquesHashMaxSize 0 (hashes vals)

/-- No item of `B` below degree `k` comes after the items of `B` before it, added to those
of `A` that `B` has not thinned out, have filled the set up to degree `k`. -/
def InTime (k : Nat) (A B : ChUnique) : Prop := Timely hashLevels uniquesHashMaxSize
    (raise hashLevels B.skipDegree (view A)) k B.items

/-- One direction of the merge: it is exact if and only if the items come in time. -/
lemma merge_settled_iff {sa sb A B : ChUnique} (freshA : Fresh sa) (freshB : Fresh sb)
    {va vb : List (BitVec 64)} (runA : insertAll sa va = some A) (runB : insertAll sb vb = some B) :
    ∃ AB, A.merge B = some AB ∧ Rest AB ∧
      (Settled hashLevels uniquesHashMaxSize 0 (hashes va ∪ hashes vb) (view AB) ↔
        InTime (least hashLevels uniquesHashMaxSize 0 (hashes va ∪ hashes vb)) A B) := by
  obtain ⟨restA, settledA⟩ := insertAll_rest freshA runA
  obtain ⟨restB, settledB⟩ := insertAll_rest freshB runB
  obtain ⟨AB, hm, hr, hv⟩ := merge_spec restA restB
  refine ⟨AB, hm, hr, ?_⟩
  have hit : (view B).elems = B.items.toFinset := (stored_toFinset_items B).symm
  have hl := least_spec thin_sixteen_card 0 (hashes va ∪ hashes vb)
  have hk := ((union_settled_iff settledA settledB).2
    (show Settled hashLevels uniquesHashMaxSize 0 (hashes va ∪ hashes vb)
      ⟨_, thin hashLevels _ _⟩ from ⟨hl, rfl⟩)).1
  rw [← union_settled_iff settledA settledB, hv, taken_of_settled settledB]
  rw [hit] at hk ⊢
  exact pour_settled_iff thin_sixteen_card (raise_card_le restA.card_le) (raise_on settledA.on) hk

/-- Nothing lies below degree zero, so a union that fits comes in time. -/
lemma inTime_of_card_le {vals : List (BitVec 64)}
    (fits : (hashes vals).card ≤ uniquesHashMaxSize) (A B : ChUnique) :
    InTime (unionDegree vals) A B := by
  have hz : unionDegree vals = 0 := by
    refine (LeastFrom.eq_least ⟨le_refl 0, ?_, fun j _ hj => absurd hj (Nat.not_lt_zero j)⟩).symm
    rw [thin_zero]
    exact fits
  rw [hz]
  intro front x back _ ho
  exact absurd (hashLevels.zero x) ho

lemma hashes_append (va vb : List (BitVec 64)) : hashes (va ++ vb) = hashes va ∪ hashes vb := by
  simp [hashes]

theorem merge_union_iff {sa sb A B : ChUnique} (freshA : Fresh sa) (freshB : Fresh sb)
    {va vb : List (BitVec 64)} (runA : insertAll sa va = some A)
    (runB : insertAll sb vb = some B) :
    MergesAsUnion (va ++ vb) A B ↔
      InTime (unionDegree (va ++ vb)) A B ∧ InTime (unionDegree (va ++ vb)) B A := by
  obtain ⟨AB, hAB, restAB, exactAB⟩ := merge_settled_iff freshA freshB runA runB
  obtain ⟨BA, hBA, restBA, exactBA⟩ := merge_settled_iff freshB freshA runB runA
  obtain ⟨U, hU, restU, settledU⟩ := insertAll_settled (inl rfl) (va ++ vb)
  rw [Finset.union_comm] at exactBA
  rw [hashes_append] at settledU
  rw [unionDegree, hashes_append, ← exactAB, ← exactBA]
  constructor
  · rintro ⟨AB', BA', U', hAB', hBA', hU', ⟨hs, hk⟩, -, hst', -, hsk'⟩
    obtain rfl : AB = AB' := Option.some.inj (hAB.symm.trans hAB')
    obtain rfl : BA = BA' := Option.some.inj (hBA.symm.trans hBA')
    obtain rfl : U = U' := Option.some.inj (hU.symm.trans hU')
    have hv : view AB = view U := State.ext hk hs
    have hi : view BA = view U := State.ext (hsk'.trans hk) (hst'.trans hs)
    rw [hv, hi]
    exact ⟨settledU, settledU⟩
  · rintro ⟨settledAB, settledBA⟩
    have hv := settledAB.unique settledU
    have hi := settledBA.unique settledAB
    have hs : stored BA = stored AB := congrArg State.elems hi
    refine ⟨AB, BA, U, hAB, hBA, hU,
      ⟨congrArg State.elems hv, congrArg State.degree hv⟩, settledAB.on, hs, ?_,
      congrArg State.degree hi⟩
    rw [← restBA.card_stored, ← restAB.card_stored, hs]

theorem merge_union_iff_two : ∃ A B, insertAll zeroValue [2] = some A ∧
      insertAll zeroValue [0, 5] = some B ∧ MergesAsUnion ([2] ++ [0, 5]) A B := by
  obtain ⟨A, runA, -⟩ := insertAll_settled (inl rfl) [2]
  obtain ⟨B, runB, -⟩ := insertAll_settled (inl rfl) [0, 5]
  have fits : (hashes ([2] ++ [0, 5])).card ≤ uniquesHashMaxSize :=
    le_trans (toFinset_card_le _) (by decide)
  exact ⟨A, B, runA, runB, (merge_union_iff (inl rfl) (inl rfl) runA runB).2
    ⟨inTime_of_card_le fits A B, inTime_of_card_le fits B A⟩⟩

/-- One value with an odd hash, merged into a set that has begun to thin. -/
theorem merge_union_counterexample : ∃ va vb A B, insertAll zeroValue va = some A ∧
      insertAll zeroValue vb = some B ∧ ¬ MergesAsUnion (va ++ vb) A B := by
  obtain ⟨va, -, hc⟩ := exists_vals_card [] (n := 65537) (by decide) (by decide)
  let x : Hash := uintHash32 2
  have hf : x.toNat % 2 = 1 := by decide
  have hs : hashes [2] = {x} := rfl
  obtain ⟨A, runA, -, settledA⟩ := insertAll_settled (inl rfl) va
  obtain ⟨B, runB, -, settledB⟩ := insertAll_settled (inl rfl) [2]
  obtain ⟨AB, hAB, -, exactAB⟩ := merge_settled_iff (inl rfl) (inl rfl) runA runB
  obtain ⟨U, hU, -, settledU⟩ := insertAll_settled (inl rfl) (va ++ [2])
  rw [hashes_append] at settledU
  refine ⟨va, [2], A, B, runA, runB, ?_⟩
  rintro ⟨AB', -, U', hAB', -, hU', ⟨ht, ha⟩, -⟩
  obtain rfl : AB = AB' := Option.some.inj (hAB.symm.trans hAB')
  obtain rfl : U = U' := Option.some.inj (hU.symm.trans hU')
  have hv : view AB = view U := State.ext ha ht
  have intime := exactAB.1 (hv ▸ settledU)
  have hp := settledA.degree_pos (by rw [hc]; decide)
  have ho : ∀ k, 0 < k → ¬hashLevels.On k x := by
    intro k hk hn
    have h2 := Nat.dvd_trans (dvd_pow_self 2 (by omega)) hn
    omega
  have hd : least hashLevels uniquesHashMaxSize 0 (hashes va ∪ hashes [2]) = (view A).degree := by
    refine (LeastFrom.eq_least ⟨Nat.zero_le _, ?_, ?_⟩).symm
    · rw [hs, Finset.union_comm, ← Finset.insert_eq, thin_insert_of_not_on hashLevels (ho _ hp)]
      exact settledA.1.2.1
    · intro j hj hlt
      exact lt_of_lt_of_le (settledA.1.2.2 j hj hlt)
        (Finset.card_le_card (thin_mono hashLevels Finset.subset_union_left))
  have hi : x ∈ B.items := by
    obtain ⟨-, he⟩ := settledB.of_card_le (by rw [hs]; decide)
    rw [← mem_toFinset, stored_toFinset_items]
    change x ∈ (view B).elems
    rw [he, hs]
    exact Finset.mem_singleton_self x
  obtain ⟨front, back, hb⟩ := append_of_mem hi
  rw [hd] at intime
  have hl := intime front x back hb (ho _ hp)
  have hm := pour_degree_le thin_sixteen_card (raise hashLevels B.skipDegree (view A)) front
  rw [raise_degree] at hm
  omega

end ChUniqueMerge
