import StatsHouse.ChUniqueMerge
import StatsHouse.TsValues

/-!
# Merging rows of the cache

Whether the accumulator works in place is decided by the number of merges so far, but a digest
can reach it later. When neither of the first two rows has a digest, the first merge copies
nothing, the next digest is taken over as it is, and the one after that is merged into a digest
of the cache.
-/

namespace TsValues

open List Option Nat
variable {Digest : Type} {rows : List RowRef}

/-- The argument of a merge of digests is only read. -/
def TDigest.ReadsArgument (lib : TDigest Digest) : Prop := ∀ p q, (lib.merge p q).2 = q

/-- What a later state of the memory keeps of an earlier one. -/
structure Keeps (mem₀ mem : Memory Digest) : Prop where
  digests_le : mem₀.digests.length ≤ mem.digests.length
  digests (a : Nat) (ha : a < mem₀.digests.length) (hw : a ∉ mem.written) :
    mem.digests[a]? = mem₀.digests[a]?
  tables_le : mem₀.tables.length ≤ mem.tables.length
  tables (a : Nat) (ha : a < mem₀.tables.length) : mem.tables[a]? = mem₀.tables[a]?

lemma Keeps.refl (mem : Memory Digest) : Keeps mem mem :=
  ⟨le_refl _, fun _ _ _ => rfl, le_refl _, fun _ _ => rfl⟩

/-- The table is not one of the earlier memory. -/
def OwnTable (mem₀ : Memory Digest) (u : UniqueRef) : Prop :=
  ∀ a, u.buf = some a → mem₀.tables.length ≤ a

namespace Memory

variable {mem₀ mem mem' : Memory Digest} {scrap : ChUnique → ChUnique → List Hash}

lemma mergeUnique_keeps {u rhs u' : UniqueRef} (keeps : Keeps mem₀ mem)
    (how : OwnTable mem₀ u) (h : mem.mergeUnique scrap u rhs = some (mem', u')) :
    Keeps mem₀ mem' ∧ OwnTable mem₀ u' ∧ mem'.digests = mem.digests ∧
      mem'.written = mem.written := by
  have ht := keeps.tables_le
  rw [mergeUnique] at h
  split at h
  · cases h
    exact ⟨keeps, how, rfl, rfl⟩
  · obtain ⟨merged, -, ho⟩ := map_eq_some_iff.1 h
    split at ho
    · cases ho
      refine ⟨{ keeps with tables_le := ?_, tables := fun a ha => ?_ }, ?_, rfl, rfl⟩
      · simp only [length_append, length_singleton]
        omega
      · rw [getElem?_append_left (ha.trans_le ht)]
        exact keeps.tables a ha
      · rintro a ⟨⟩
        exact ht
    · rename_i b hb
      have hs cells a (ha : a < mem₀.tables.length) :
          (mem.tables.set b cells)[a]? = mem₀.tables[a]? := by
        rw [getElem?_set_ne (ne_of_gt (ha.trans_le (how b hb)))]
        exact keeps.tables a ha
      split_ifs at ho
      · cases ho
        refine ⟨{ keeps with tables_le := ?_, tables := hs _ }, ?_, rfl, rfl⟩
        · rwa [length_set]
        · rintro a ⟨⟩
          exact how b hb
      · cases ho
        refine ⟨{ keeps with tables_le := ?_, tables := fun a ha => ?_ }, ?_, rfl, rfl⟩
        · simp only [length_append, length_set, length_singleton]
          omega
        · rw [getElem?_append_left (by rw [length_set]; exact ha.trans_le ht)]
          exact hs _ a ha
        · rintro a ⟨⟩
          exact ht

variable {lib : TDigest Digest}

lemma set_getD_self {α : Type*} (l : List α) (i : Nat) (d : α) : l.set i (l.getD i d) = l := by
  rcases lt_or_ge i l.length with hi | hi
  · rw [getD_eq_getElem _ _ hi, set_getElem_self]
  · exact set_eq_of_length_le hi

/-- A merge of digests writes to its receiver and to nothing else. -/
lemma mergeDigest_keeps (hlib : lib.ReadsArgument) (keeps : Keeps mem₀ mem) (p : Nat)
    (q : Option Nat) : Keeps mem₀ (mem.mergeDigest lib p q) := by
  cases q with
  | none => exact keeps
  | some q =>
    rw [mergeDigest]
    simp only [hlib _ _, Memory.digest, set_getD_self]
    refine { keeps with digests_le := ?_, digests := fun a ha hw => ?_ }
    · rw [length_set]
      exact keeps.digests_le
    · rw [mem_append, mem_singleton, not_or] at hw
      rw [getElem?_set_ne (Ne.symm hw.2)]
      exact keeps.digests a ha hw.1

lemma mergeDigest_written (mem : Memory Digest) (p : Nat) (q : Option Nat) :
    (mem.mergeDigest lib p q).written = mem.written ++ if q.isSome then [p] else [] := by
  cases q with
  | none => simp [mergeDigest]
  | some q => rfl

lemma newDigest_keeps (keeps : Keeps mem₀ mem) : Keeps mem₀ (mem.newDigest lib).1 := by
  refine { keeps with digests_le := ?_, digests := fun a ha hw => ?_ }
  · simp only [newDigest, length_append, length_singleton]
    exact keeps.digests_le.trans (le_succ _)
  · simp only [newDigest]
    rw [getElem?_append_left (ha.trans_le keeps.digests_le)]
    exact keeps.digests a ha hw

lemma mergeDigests_keeps (hlib : lib.ReadsArgument) (keeps : Keeps mem₀ mem)
    (p q : Option Nat) : Keeps mem₀ (mem.mergeDigests lib p q).1 := by
  cases p with
  | none => exact keeps
  | some p => exact mergeDigest_keeps hlib keeps p q

/-- What a merge does to an accumulator that is not a copy any more. -/
structure InPlace (mem₀ mem : Memory Digest) (v rhs : RowRef) (mem' : Memory Digest)
    (v' : RowRef) : Prop where
  keeps : Keeps mem₀ mem'
  own : OwnTable mem₀ v'.unique
  mergeCount : v'.mergeCount ≠ 0
  percentile : v'.percentile = v.percentile.or rhs.percentile
  written : mem'.written = mem.written ++ if rhs.percentile.isSome then v.percentile.toList else []

variable {v rhs v' : RowRef}

lemma merge_inPlace (hlib : lib.ReadsArgument) (keeps : Keeps mem₀ mem)
    (how : OwnTable mem₀ v.unique) (count : v.mergeCount ≠ 0)
    (h : mem.merge lib scrap v rhs = some (mem', v')) : InPlace mem₀ mem v rhs mem' v' := by
  rw [merge, if_neg count] at h
  obtain ⟨⟨mem₁, u⟩, hu, ho⟩ := map_eq_some_iff.1 h
  obtain ⟨hkp₁, how₁, -, hwr₁⟩ := mergeUnique_keeps keeps how hu
  cases ho
  refine ⟨mergeDigests_keeps hlib hkp₁ _ _, how₁, succ_ne_zero _, ?_, ?_⟩
  · cases v.percentile <;> simp [Values.mergeNumbers, mergeDigests]
  · rw [← hwr₁]
    cases hp : v.percentile with
    | none => simp [mergeDigests]
    | some p => exact mergeDigest_written mem₁ p rhs.percentile

/-- What the first merge does. -/
structure Copies (mem₀ mem : Memory Digest) (v rhs : RowRef) (mem' : Memory Digest)
    (v' : RowRef) : Prop where
  keeps : Keeps mem₀ mem'
  own : OwnTable mem₀ v'.unique
  mergeCount : v'.mergeCount ≠ 0
  percentile : v'.percentile =
    if v.percentile.isSome || rhs.percentile.isSome then some mem.digests.length else none
  written (a : Nat) (ha : a ∈ mem'.written) : a ∈ mem.written ∨ a = mem.digests.length

lemma merge_copies (hlib : lib.ReadsArgument) (keeps : Keeps mem₀ mem)
    (count : v.mergeCount = 0) (h : mem.merge lib scrap v rhs = some (mem', v')) :
    Copies mem₀ mem v rhs mem' v' := by
  rw [merge, if_pos count] at h
  obtain ⟨⟨mem₁, u₁⟩, hf, h⟩ := bind_eq_some_iff.1 h
  obtain ⟨⟨mem₂, u₂⟩, hs, ho⟩ := map_eq_some_iff.1 h
  have hn : OwnTable mem₀ {} := by
    rintro a ⟨⟩
  obtain ⟨hkp₁, how₁, hdg₁, hwr₁⟩ := mergeUnique_keeps keeps hn hf
  obtain ⟨hkp₂, how₂, hdg₂, hwr₂⟩ := mergeUnique_keeps hkp₁ how₁ hs
  cases ho
  refine ⟨?_, how₂, succ_ne_zero _, ?_, ?_⟩
  · rw [copyDigests]
    split_ifs
    · exact mergeDigest_keeps hlib (mergeDigest_keeps hlib (newDigest_keeps hkp₂) _ _) _ _
    · exact hkp₂
  · simp only [Values.mergeNumbers, copyDigests, newDigest, hdg₂, hdg₁]
    split_ifs <;> rfl
  · intro a ha
    simp only [copyDigests] at ha
    split_ifs at ha
    · simp only [mergeDigest_written, newDigest, hwr₂, hwr₁, hdg₂, hdg₁, mem_append] at ha
      rcases ha with (ha | ha) | ha
      · exact .inl ha
      · split_ifs at ha
        · exact .inr (mem_singleton.1 ha)
        · cases ha
      · split_ifs at ha
        · exact .inr (mem_singleton.1 ha)
        · cases ha
    · rw [hwr₂, hwr₁] at ha
      exact .inl ha

/-- No digest of the earlier memory was the receiver of a merge. -/
def Clean (mem₀ mem : Memory Digest) : Prop := ∀ a ∈ mem.written, mem₀.digests.length ≤ a

/-- The rows with a digest. -/
def withDigest (rows : List RowRef) : List RowRef := rows.filter (·.percentile.isSome)

/-- From this state of the accumulator the rows can be merged in place. -/
def Safe (mem₀ : Memory Digest) (rows : List RowRef) : Option Nat → Prop
  | none => (withDigest rows).length ≤ 1
  | some p => mem₀.digests.length ≤ p ∨ withDigest rows = []

/-- The digests of all rows are in the earlier memory. -/
def Borrowed (mem₀ : Memory Digest) (rows : List RowRef) : Prop :=
  ∀ row ∈ rows, ∀ p, row.percentile = some p → p < mem₀.digests.length

lemma safe_cons {mem₀ : Memory Digest} {row : RowRef}
    (inHeap : ∀ p, row.percentile = some p → p < mem₀.digests.length) (p : Option Nat) :
    Safe mem₀ (row :: rows) p ↔
      (∀ a ∈ (if row.percentile.isSome then p.toList else []), mem₀.digests.length ≤ a) ∧
        Safe mem₀ rows (p.or row.percentile) := by
  have hl q hq : ¬mem₀.digests.length ≤ q :=
    not_le.2 (inHeap q hq)
  cases p with
  | none =>
    cases hq : row.percentile with
    | none => simp [Safe, withDigest, hq]
    | some q => simp [Safe, withDigest, hq, hl q hq, filter_eq_nil_iff]
  | some p =>
    cases hq : row.percentile with
    | none => simp [Safe, withDigest, hq]
    | some q =>
      simp only [Safe, withDigest, hq, isSome_some, if_true, toList_some,
        mem_singleton, forall_eq, filter_cons_of_pos, reduceCtorEq, or_false,
        some_or]
      exact ⟨fun h => ⟨h, .inl h⟩, fun h => h.1⟩

lemma mergeAll_inPlace (hlib : lib.ReadsArgument) :
    ∀ {mem : Memory Digest} {v : RowRef}, Keeps mem₀ mem → OwnTable mem₀ v.unique →
      v.mergeCount ≠ 0 → Borrowed mem₀ rows → ∀ {mem' : Memory Digest} {v' : RowRef},
      mem.mergeAll lib scrap v rows = some (mem', v') →
        Keeps mem₀ mem' ∧ (Clean mem₀ mem' ↔ Clean mem₀ mem ∧ Safe mem₀ rows v.percentile) := by
  induction rows with
  | nil =>
    intro mem v hk _ _ _ mem' v' h
    cases h
    refine ⟨hk, (and_iff_left ?_).symm⟩
    cases v.percentile with
    | none => exact zero_le 1
    | some p => exact .inr rfl
  | cons row rows ih =>
    intro mem v hk how hc hb mem' v' h
    obtain ⟨⟨mem₁, v₁⟩, hs, ha⟩ := bind_eq_some_iff.1 h
    have ho := merge_inPlace hlib hk how hc hs
    obtain ⟨hkp', hl⟩ := ih ho.keeps ho.own ho.mergeCount
      (fun r hr => hb r (mem_cons_of_mem row hr)) ha
    refine ⟨hkp', ?_⟩
    rw [hl, safe_cons (hb row (.head _)), ho.percentile, ← and_assoc]
    refine and_congr_left fun _ => ?_
    simp only [Clean, ho.written, forall_mem_append]

/-- A row with the digests of this memory. -/
structure FromCache (mem : Memory Digest) (row : RowRef) : Prop where
  mergeCount : row.mergeCount = 0
  percentile (p : Nat) (hp : row.percentile = some p) : p < mem.digests.length

/-- One of the first two rows has a digest, or one row at most has one. -/
def DigestInTime (rows : List RowRef) : Prop :=
  withDigest (rows.take 2) ≠ [] ∨ (withDigest rows).length ≤ 1

lemma digestInTime_cons_cons (first second : RowRef) (rows : List RowRef) :
    DigestInTime (first :: second :: rows) ↔
      (first.percentile.isSome || second.percentile.isSome) = true ∨
        (withDigest rows).length ≤ 1 := by
  cases hf : first.percentile <;> cases hs : second.percentile <;>
    simp [DigestInTime, withDigest, hf, hs]

lemma clean_of_fresh (hfresh : mem.written = []) : Clean mem mem := by
  intro a ha
  rw [hfresh] at ha
  cases ha

/-- The first merge leaves the digests of the cache alone. -/
lemma Copies.clean (hfresh : mem.written = [])
    (h : Copies mem mem v rhs mem' v') : Clean mem mem' := by
  intro a ha
  rcases h.written a ha with ha | rfl
  · exact clean_of_fresh hfresh a ha
  · exact le_refl _

/-- No set of the cache is changed by merging its rows, and no digest if and only if a digest
comes in time to be copied. -/
theorem merged_rows_keep_cache_iff (hlib : lib.ReadsArgument)
    (scrap : ChUnique → ChUnique → List Hash) (hfresh : mem.written = []) {first : RowRef}
    {rows : List RowRef} (hrows : ∀ row ∈ first :: rows, FromCache mem row) {v' : RowRef}
    (h : mem.mergeAll lib scrap first rows = some (mem', v')) :
    (∀ a < mem.tables.length, mem'.tables[a]? = mem.tables[a]?) ∧
      ((∀ a ∈ mem'.written, ¬a < mem.digests.length) ↔ DigestInTime (first :: rows)) ∧
      (DigestInTime (first :: rows) →
        ∀ a < mem.digests.length, mem'.digests[a]? = mem.digests[a]?) := by
  obtain ⟨hk, hi⟩ : Keeps mem mem' ∧ (Clean mem mem' ↔ DigestInTime (first :: rows)) := by
    cases rows with
    | nil =>
      cases h
      refine ⟨Keeps.refl mem, iff_of_true (clean_of_fresh hfresh) (.inr ?_)⟩
      exact length_filter_le ..
    | cons second rows =>
      obtain ⟨⟨mem₁, v₁⟩, hs, hr⟩ := bind_eq_some_iff.1 h
      have ho := merge_copies hlib (Keeps.refl mem) (hrows first (.head _)).mergeCount hs
      have hb : Borrowed mem rows := fun row hc =>
        (hrows row (.tail _ (.tail _ hc))).percentile
      obtain ⟨hk, hi⟩ := mergeAll_inPlace hlib ho.keeps ho.own ho.mergeCount hb hr
      refine ⟨hk, ?_⟩
      rw [hi, and_iff_right (ho.clean hfresh), digestInTime_cons_cons, ho.percentile]
      split_ifs with hd
      · exact iff_of_true (.inl le_rfl) (.inl hd)
      · exact (or_iff_right hd).symm
  have hn : (∀ a ∈ mem'.written, ¬a < mem.digests.length) ↔ Clean mem mem' :=
    forall₂_congr fun _ _ => not_lt
  refine ⟨hk.tables, hn.trans hi, fun hin a ha => hk.digests a ha fun hw => ?_⟩
  exact not_le.2 ha (hi.2 hin a hw)

/-- Digests that only count. -/
def counting : TDigest Nat where
  new := 0
  merge p q := (p + q, q)

/-- A set with one item, and these digests. -/
def cached (digests : List Nat) : Memory Nat := { digests, tables := [5 :: replicate 15 0] }

/-- A row with the set and this digest. -/
def rowWith (p : Option Nat) : RowRef :=
  { unique := { buf := some 0, itemsCount := 1, sizeDegree := 4 }, percentile := p }

/-- With a digest in the second row the digests of the cache are merged into a copy. -/
theorem second_digest_copied :
    ∃ mem' v', Memory.mergeAll counting (fun _ _ => []) (cached [5, 7, 9]) (rowWith none)
        [rowWith (some 0), rowWith (some 1), rowWith (some 2)] = some (mem', v') ∧
      (∀ a < 1, mem'.tables[a]? = (cached []).tables[a]?) ∧
      ∀ a < 3, mem'.digests[a]? = [5, 7, 9][a]? := by
  obtain ⟨mem', v', h⟩ : ∃ mem' v', Memory.mergeAll counting (fun _ _ => [])
      (cached [5, 7, 9]) (rowWith none)
      [rowWith (some 0), rowWith (some 1), rowWith (some 2)] = some (mem', v') := ⟨_, _, rfl⟩
  have hlib : counting.ReadsArgument := fun _ _ => rfl
  obtain ⟨ht, -, hd⟩ := merged_rows_keep_cache_iff hlib (fun _ _ => []) rfl (by
    simp only [forall_mem_cons, not_mem_nil, false_implies, implies_true, and_true]
    refine ⟨⟨rfl, ?_⟩, ⟨rfl, ?_⟩, ⟨rfl, ?_⟩, ⟨rfl, ?_⟩⟩ <;> rintro p ⟨⟩ <;> decide) h
  exact ⟨mem', v', h, ht, hd (.inl (by decide))⟩

/-- Two rows without a digest, then two with one: the third row's digest is changed in the
cache. -/
theorem third_digest_written :
    ∃ mem' v', Memory.mergeAll counting (fun _ _ => []) (cached [5, 7]) (rowWith none)
        [rowWith none, rowWith (some 0), rowWith (some 1)] = some (mem', v') ∧
      0 ∈ mem'.written ∧ mem'.digests[0]? = some 12 :=
  ⟨_, _, rfl, by decide, rfl⟩

end Memory

end TsValues
