import Mathlib.Data.List.Basic
import Mathlib.Order.Lattice

/-!
# Replicas of a sorted table

A table is a list whose entries have increasing keys. A replica holds its first entries, in
order; what a replica has lost at its end is asked for again by key. A batch that starts at or
below the last key of the replica and leaves nothing out makes it a longer replica, whatever
part of the batch the replica has already.
-/

namespace SortedReplica

open List
universe u v

variable {α : Type u} {κ : Type v} [LinearOrder κ] (key : α → κ) {batch : List α} {x : α}

/-- The replica holds the first entries of the table. -/
structure Initial (table replica : List α) : Prop where
  mem : ∀ x ∈ replica, x ∈ table
  sorted : replica.Pairwise (key · < key ·)
  closed : ∀ x ∈ replica, ∀ y ∈ table, key y ≤ key x → y ∈ replica

/-- The replica has every entry up to the given key. -/
def Covers (table replica : List α) (v : κ) : Prop := ∀ x ∈ table, key x ≤ v → x ∈ replica

/-- Every entry with a key above `lo` and up to `hi`, in order. -/
structure Batch (table : List α) (lo hi : κ) (batch : List α) : Prop where
  mem : ∀ x ∈ batch, x ∈ table
  sorted : batch.Pairwise (key · < key ·)
  bounds : ∀ x ∈ batch, lo < key x ∧ key x ≤ hi
  complete : ∀ x ∈ table, lo < key x → key x ≤ hi → x ∈ batch

variable {key} {table replica : List α}

lemma Initial.nil : Initial key table [] := ⟨by simp, List.Pairwise.nil, by simp⟩

/-- A replica that loses its end is a replica. -/
lemma Initial.of_append {lost : List α} (h : Initial key table (replica ++ lost)) :
    Initial key table replica := by
  obtain ⟨hs, _, hb⟩ := pairwise_append.1 h.sorted
  refine ⟨fun x hx => h.mem x (mem_append_left lost hx), hs, ?_⟩
  intro x hx y hy hle
  obtain hm | hl := mem_append.1 (h.closed x (mem_append_left lost hx) y hy hle)
  · exact hm
  · exact absurd (hb x hx y hl) (not_lt.2 hle)

/-- The next entry of the table. -/
lemma Initial.snoc (h : Initial key table replica) (inj : ∀ y ∈ table, key y = key x → y = x)
    (hx : x ∈ table) (new : x ∉ replica) (below : ∀ y ∈ table, key y < key x → y ∈ replica) :
    Initial key table (replica ++ [x]) := by
  constructor
  · intro y hy
    obtain hy | hy := mem_append.1 hy
    · exact h.mem y hy
    · rwa [mem_singleton.1 hy]
  · refine pairwise_append.2 ⟨h.sorted, pairwise_singleton _ _, ?_⟩
    intro y hy z hz
    rw [mem_singleton.1 hz]
    exact not_le.1 fun hle => new (h.closed y hy x hx hle)
  · intro y hy z hz hle
    obtain hy | hy := mem_append.1 hy
    · exact mem_append_left _ (h.closed y hy z hz hle)
    · rw [mem_singleton.1 hy] at hle
      obtain hlt | heq := lt_or_eq_of_le hle
      · exact mem_append_left _ (below z hz hlt)
      · exact mem_append_right _ (mem_singleton.2 (inj z hz heq))

variable {lo hi : κ}

/-- The part of a batch for a part of the table. -/
lemma Batch.filter (h : Batch key table lo hi batch) (p : α → Bool) :
    Batch key (table.filter p) lo hi (batch.filter p) := by
  constructor
  · intro x hx
    obtain ⟨hm, hp⟩ := mem_filter.1 hx
    exact mem_filter.2 ⟨h.mem x hm, hp⟩
  · exact h.sorted.filter p
  · intro x hx
    exact h.bounds x (mem_of_mem_filter hx)
  · intro x hx hlo hhi
    obtain ⟨hm, hp⟩ := mem_filter.1 hx
    exact mem_filter.2 ⟨h.complete x hm hlo hhi, hp⟩

lemma Batch.below (h : Batch key table lo hi (x :: batch))
    (covers : Covers key table replica lo) : ∀ y ∈ table, key y < key x → y ∈ replica := by
  intro y hy hlt
  obtain hle | hgt := le_or_gt (key y) lo
  · exact covers y hy hle
  · have hm := h.complete y hy hgt (hlt.le.trans (h.bounds x (.head _)).2)
    obtain rfl | hm := mem_cons.1 hm
    · exact absurd hlt (lt_irrefl _)
    · exact absurd ((pairwise_cons.1 h.sorted).1 y hm) (not_lt.2 hlt.le)

/-- Once the first entry of the batch is there, the rest of the batch goes on from it. -/
lemma Batch.tail (h : Batch key table lo hi (x :: batch)) :
    Batch key table (key x) hi batch := by
  obtain ⟨hf, hs⟩ := pairwise_cons.1 h.sorted
  refine ⟨fun y hy => h.mem y (mem_cons_of_mem x hy), hs, ?_, ?_⟩
  · intro y hy
    exact ⟨hf y hy, (h.bounds y (mem_cons_of_mem x hy)).2⟩
  · intro y hy hgt hle
    have hlo := (h.bounds x (.head _)).1
    obtain rfl | hm := mem_cons.1 (h.complete y hy (hlo.trans hgt) hle)
    · exact absurd hgt (lt_irrefl _)
    · exact hm

/-- With the first entry of the batch the replica is covered up to it. -/
lemma Batch.covers_head {replica' : List α} (h : Batch key table lo hi (x :: batch))
    (covers : Covers key table replica lo) (inj : ∀ y ∈ table, key y = key x → y = x)
    (sub : ∀ y ∈ replica, y ∈ replica') (hx : x ∈ replica') :
    Covers key table replica' (key x) := by
  intro y hy hle
  obtain hlt | heq := lt_or_eq_of_le hle
  · exact sub y (h.below covers y hy hlt)
  · rwa [inj y hy heq]

/-- At the end of a batch the replica is covered up to the end of its range. -/
lemma Batch.covers_nil (h : Batch key table lo hi [])
    (covers : Covers key table replica lo) : Covers key table replica hi := by
  intro x hx hle
  obtain hlo | hgt := le_or_gt (key x) lo
  · exact covers x hx hlo
  · cases h.complete x hx hgt hle

end SortedReplica
