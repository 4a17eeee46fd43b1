import Mathlib.Data.List.Pairwise
import Mathlib.Order.Lattice

/-!
# Ordered trees of items

An ordered tree holds items of which no two have equal keys. It is known by its items in
ascending order. Keys are read from the items at each operation, as in trees that compare items
only by `Less`, so the laws of a tree ask that the items ascend by the keys they have then.
Sorted lists are such trees.
-/

namespace OrderedTree

open List
universe u v

variable {α : Type u} {κ : Type v} [LinearOrder κ] (key : α → κ)

/-- The items ascend. -/
def Ordered (items : List α) : Prop := items.Pairwise (key · < key ·)

variable (α κ) in
/-- A kind of trees and its laws. -/
structure Trees where
  Tree : Type u
  empty : Tree
  items : Tree → List α
  replaceOrInsert (key : α → κ) (x : α) (t : Tree) : Tree
  delete (key : α → κ) (x : α) (t : Tree) : Tree
  deleteMin (t : Tree) : Option (α × Tree)
  items_empty : items empty = []
  mem_replaceOrInsert {key : α → κ} {x y : α} {t : Tree} :
    Ordered key (items t) → (∀ z ∈ items t, key z ≠ key x) →
      (y ∈ items (replaceOrInsert key x t) ↔ y = x ∨ y ∈ items t)
  ordered_replaceOrInsert {key : α → κ} {x : α} {t : Tree} :
    Ordered key (items t) → (∀ z ∈ items t, key z ≠ key x) →
      Ordered key (items (replaceOrInsert key x t))
  mem_delete {key : α → κ} {x y : α} {t : Tree} :
    Ordered key (items t) → x ∈ items t → (y ∈ items (delete key x t) ↔ y ∈ items t ∧ y ≠ x)
  ordered_delete {key : α → κ} {x : α} {t : Tree} :
    Ordered key (items t) → x ∈ items t → Ordered key (items (delete key x t))
  items_deleteMin (t : Tree) : items t = (deleteMin t).elim [] fun m => m.1 :: items m.2

lemma Ordered.head_lt {key : α → κ} {x y : α} {items : List α} (h : Ordered key (x :: items))
    (hy : y ∈ items) : key x < key y :=
  (pairwise_cons.1 h).1 y hy

/-- Only the keys of the items matter. -/
lemma Ordered.congr {key key' : α → κ} {items : List α} (h : Ordered key items)
    (same : ∀ z ∈ items, key' z = key z) : Ordered key' items := by
  refine List.Pairwise.imp_of_mem ?_ h
  intro a b ha hb hlt
  rwa [same a ha, same b hb]

lemma Ordered.key_ne {key : α → κ} {items : List α} (h : Ordered key items) {x y : α}
    (hx : x ∈ items) (hy : y ∈ items) (hne : y ≠ x) : key y ≠ key x := by
  have : Std.Symm fun a b : α => key a ≠ key b := ⟨fun _ _ => Ne.symm⟩
  exact (h.imp fun hlt => hlt.ne : items.Pairwise fun a b => key a ≠ key b).forall hy hx hne

def sortedList : Trees α κ where
  Tree := List α
  empty := []
  items t := t
  replaceOrInsert key x t := t.filter (key · < key x) ++ x :: t.filter (key x < key ·)
  delete key x t := t.filter (key · ≠ key x)
  deleteMin
    | [] => none
    | x :: t => some (x, t)
  items_empty := rfl
  mem_replaceOrInsert {key x y t} _ fresh := by
    have hy : y ∈ t → (key y < key x ∨ key x < key y) := fun hy => lt_or_gt_of_ne (fresh y hy)
    simp only [mem_append, mem_cons, mem_filter, decide_eq_true_eq]
    grind
  ordered_replaceOrInsert {key x t} h _ := by
    refine pairwise_append.2 ⟨h.filter _, pairwise_cons.2 ⟨by simp, h.filter _⟩, ?_⟩
    intro a ha b hb
    have ha : key a < key x := by simpa using (mem_filter.1 ha).2
    obtain rfl | hb := mem_cons.1 hb
    · exact ha
    · exact ha.trans (by simpa using (mem_filter.1 hb).2)
  mem_delete {key x y t} h hx := by
    simp only [mem_filter, decide_eq_true_eq]
    exact and_congr_right fun hy => ⟨fun hne heq => hne (heq ▸ rfl), h.key_ne hx hy⟩
  ordered_delete h _ := h.filter _
  items_deleteMin t := by cases t <;> rfl

end OrderedTree
