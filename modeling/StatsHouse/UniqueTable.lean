import Mathlib.Data.List.Basic
import Mathlib.Data.List.Pairwise

/-!
# Tables with unique columns

A table is a row of records of which no two conflict. What a conflict is depends on the
columns declared unique. Inserting and updating fail on a conflict, inserting with replacement
removes the rows in the way.
-/

universe u v

/-- The order of the rows is that of their insertion. -/
structure UniqueTable (Row : Type u) (conflict : Row → Row → Prop) where
  rows : List Row := []
  unique : rows.Pairwise fun r s => ¬conflict r s := by exact .nil

namespace UniqueTable

open List
variable {Row : Type u} {conflict : Row → Row → Prop} [DecidableRel conflict]
  {t t' : UniqueTable Row conflict} {row : Row} {p q : Row → Bool} {f g : Row → Row}

omit [DecidableRel conflict] in
def insert? (t : UniqueTable Row conflict) (row : Row) : Option (UniqueTable Row conflict) :=
  if h : ∀ r ∈ t.rows, ¬conflict r row then
    some {
      rows := t.rows ++ [row]
      unique := pairwise_append.2 ⟨t.unique, pairwise_singleton _ _,
        fun r hr _ hs => mem_singleton.1 hs ▸ h r hr⟩ }
  else none

def replace (t : UniqueTable Row conflict) (row : Row) : UniqueTable Row conflict where
  rows := t.rows.filter (fun r => !decide (conflict r row)) ++ [row]
  unique := by
    refine pairwise_append.2 ⟨t.unique.filter _, pairwise_singleton _ _, ?_⟩
    intro r hr s hs
    rw [mem_singleton.1 hs]
    simpa using (mem_filter.1 hr).2

def update? (t : UniqueTable Row conflict) (p : Row → Bool) (f : Row → Row) :
    Option (UniqueTable Row conflict) :=
  if h : (t.rows.map fun r => if p r then f r else r).Pairwise fun r s => ¬conflict r s then
    some ⟨_, h⟩
  else none

def delete (t : UniqueTable Row conflict) (p : Row → Bool) : UniqueTable Row conflict where
  rows := t.rows.filter fun r => !p r
  unique := t.unique.filter _

lemma insert?_rows (h : t.insert? row = some t') : t'.rows = t.rows ++ [row] := by
  simp only [insert?] at h
  split_ifs at h
  cases h
  rfl

/-- A row found by a unique column right after its insertion. -/
lemma find?_insert? (h : t.insert? row = some t') (hp : p row)
    (conflicts : ∀ r, p r → conflict r row) : t'.rows.find? p = some row := by
  simp only [insert?] at h
  split_ifs at h with hw
  cases h
  have hn := find?_eq_none.2 fun r hr ha => hw r hr (conflicts r ha)
  simp [find?_append, hn, hp]

omit [DecidableRel conflict] in
lemma eq_of_conflict (symm : ∀ r s, conflict r s → conflict s r) {r s : Row} (hr : r ∈ t.rows)
    (hs : s ∈ t.rows) (h : conflict r s) : r = s := by
  have : Std.Symm fun r s => ¬conflict r s := ⟨fun a b hab hba => hab (symm b a hba)⟩
  by_contra hne
  exact t.unique.forall hr hs hne h

lemma mem_replace {r : Row} : r ∈ (t.replace row).rows ↔
    r = row ∨ r ∈ t.rows ∧ ¬conflict r row := by
  simp [replace, or_comm]

lemma update?_rows (h : t.update? p f = some t') :
    t'.rows = t.rows.map fun r => if p r then f r else r := by
  simp only [update?] at h
  split_ifs at h
  cases h
  rfl

/-- Only what happens to the rows of the table counts. -/
lemma update?_congr (h : ∀ r ∈ t.rows, (if p r then f r else r) = if q r then g r else r) :
    t.update? p f = t.update? q g := by
  simp only [update?, map_congr_left h]

section Keyed

variable {Key : Type v} [DecidableEq Key] {key : Row → Key} {k : Key}

/-- Conflicts of a table whose only unique column is the given one. -/
def SameKey (key : Row → Key) (r s : Row) : Prop := key r = key s

instance : DecidableRel (SameKey key) := fun r s => inferInstanceAs (Decidable (key r = key s))

def lookup (t : UniqueTable Row (SameKey key)) (k : Key) : Option Row :=
  t.rows.find? fun r => key r = k

variable {t t' : UniqueTable Row (SameKey key)}

omit [DecidableEq Key] in
lemma eq_of_key {r s : Row} (hr : r ∈ t.rows) (hs : s ∈ t.rows) (h : key r = key s) : r = s :=
  eq_of_conflict (fun _ _ => Eq.symm) hr hs h

lemma lookup_eq_some : t.lookup k = some row ↔ row ∈ t.rows ∧ key row = k := by
  refine ⟨fun h => ⟨mem_of_find?_eq_some h, by simpa using find?_some h⟩, fun ⟨hw, hk⟩ => ?_⟩
  cases hf : t.lookup k with
  | none => exact absurd hk (by simpa using find?_eq_none.1 hf row hw)
  | some r =>
    have hr : key r = k := by simpa using find?_some hf
    rw [eq_of_key (mem_of_find?_eq_some hf) hw (hr.trans hk.symm)]

/-- A table built row by row. -/
lemma mem_foldl_replace {l : List Row} (h : (l.map key).Nodup) {r : Row} :
    r ∈ (l.foldl replace t).rows ↔ r ∈ l ∨ r ∈ t.rows ∧ ∀ s ∈ l, key r ≠ key s := by
  induction l generalizing t with
  | nil => simp
  | cons s l ih =>
    rw [map_cons, nodup_cons, mem_map] at h
    rw [foldl_cons, ih h.2]
    simp only [mem_replace, SameKey]
    grind

lemma lookup_insert? (h : t.insert? row = some t') (k : Key) :
    t'.lookup k = if key row = k then some row else t.lookup k := by
  simp only [insert?] at h
  split_ifs at h with hw
  cases h
  simp only [lookup, find?_append]
  by_cases hk : key row = k
  · subst hk
    have hn : t.rows.find? (fun r => decide (key r = key row)) = none :=
      find?_eq_none.2 fun r hr => by simpa [SameKey] using hw r hr
    simp [hn]
  · simp [hk]

lemma lookup_replace (t : UniqueTable Row (SameKey key)) (row : Row) (k : Key) :
    (t.replace row).lookup k = if key row = k then some row else t.lookup k := by
  simp only [lookup, replace, find?_append]
  by_cases hk : key row = k
  · subst hk
    have hn : (t.rows.filter fun r => !decide (SameKey key r row)).find?
        (fun r => decide (key r = key row)) = none := by
      refine find?_eq_none.2 fun r hr => ?_
      have hne : ¬SameKey key r row := by simpa using (mem_filter.1 hr).2
      simpa [SameKey] using hne
    simp [hn]
  · have hp : (t.rows.filter fun r => !decide (SameKey key r row)).find?
        (fun r => decide (key r = k)) = t.rows.find? fun r => decide (key r = k) := by
      rw [find?_filter]
      congr 1
      funext r
      by_cases hr : key r = k
      · simp [SameKey, hr, Ne.symm hk]
      · simp [hr]
    simp [hp, hk]

lemma lookup_update? {k₀ : Key} (hf : ∀ r, key (f r) = key r)
    (h : t.update? (fun r => key r = k₀) f = some t') (k : Key) :
    t'.lookup k = if k = k₀ then (t.lookup k).map f else t.lookup k := by
  simp only [update?] at h
  split_ifs at h
  cases h
  have hy r : key (if decide (key r = k₀) then f r else r) = key r := by
    split_ifs
    · exact hf r
    · rfl
  have hc : ((fun r => decide (key r = k)) ∘ fun r => if decide (key r = k₀) then f r else r) =
      fun r => decide (key r = k) := by
    funext r
    simp only [Function.comp_apply, hy]
  simp only [lookup, find?_map, hc]
  cases hi : t.rows.find? (fun r => decide (key r = k)) with
  | none => simp
  | some r =>
    have hr : key r = k := by simpa using find?_some hi
    by_cases hk : k = k₀ <;> simp [hr, hk]

lemma lookup_delete (t : UniqueTable Row (SameKey key)) (k₀ k : Key) :
    (t.delete fun r => key r = k₀).lookup k = if k = k₀ then none else t.lookup k := by
  simp only [lookup, delete, find?_filter]
  split_ifs with hk
  · subst hk
    exact find?_eq_none.2 fun r _ => by simp
  · congr 1
    funext r
    by_cases hr : key r = k <;> simp [hr, hk]

end Keyed

end UniqueTable
