import Mathlib.Algebra.Order.BigOperators.Group.List
import Mathlib.Algebra.Order.Ring.Rat
import Mathlib.Data.List.AList
import Mathlib.Tactic.Ring

/-!
# Random draws and totals of samples

A random source is the sequence of its outcomes, so a statement about every source is one
about every outcome. Any order in which an unordered collection is visited is the order of
some source.

Totals of samples with rational weights form a commutative monoid: weights, sums and sums
of squares are added, and the extremes are taken. A finite map of such totals has a total
itself, which moves with its entries.
-/

namespace Sampling

open List AList
universe u v w
variable {l : List (ℚ × ℚ)}

structure Rng where
  draw : Nat → Nat

def Rng.rest (rng : Rng) : Rng := ⟨fun n => rng.draw (n + 1)⟩

def Rng.uint64n (rng : Rng) (n : Nat) : Nat × Rng := (rng.draw 0 % n, rng.rest)

def Rng.intn (rng : Rng) (n : Nat) : Nat × Rng := (rng.draw 0 % n, rng.rest)

def Rng.float64 (rng : Rng) : ℚ × Rng := (((rng.draw 0 % 2 ^ 53 : Nat) : ℚ) / 2 ^ 53, rng.rest)

/-- A random order: each next element is drawn from those that are left. -/
def Rng.order {α : Type u} : Nat → Rng → List α → List α × Rng
  | 0, rng, xs => (xs, rng)
  | n + 1, rng, xs =>
    match xs[rng.draw 0 % xs.length]? with
    | none => ([], rng)
    | some x =>
      let rest := Rng.order n rng.rest (xs.eraseIdx (rng.draw 0 % xs.length))
      (x :: rest.1, rest.2)

lemma order_perm {α : Type u} (n : Nat) (rng : Rng) (xs : List α) :
    ((Rng.order n rng xs).1).Perm xs := by
  induction n generalizing rng xs with
  | zero => exact List.Perm.refl xs
  | succ n ih =>
    rw [Rng.order]
    cases hgt : xs[rng.draw 0 % xs.length]? with
    | none =>
      have hl := getElem?_eq_none_iff.1 hgt
      cases xs with
      | nil => exact List.Perm.refl _
      | cons x xs =>
        exact absurd hl (Nat.not_le.2 (Nat.mod_lt _ (Nat.succ_pos _)))
    | some x =>
      obtain ⟨hlt, hx⟩ := List.getElem?_eq_some_iff.1 hgt
      have hr := ih rng.rest (xs.eraseIdx (rng.draw 0 % xs.length))
      apply (List.Perm.cons x hr).trans
      rw [← hx]
      exact getElem_cons_eraseIdx_perm hlt

/-- What is known of weighted samples. Without samples the extremes are infinite. -/
@[ext]
structure Totals where
  count : ℚ
  sum : ℚ
  sumSquare : ℚ
  min : WithTop ℚ
  max : WithBot ℚ

instance : Zero Totals := ⟨⟨0, 0, 0, ⊤, ⊥⟩⟩

instance : Add Totals :=
  ⟨fun a b => ⟨a.count + b.count, a.sum + b.sum, a.sumSquare + b.sumSquare, a.min ⊓ b.min,
    a.max ⊔ b.max⟩⟩

@[simp] lemma zero_count : (0 : Totals).count = 0 := rfl
@[simp] lemma zero_sum : (0 : Totals).sum = 0 := rfl
@[simp] lemma zero_sumSquare : (0 : Totals).sumSquare = 0 := rfl
@[simp] lemma zero_min : (0 : Totals).min = ⊤ := rfl
@[simp] lemma zero_max : (0 : Totals).max = ⊥ := rfl
@[simp] lemma add_count (a b : Totals) : (a + b).count = a.count + b.count := rfl
@[simp] lemma add_sum (a b : Totals) : (a + b).sum = a.sum + b.sum := rfl
@[simp] lemma add_sumSquare (a b : Totals) : (a + b).sumSquare = a.sumSquare + b.sumSquare := rfl
@[simp] lemma add_min (a b : Totals) : (a + b).min = a.min ⊓ b.min := rfl
@[simp] lemma add_max (a b : Totals) : (a + b).max = a.max ⊔ b.max := rfl

instance : AddCommMonoid Totals where
  add_assoc a b c := by ext <;> simp [add_assoc, inf_assoc, sup_assoc]
  zero_add a := by ext <;> simp
  add_zero a := by ext <;> simp
  add_comm a b := by
    ext <;> simp [add_comm, inf_comm, sup_comm]
  nsmul := nsmulRec

lemma sum_count (ts : List Totals) : ts.sum.count = (ts.map Totals.count).sum := by
  induction ts with
  | nil => rfl
  | cons t ts ih => rw [sum_cons, add_count, ih, map_cons, sum_cons]

/-- A weight without a sample. -/
def weight (w : ℚ) : Totals := ⟨w, 0, 0, ⊤, ⊥⟩

/-- A sample of the given weight, the weight itself not counted. -/
def spot (x w : ℚ) : Totals := ⟨0, x * w, x * x * w, x, x⟩

def spots (samples : List (ℚ × ℚ)) : Totals := (samples.map fun s => spot s.1 s.2).sum

/-- Samples whose weights are all multiplied. The extremes do not depend on the weights. -/
def Totals.scale (k : ℚ) (t : Totals) : Totals :=
  { t with sum := t.sum * k, sumSquare := t.sumSquare * k }

/-- Samples that stand for `k` times as many. -/
def Totals.times (k : ℚ) (t : Totals) : Totals :=
  { t with count := t.count * k, sum := t.sum * k, sumSquare := t.sumSquare * k }

lemma weight_zero : weight 0 = 0 := rfl

lemma weight_add (a b : ℚ) : weight (a + b) = weight a + weight b := by
  ext <;> simp [weight]

lemma spots_cons (s : ℚ × ℚ) (samples : List (ℚ × ℚ)) :
    spots (s :: samples) = spot s.1 s.2 + spots samples := rfl

lemma scale_weight_add (k w : ℚ) (t : Totals) : (weight w + t).scale k = weight w + t.scale k := by
  ext <;> simp [Totals.scale, weight]

lemma scale_one (t : Totals) : t.scale 1 = t := by
  ext <;> simp [Totals.scale]

/-- Without a sample there are no extremes, and the extremes of samples bound them. -/
lemma spots_bounds {samples : List (ℚ × ℚ)} (h : samples ≠ []) :
    ∃ lo hi : ℚ, (spots samples).min = lo ∧ (spots samples).max = hi ∧
      (∀ c ∈ samples, lo ≤ c.1 ∧ c.1 ≤ hi) ∧ (∃ c ∈ samples, c.1 = lo) ∧
      ∃ c ∈ samples, c.1 = hi := by
  induction samples with
  | nil => exact absurd rfl h
  | cons x samples ih =>
    by_cases hn : samples = []
    · subst hn
      exact ⟨x.1, x.1, rfl, rfl, by simp, ⟨x, by simp⟩, ⟨x, by simp⟩⟩
    · obtain ⟨lo, hi, hm, hx, hd, ⟨a, ha, hlo⟩, ⟨b, hb, hhi⟩⟩ := ih hn
      refine ⟨min x.1 lo, max x.1 hi, ?_, ?_, ?_, ?_, ?_⟩
      · rw [spots_cons, add_min, hm]
        exact (WithTop.coe_min x.1 lo).symm
      · rw [spots_cons, add_max, hx]
        exact (WithBot.coe_max x.1 hi).symm
      · intro c hc
        rcases mem_cons.1 hc with rfl | hc
        · exact ⟨min_le_left _ _, le_max_left _ _⟩
        · exact ⟨(min_le_right _ _).trans (hd c hc).1, (hd c hc).2.trans (le_max_right _ _)⟩
      · rcases min_choice x.1 lo with h | h
        · exact ⟨x, (.head _), h.symm⟩
        · exact ⟨a, mem_cons_of_mem x ha, hlo.trans h.symm⟩
      · rcases max_choice x.1 hi with h | h
        · exact ⟨x, (.head _), h.symm⟩
        · exact ⟨b, mem_cons_of_mem x hb, hhi.trans h.symm⟩

/-- Two distinct values. -/
def Varied (l : List (ℚ × ℚ)) : Prop := ∃ a ∈ l, ∃ b ∈ l, a.1 ≠ b.1

lemma Varied.append_left (h : Varied l) (l2 : List (ℚ × ℚ)) : Varied (l ++ l2) := by
  obtain ⟨a, ha, b, hb, hne⟩ := h
  exact ⟨a, mem_append_left l2 ha, b, mem_append_left l2 hb, hne⟩

lemma Varied.append_right {l2 : List (ℚ × ℚ)} (h : Varied l2) (l : List (ℚ × ℚ)) :
    Varied (l ++ l2) := by
  obtain ⟨a, ha, b, hb, hne⟩ := h
  exact ⟨a, mem_append_right l ha, b, mem_append_right l hb, hne⟩

lemma Varied.ne_nil (h : Varied l) : l ≠ [] := by
  obtain ⟨a, ha, -⟩ := h
  exact ne_nil_of_mem ha

lemma not_varied_of_same {x : ℚ} (h : ∀ c ∈ l, c.1 = x) : ¬ Varied l := by
  rintro ⟨a, ha, b, hb, hne⟩
  exact hne ((h a ha).trans (h b hb).symm)

/-- Weighted points, integrated. The indicator of a value gives the weight at that value, and
the constant one the total weight. -/
def mass (f : ℚ → ℚ) (points : List (ℚ × ℚ)) : ℚ := (points.map fun c => f c.1 * c.2).sum

/-- The same weight at every value, however it is divided into points. -/
def SameWeights (points points' : List (ℚ × ℚ)) : Prop := ∀ f, mass f points = mass f points'

variable (f : ℚ → ℚ)

lemma mass_nil : mass f [] = 0 := rfl

lemma mass_cons (c : ℚ × ℚ) (points : List (ℚ × ℚ)) :
    mass f (c :: points) = f c.1 * c.2 + mass f points := rfl

lemma mass_append (points points' : List (ℚ × ℚ)) :
    mass f (points ++ points') = mass f points + mass f points' := by
  simp [mass]

lemma mass_of_same {x : ℚ} {points : List (ℚ × ℚ)} (h : ∀ c ∈ points, c.1 = x) (f : ℚ → ℚ) :
    mass f points = f x * mass 1 points := by
  induction points with
  | nil => simp [mass_nil]
  | cons c points ih =>
    rw [mass_cons, mass_cons, ih (fun c' hc => h c' (mem_cons_of_mem c hc)),
      h c (.head _), Pi.one_apply]
    ring

lemma mass_map_mul (k : ℚ) (points : List (ℚ × ℚ)) :
    mass f (points.map fun c => (c.1, k * c.2)) = k * mass f points := by
  induction points with
  | nil => simp [mass_nil]
  | cons c points ih =>
    rw [map_cons, mass_cons, mass_cons, ih]
    ring

lemma mass_one_pos {points : List (ℚ × ℚ)} (hne : points ≠ []) (h : ∀ c ∈ points, 0 < c.2) :
    0 < mass 1 points := by
  have hp : ∀ x ∈ points.map fun c => (1 : ℚ → ℚ) c.1 * c.2, 0 < x := by
    intro x hx
    obtain ⟨c, hc, rfl⟩ := mem_map.1 hx
    rw [Pi.one_apply, one_mul]
    exact h c hc
  exact sum_pos _ hp (by simpa using hne)

lemma spots_append (l l2 : List (ℚ × ℚ)) : spots (l ++ l2) = spots l + spots l2 := by
  rw [spots, map_append, sum_append]
  rfl

lemma spots_count (l : List (ℚ × ℚ)) : (spots l).count = 0 := by
  induction l with
  | nil => rfl
  | cons c l ih => rw [spots_cons, add_count, ih, spot, add_zero]

lemma spots_sum (l : List (ℚ × ℚ)) : (spots l).sum = mass id l := by
  induction l with
  | nil => rfl
  | cons c l ih =>
    rw [spots_cons, add_sum, ih, mass_cons]
    rfl

lemma spots_sumSquare (l : List (ℚ × ℚ)) : (spots l).sumSquare = mass (fun x => x * x) l := by
  induction l with
  | nil => rfl
  | cons c l ih =>
    rw [spots_cons, add_sumSquare, ih, mass_cons]
    rfl

lemma scale_spots (k : ℚ) (l : List (ℚ × ℚ)) :
    (spots l).scale k = spots (l.map fun c => (c.1, k * c.2)) := by
  induction l with
  | nil => ext <;> simp [spots, Totals.scale]
  | cons c l ih =>
    rw [map_cons, spots_cons, spots_cons, ← ih]
    ext
    · simp [Totals.scale, spot]
    · simp only [Totals.scale, spot, add_sum]
      ring
    · simp only [Totals.scale, spot, add_sumSquare]
      ring
    · rfl
    · rfl

section Maps

variable {κ : Type u} {ν : Type v} {M : Type w} [DecidableEq κ] [AddCommMonoid M]
  {m : AList fun _ : κ => ν} {k : κ} {x : ν}

lemma entries_perm_erase (h : m.lookup k = some x) :
    m.entries.Perm (⟨k, x⟩ :: (m.erase k).entries) := by
  have hm := mem_lookup_iff.1 h
  obtain ⟨y, l₁, l₂, -, he, her⟩ := exists_of_kerase (mem_keys_of_mem hm)
  have hy : x = y := m.nodupKeys.eq_of_mk_mem hm (by simp [he])
  subst hy
  change m.entries.Perm (⟨k, x⟩ :: kerase k m.entries)
  rw [her, he]
  exact perm_middle

lemma length_erase (h : m.lookup k = some x) : (m.erase k).entries.length + 1 = m.entries.length :=
  (entries_perm_erase h).length_eq.symm

def total (f : ν → M) (m : AList fun _ : κ => ν) : M := (m.entries.map fun e => f e.2).sum

lemma total_erase (f : ν → M) (h : m.lookup k = some x) : total f m = f x + total f (m.erase k) :=
  ((entries_perm_erase h).map _).sum_eq

lemma total_insert (f : ν → M) (m : AList fun _ : κ => ν) (k : κ) (x : ν) :
    total f (m.insert k x) = f x + total f (m.erase k) := rfl

lemma total_insert_new (f : ν → M) (h : m.lookup k = none) (x : ν) :
    total f (m.insert k x) = f x + total f m := by
  rw [total, entries_insert_of_notMem (lookup_eq_none.1 h)]
  rfl

lemma length_insert_new (h : m.lookup k = none) (x : ν) :
    (m.insert k x).entries.length = m.entries.length + 1 := by
  rw [entries_insert_of_notMem (lookup_eq_none.1 h)]
  rfl

end Maps

end Sampling
