import Mathlib.Order.Lattice.Nat

/-!
# Thinning a finite set down to a size limit

Every element is on level zero and level `k + 1` is contained in level `k`. A set
that outgrows the cap is thinned to the least level on which it fits. Filtered
insertion (`offer`) keeps only elements of the current level, so its result is a
function of the offered set. Unfiltered insertion (`add`) is not: an element below
the current level may stay, or may push the level higher than needed.
-/

namespace Thinning

open Finset Nat
universe u
variable {k lo cap j : ℕ}

structure Levels (α : Type u) where
  On : ℕ → α → Prop
  dec : ∀ k, DecidablePred (On k)
  zero : ∀ x, On 0 x
  anti : ∀ k x, On (k + 1) x → On k x

instance {α : Type u} (L : Levels α) (k : ℕ) : DecidablePred (L.On k) := L.dec k

section

variable {α : Type u} (L : Levels α) {S : Finset α} {x : α} {j : ℕ}

lemma Levels.on_of_le (h : j ≤ k) (hx : L.On k x) : L.On j x := by
  induction h with
  | refl => exact hx
  | step _ ih => exact ih (L.anti _ x hx)

def thin (k : ℕ) (S : Finset α) : Finset α := S.filter (L.On k)

@[simp]
lemma mem_thin : x ∈ thin L k S ↔ x ∈ S ∧ L.On k x := by
  simp [thin]

lemma thin_zero (S : Finset α) : thin L 0 S = S := by
  ext x
  simp [L.zero x]

lemma thin_subset (k : ℕ) (S : Finset α) : thin L k S ⊆ S := filter_subset _ _

lemma thin_mono {T : Finset α} (h : S ⊆ T) : thin L k S ⊆ thin L k T := by
  intro x hx
  rw [mem_thin] at hx ⊢
  exact ⟨h hx.1, hx.2⟩

lemma thin_anti (h : j ≤ k) (S : Finset α) : thin L k S ⊆ thin L j S := by
  intro x hx
  rw [mem_thin] at hx ⊢
  exact ⟨hx.1, L.on_of_le h hx.2⟩

lemma thin_thin_of_le (h : j ≤ k) (S : Finset α) : thin L k (thin L j S) = thin L k S := by
  ext x
  simp only [mem_thin]
  exact ⟨fun hx => ⟨hx.1.1, hx.2⟩, fun hx => ⟨⟨hx.1, L.on_of_le h hx.2⟩, hx.2⟩⟩

lemma thin_eq_self (h : ∀ x ∈ S, L.On k x) : thin L k S = S := filter_true_of_mem h

lemma thin_union [DecidableEq α] (k : ℕ) (S T : Finset α) :
    thin L k (S ∪ T) = thin L k S ∪ thin L k T := filter_union _ _ _

lemma thin_insert_of_on [DecidableEq α] (hx : L.On k x) (S : Finset α) :
    thin L k (insert x S) = insert x (thin L k S) := by
  rw [thin, filter_insert, if_pos hx, thin]

lemma thin_insert_of_not_on [DecidableEq α] (hx : ¬ L.On k x) (S : Finset α) :
    thin L k (insert x S) = thin L k S := by
  rw [thin, filter_insert, if_neg hx, thin]

lemma card_thin_anti (h : j ≤ k) (S : Finset α) :
    (thin L k S).card ≤ (thin L j S).card := card_le_card (thin_anti L h S)

/-- The least level from `lo` on whose part of `S` fits. -/
def LeastFrom (cap lo : ℕ) (S : Finset α) (k : ℕ) : Prop :=
  lo ≤ k ∧ (thin L k S).card ≤ cap ∧ ∀ j, lo ≤ j → j < k → cap < (thin L j S).card

noncomputable def least (cap lo : ℕ) (S : Finset α) : ℕ :=
  sInf {k | lo ≤ k ∧ (thin L k S).card ≤ cap}

variable {L}

lemma LeastFrom.unique {k' : ℕ} (h : LeastFrom L cap lo S k) (h' : LeastFrom L cap lo S k') :
    k = k' := by
  obtain ⟨hlo, hf, hm⟩ := h
  obtain ⟨hlo', hft', hmn'⟩ := h'
  rcases lt_trichotomy k k' with hlt | heq | hgt
  · have := hmn' k hlo hlt
    omega
  · exact heq
  · have := hm k' hlo' hgt
    omega

/-- A level at which everything below overflows may be counted from any lower bound. -/
lemma LeastFrom.extend {lo' : ℕ} (h : LeastFrom L cap lo S k)
    (below : ∀ j, lo' ≤ j → j < lo → cap < (thin L j S).card) (hle : lo' ≤ k) :
    LeastFrom L cap lo' S k := by
  refine ⟨hle, h.2.1, fun j hj hk => ?_⟩
  rcases lt_or_ge j lo with hlt | hge
  · exact below j hj hlt
  · exact h.2.2 j hge hk

/-- From level `k` on, a set and its part at level `k` have the same parts. -/
lemma LeastFrom.of_thin {n : ℕ} (hk : k ≤ lo) (h : LeastFrom L cap lo (thin L k S) n) :
    LeastFrom L cap lo S n := by
  obtain ⟨hlo, hf, hm⟩ := h
  refine ⟨hlo, ?_, ?_⟩
  · rwa [thin_thin_of_le L (hk.trans hlo)] at hf
  · intro j hj hlt
    have := hm j hj hlt
    rwa [thin_thin_of_le L (hk.trans hj)] at this

lemma LeastFrom.eq_least (h : LeastFrom L cap lo S k) : k = least L cap lo S := by
  have hm : k ∈ {k | lo ≤ k ∧ (thin L k S).card ≤ cap} := ⟨h.1, h.2.1⟩
  apply le_antisymm
  · obtain ⟨hlo, hf⟩ := sInf_mem ⟨k, hm⟩
    by_contra hlt
    have : cap < (thin L (least L cap lo S) S).card := h.2.2 _ hlo (by omega)
    exact absurd hf (by simpa [least] using this)
  · exact Nat.sInf_le hm

end

/-- A thinned set: its current level and the elements it holds. -/
@[ext]
structure State (α : Type u) where
  degree : ℕ
  elems : Finset α

section

variable {α : Type u} (L : Levels α) (cap : ℕ) {S : Finset α} {xs : List α}
  {s : State α} {T : Finset α}

/-- Thin to the least higher level that fits, if the set has outgrown the cap. -/
noncomputable def settle (s : State α) : State α :=
  if s.elems.card ≤ cap then s
  else ⟨least L cap (s.degree + 1) s.elems, thin L (least L cap (s.degree + 1) s.elems) s.elems⟩

/-- The state holds exactly the part of `S` on the least level, from `lo` on, that fits. -/
def Settled (lo : ℕ) (S : Finset α) (s : State α) : Prop :=
  LeastFrom L cap lo S s.degree ∧ s.elems = thin L s.degree S

variable {L cap}

lemma Settled.unique {s' : State α} (h : Settled L cap lo S s) (h' : Settled L cap lo S s') :
    s = s' := by
  have hd := h.1.unique h'.1
  ext x
  · rw [hd]
  · rw [h.2, h'.2, hd]

lemma Settled.card_le (h : Settled L cap lo S s) : s.elems.card ≤ cap := by
  rw [h.2]
  exact h.1.2.1

lemma settle_of_le (h : s.elems.card ≤ cap) : settle L cap s = s := if_pos h

/-- The loop that raises the level one by one computes `settle`. -/
lemma settle_of_gt (h : cap < s.elems.card) (hk : LeastFrom L cap (s.degree + 1) s.elems k) :
    settle L cap s = ⟨k, thin L k s.elems⟩ := by
  rw [settle, if_neg (by omega), ← hk.eq_least]

variable (L) in
/-- Move up to level `k` before taking elements from a set of that level. -/
def raise (k : ℕ) (s : State α) : State α :=
  if s.degree < k then ⟨k, thin L k s.elems⟩ else s

lemma raise_degree (k : ℕ) (s : State α) : (raise L k s).degree = max s.degree k := by
  by_cases h : s.degree < k
  · simp only [raise, if_pos h]
    omega
  · simp only [raise, if_neg h]
    omega

lemma thin_raise (s : State α) (h : k ≤ j) : thin L j (raise L k s).elems = thin L j s.elems := by
  by_cases hlt : s.degree < k
  · simp only [raise, if_pos hlt]
    exact thin_thin_of_le L h s.elems
  · simp only [raise, if_neg hlt]

lemma raise_on (on : ∀ x ∈ s.elems, L.On s.degree x) :
    ∀ x ∈ (raise L k s).elems, L.On (raise L k s).degree x := by
  by_cases hlt : s.degree < k
  · simp only [raise, if_pos hlt, mem_thin]
    exact fun x hx => hx.2
  · simpa only [raise, if_neg hlt] using on

lemma raise_card_le (fits : s.elems.card ≤ cap) : (raise L k s).elems.card ≤ cap := by
  by_cases hlt : s.degree < k
  · simp only [raise, if_pos hlt]
    exact le_trans (card_le_card (thin_subset L k s.elems)) fits
  · simpa only [raise, if_neg hlt] using fits

lemma Settled.on (h : Settled L cap lo S s) : ∀ x ∈ s.elems, L.On s.degree x := by
  intro x hx
  rw [h.2] at hx
  exact ((mem_thin L).1 hx).2

lemma Settled.of_card_le (h : Settled L cap 0 S s) (fits : S.card ≤ cap) :
    s.degree = 0 ∧ s.elems = S := by
  have hd : s.degree = 0 := by
    by_contra hne
    have ho := h.1.2.2 0 (le_refl 0) (Nat.pos_of_ne_zero hne)
    rw [thin_zero] at ho
    omega
  refine ⟨hd, ?_⟩
  rw [h.2, hd, thin_zero]

lemma Settled.degree_pos (h : Settled L cap 0 S s) (excess : cap < S.card) : 0 < s.degree := by
  by_contra hne
  have hf := h.1.2.1
  rw [Nat.eq_zero_of_not_pos hne, thin_zero] at hf
  omega

/-- When the least level from `lo` is also the least one from a higher bound `k`. -/
lemma Settled.shift_iff (h : Settled L cap lo S s) :
    Settled L cap (max lo k) S s ↔ k ≤ lo ∨ cap < (thin L (k - 1) S).card := by
  constructor
  · intro hs
    by_contra hn
    obtain ⟨hlt, hf⟩ := not_or.1 hn
    have hhi := le_trans (le_max_right lo k) hs.1.1
    have := h.1.2.2 (k - 1) (by omega) (by omega)
    omega
  · rintro (hle | ho)
    · rwa [max_eq_left hle]
    · have hhi : k ≤ s.degree := by
        by_contra hlt
        have ha := card_thin_anti L (show s.degree ≤ k - 1 by omega) S
        have hf := h.1.2.1
        omega
      exact ⟨⟨max_le h.1.1 hhi, h.1.2.1, fun j hj hlt =>
        h.1.2.2 j (le_trans (le_max_left lo k) hj) hlt⟩, h.2⟩

section Bounded

variable {top : ℕ} (small : ∀ S : Finset α, (thin L top S).card ≤ cap)

include small

lemma least_spec (lo : ℕ) (S : Finset α) : LeastFrom L cap lo S (least L cap lo S) := by
  have hne : {k | lo ≤ k ∧ (thin L k S).card ≤ cap}.Nonempty := by
    refine ⟨max lo top, le_max_left _ _, ?_⟩
    exact le_trans (card_thin_anti L (le_max_right lo top) S) (small S)
  obtain ⟨hlo, hf⟩ := sInf_mem hne
  refine ⟨hlo, hf, fun j hj hlt => ?_⟩
  have hn := notMem_of_lt_sInf hlt
  simp only [Set.mem_ofPred_eq, not_and, not_le] at hn
  exact hn hj

/-- Settling a set whose lower levels all overflow reaches its least fitting level. -/
lemma settle_settled (hlo : lo ≤ k) (below : ∀ j, lo ≤ j → j < k → cap < (thin L j S).card)
    (hT : T = thin L k S) : Settled L cap lo S (settle L cap ⟨k, T⟩) := by
  subst hT
  by_cases hf : (thin L k S).card ≤ cap
  · rw [settle_of_le hf]
    exact ⟨⟨hlo, hf, below⟩, rfl⟩
  · have hl := least_spec small (k + 1) (thin L k S)
    rw [settle_of_gt (by simpa using hf) hl]
    have hu : k ≤ least L cap (k + 1) (thin L k S) := (le_succ k).trans hl.1
    refine ⟨(hl.of_thin (le_succ k)).extend ?_ (hlo.trans hu), thin_thin_of_le L hu S⟩
    intro j hj hlt
    rcases Nat.lt_succ_iff_lt_or_eq.1 hlt with hlt | rfl
    · exact below j hj hlt
    · omega

variable (L cap) [DecidableEq α]

/-- Unfiltered insertion. -/
noncomputable def add (s : State α) (x : α) : State α := settle L cap ⟨s.degree, insert x s.elems⟩

/-- Insertion of an element that must be on the current level. -/
noncomputable def offer (s : State α) (x : α) : State α :=
  if L.On s.degree x then add L cap s x else s

noncomputable def pour (s : State α) (xs : List α) : State α := xs.foldl (add L cap) s

noncomputable def offerAll (s : State α) (xs : List α) : State α := xs.foldl (offer L cap) s

variable {L cap}

/-- Filtered insertion keeps the state a function of everything offered so far. -/
theorem offer_settled (h : Settled L cap lo S s) (x : α) :
    Settled L cap lo (insert x S) (offer L cap s x) := by
  have below : ∀ j, lo ≤ j → j < s.degree → cap < (thin L j (insert x S)).card := by
    intro j hj hlt
    have hold := h.1.2.2 j hj hlt
    have hb := card_le_card (thin_mono L (k := j) (subset_insert x S))
    omega
  unfold offer
  split
  · rename_i ho
    apply settle_settled small h.1.1 below
    rw [thin_insert_of_on L ho, ← h.2]
  · rename_i hf
    have hs := thin_insert_of_not_on L hf S
    refine ⟨⟨h.1.1, ?_, below⟩, by rw [hs]; exact h.2⟩
    rw [hs]
    exact h.1.2.1

theorem offerAll_settled (h : Settled L cap lo S s) (xs : List α) :
    Settled L cap lo (S ∪ xs.toFinset) (offerAll L cap s xs) := by
  induction xs generalizing S s with
  | nil => simpa [offerAll] using h
  | cons x xs ih =>
    have hx := ih (offer_settled small h x)
    have hs : insert x S ∪ xs.toFinset = S ∪ (x :: xs).toFinset := by
      simp [insert_union, union_insert]
    rw [hs] at hx
    exact hx

/-- An unfiltered insertion either fits or raises the level to the next that fits. -/
lemma add_cases (s : State α) (x : α) :
    ((insert x s.elems).card ≤ cap ∧ add L cap s x = ⟨s.degree, insert x s.elems⟩) ∨
    (cap < (insert x s.elems).card ∧ ∃ k, LeastFrom L cap (s.degree + 1) (insert x s.elems) k ∧
      add L cap s x = ⟨k, thin L k (insert x s.elems)⟩) := by
  by_cases hf : (insert x s.elems).card ≤ cap
  · exact .inl ⟨hf, settle_of_le hf⟩
  · have hl := least_spec small (s.degree + 1) (insert x s.elems)
    exact .inr ⟨by omega, _, hl, settle_of_gt (by dsimp only; omega) hl⟩

lemma add_degree_le (s : State α) (x : α) : s.degree ≤ (add L cap s x).degree := by
  rcases add_cases small s x with ⟨_, heq⟩ | ⟨_, k, hk, heq⟩
  · rw [heq]
  · rw [heq]
    have := hk.1
    dsimp only
    omega

lemma add_card_le (s : State α) (x : α) : (add L cap s x).elems.card ≤ cap := by
  rcases add_cases small s x with ⟨hf, heq⟩ | ⟨_, k, hk, heq⟩
  · rw [heq]
    exact hf
  · rw [heq]
    exact hk.2.1

lemma thin_add (s : State α) (x : α) (hj : (add L cap s x).degree ≤ j) :
    thin L j (add L cap s x).elems = thin L j (insert x s.elems) := by
  rcases add_cases small s x with ⟨_, heq⟩ | ⟨_, k, _, heq⟩
  · rw [heq]
  · rw [heq] at hj ⊢
    exact thin_thin_of_le L hj _

lemma insert_subset_add {x : α} (h : (add L cap s x).degree = s.degree) :
    insert x s.elems ⊆ (add L cap s x).elems := by
  rcases add_cases small s x with ⟨_, heq⟩ | ⟨_, k, hk, heq⟩
  · rw [heq]
  · rw [heq] at h
    have := hk.1
    dsimp only at h
    omega

lemma pour_degree_le (s : State α) (xs : List α) : s.degree ≤ (pour L cap s xs).degree := by
  induction xs generalizing s with
  | nil => exact le_refl _
  | cons x xs ih => exact le_trans (add_degree_le small s x) (ih (add L cap s x))

lemma pour_card_le (h : s.elems.card ≤ cap) (xs : List α) : (pour L cap s xs).elems.card ≤ cap := by
  induction xs generalizing s with
  | nil => exact h
  | cons x xs ih => exact ih (add_card_le small s x)

/-- Above the level reached, nothing has been lost. -/
lemma thin_pour (s : State α) (xs : List α) (hj : (pour L cap s xs).degree ≤ j) :
    thin L j (pour L cap s xs).elems = thin L j (s.elems ∪ xs.toFinset) := by
  induction xs generalizing s with
  | nil => simp [pour]
  | cons x xs ih =>
    have hr := ih (add L cap s x) hj
    have hl := le_trans (pour_degree_le small _ xs) hj
    change thin L j (pour L cap (add L cap s x) xs).elems = _
    rw [hr, thin_union, thin_add small s x hl, ← thin_union]
    simp [insert_union, union_insert]

/-- While the level does not move, nothing is removed. -/
lemma pour_keeps (h : (pour L cap s xs).degree = s.degree) : s.elems ⊆ (pour L cap s xs).elems := by
  induction xs generalizing s with
  | nil => exact fun _ hx => hx
  | cons x xs ih =>
    change (pour L cap (add L cap s x) xs).degree = s.degree at h
    have hl := add_degree_le small s x
    have hhi := pour_degree_le small (add L cap s x) xs
    have had := insert_subset_add small (s := s) (x := x) (by omega)
    have hr := ih (s := add L cap s x) (by omega)
    exact fun y hy => hr (had (mem_insert_of_mem hy))

omit small in
lemma pour_append (s : State α) (xs ys : List α) :
    pour L cap s (xs ++ ys) = pour L cap (pour L cap s xs) ys := List.foldl_append

variable (L cap) in
/-- Every element below level `k` comes while the elements before it have not yet
pushed the level up to `k`. -/
def Timely (s : State α) (k : ℕ) (xs : List α) : Prop :=
  ∀ front x back, xs = front ++ x :: back → ¬ L.On k x → (pour L cap s front).degree < k

/-- Along a timely list the level never passes its target, and when it reaches it the
state is exactly the thinned union. The induction takes the list from its end. -/
lemma pour_timely (on : ∀ x ∈ s.elems, L.On s.degree x)
    (hk : LeastFrom L cap s.degree (s.elems ∪ xs.toFinset) k) (timely : Timely L cap s k xs)
    (front back : List α) (joined : xs = front ++ back) :
    (pour L cap s front).degree ≤ k ∧ ((pour L cap s front).degree = k →
      (pour L cap s front).elems = thin L k (s.elems ∪ front.toFinset)) := by
  induction front using List.reverseRecOn generalizing back with
  | nil =>
    refine ⟨hk.1, fun hd => ?_⟩
    have : thin L k s.elems = s.elems := thin_eq_self L (hd ▸ on)
    simpa [pour] using this.symm
  | append_singleton front x ih =>
    obtain ⟨hle, hexact⟩ := ih (x :: back) (by simpa using joined)
    have hs : s.elems ∪ (front ++ [x]).toFinset ⊆ s.elems ∪ xs.toFinset := by
      rw [joined]
      intro y hy
      simp only [mem_union, List.mem_toFinset, List.mem_append] at hy ⊢
      tauto
    have hc := le_trans (card_le_card (thin_mono L hs)) hk.2.1
    have ha : insert x (s.elems ∪ front.toFinset) = s.elems ∪ (front ++ [x]).toFinset := by
      ext y
      simp only [mem_insert, mem_union, List.mem_toFinset, List.mem_append, List.mem_singleton]
      tauto
    have ht : thin L k (insert x (pour L cap s front).elems) =
        thin L k (s.elems ∪ (front ++ [x]).toFinset) := by
      have hold := thin_pour small s front hle
      rw [← ha, insert_eq, insert_eq, thin_union, thin_union, hold]
    rw [pour_append]
    change (add L cap (pour L cap s front) x).degree ≤ k ∧ _
    have hexact' : (pour L cap s front).degree = k → insert x (pour L cap s front).elems =
        thin L k (s.elems ∪ (front ++ [x]).toFinset) := by
      intro hd
      have hn : L.On k x := by
        by_contra hf
        have := timely front x back (by simpa using joined) hf
        omega
      rw [← ht, thin_insert_of_on L hn, hexact hd, thin_thin_of_le L (le_refl k)]
    rcases add_cases small (pour L cap s front) x with ⟨_, heq⟩ | ⟨ho, k', hk', heq⟩
    · refine ⟨by rw [heq]; exact hle, ?_⟩
      change (add L cap (pour L cap s front) x).degree = k →
        (add L cap (pour L cap s front) x).elems = _
      rw [heq]
      exact hexact'
    · have hlt : (pour L cap s front).degree < k := by
        by_contra hb
        rw [hexact' (by omega)] at ho
        omega
      have hk'le : k' ≤ k := by
        by_contra hb
        have := hk'.2.2 k hlt (by omega)
        rw [ht] at this
        omega
      refine ⟨by rw [heq]; exact hk'le, ?_⟩
      change (add L cap (pour L cap s front) x).degree = k →
        (add L cap (pour L cap s front) x).elems = _
      rw [heq]
      intro hd
      change k' = k at hd
      rw [← ht, hd]

/-- Unfiltered insertion of a list gives the thinned union exactly for timely lists. -/
theorem pour_settled_iff (fits : s.elems.card ≤ cap) (on : ∀ x ∈ s.elems, L.On s.degree x)
    (hk : LeastFrom L cap s.degree (s.elems ∪ xs.toFinset) k) :
    Settled L cap s.degree (s.elems ∪ xs.toFinset) (pour L cap s xs) ↔ Timely L cap s k xs := by
  constructor
  · rintro ⟨ha, he⟩ front x back hx hf
    by_contra ht
    have hd := ha.unique hk
    have hxs' : xs = (front ++ [x]) ++ back := by simpa using hx
    have had := add_degree_le small (pour L cap s front) x
    have hl := pour_degree_le small (pour L cap s (front ++ [x])) back
    rw [← pour_append, ← hxs', hd] at hl
    have hs : pour L cap s (front ++ [x]) = add L cap (pour L cap s front) x := by
      rw [pour_append]
      rfl
    rw [hs] at hl
    have hn : (pour L cap (pour L cap s (front ++ [x])) back).degree =
        (pour L cap s (front ++ [x])).degree := by
      rw [← pour_append, ← hxs', hd, hs]
      omega
    have hp := pour_keeps small hn
    have hin := insert_subset_add small (s := pour L cap s front) (x := x) (by omega)
    rw [← pour_append, ← hxs', hs] at hp
    have hm := hp (hin (mem_insert_self _ _))
    rw [he, mem_thin, hd] at hm
    exact hf hm.2
  · intro timely
    obtain ⟨hle, hexact⟩ := pour_timely small on hk timely xs [] (by simp)
    have hd : (pour L cap s xs).degree = k := by
      by_contra hne
      have ho := hk.2.2 (pour L cap s xs).degree (pour_degree_le small s xs) (by omega)
      rw [← thin_pour small s xs le_rfl] at ho
      have hb := card_le_card (thin_subset L (pour L cap s xs).degree (pour L cap s xs).elems)
      have hc := pour_card_le small fits xs
      omega
    refine ⟨hd.symm ▸ hk, ?_⟩
    rw [hd]
    exact hexact hd

end Bounded

/-- Two settled sets hold enough to find the settled union of what was offered to both. -/
theorem union_settled_iff [DecidableEq α] {a b : State α} (ha : Settled L cap 0 S a)
    (hb : Settled L cap 0 T b) :
    Settled L cap (raise L b.degree a).degree ((raise L b.degree a).elems ∪ b.elems) s ↔
      Settled L cap 0 (S ∪ T) s := by
  rw [raise_degree]
  have above : ∀ j, max a.degree b.degree ≤ j →
      thin L j ((raise L b.degree a).elems ∪ b.elems) = thin L j (S ∪ T) := by
    intro j hj
    have hd := le_trans (le_max_left _ _) hj
    have hc := le_trans (le_max_right _ _) hj
    rw [thin_union, thin_raise a hc, ha.2, hb.2, thin_thin_of_le L hd, thin_thin_of_le L hc,
      ← thin_union]
  have below : ∀ j, 0 ≤ j → j < max a.degree b.degree → cap < (thin L j (S ∪ T)).card := by
    intro j hj hlt
    have hS := card_le_card (thin_mono L (k := j) (subset_union_left : S ⊆ S ∪ T))
    have hT := card_le_card (thin_mono L (k := j) (subset_union_right : T ⊆ S ∪ T))
    rcases lt_max_iff.1 hlt with hlt | hlt
    · exact lt_of_lt_of_le (ha.1.2.2 j hj hlt) hS
    · exact lt_of_lt_of_le (hb.1.2.2 j hj hlt) hT
  constructor
  · rintro ⟨⟨hlo, hf, hm⟩, he⟩
    refine ⟨⟨zero_le _, ?_, ?_⟩, ?_⟩
    · rw [← above _ hlo]
      exact hf
    · intro j hj hlt
      rcases lt_or_ge j (max a.degree b.degree) with hl | hhi
      · exact below j hj hl
      · rw [← above j hhi]
        exact hm j hhi hlt
    · rw [he, above _ hlo]
  · rintro ⟨⟨_, hf, hm⟩, he⟩
    have hlo : max a.degree b.degree ≤ s.degree := by
      by_contra hlt
      have := below s.degree (zero_le _) (by omega)
      omega
    refine ⟨⟨hlo, ?_, ?_⟩, ?_⟩
    · rw [above _ hlo]
      exact hf
    · intro j hj hlt
      rw [above j hj]
      exact hm j (zero_le _) hlt
    · rw [he, above _ hlo]

end
end Thinning
