import StatsHouse.Sampling
import Mathlib.Algebra.Order.Floor.Div
import Mathlib.Data.Rat.Floor

/-!
# Counters and values of an item

Floating point numbers are rational numbers: rounding, infinities and NaN are not modelled.
The host kept beside a counter is drawn at random, so every operation that may change it
takes the random source and returns what is left of it.

The totals of an item are what the host choices do not touch. Each operation adds to them.
-/

open Sampling Totals

structure TagUnion where
  s : List UInt8 := []
  i : BitVec 32 := 0
deriving DecidableEq

namespace TagUnion

def normalize (t : TagUnion) : TagUnion := if t.i ≠ 0 then { t with s := [] } else t

def empty (t : TagUnion) : Bool := t.i == 0 && t.s.length == 0

lemma empty_iff (t : TagUnion) : t.empty = true ↔ t = {} := by
  obtain ⟨s, i⟩ := t
  simp [empty, and_comm]

end TagUnion

structure ItemCounter where
  counter : ℚ := 0
  maxCounterHostTag : TagUnion := {}
deriving DecidableEq

namespace ItemCounter

def maxInt64 : Nat := 2 ^ 63 - 1

def clampHostDistribution (d : Nat) : Nat := max 1 (min d maxInt64)

def counterHostDistribution (count : ℚ) : Nat := clampHostDistribution ⌊count + 1 / 2⌋₊

/-- The common body of `addCounterHost` and `merge`. -/
def addHost (rng : Rng) (s : ItemCounter) (count : ℚ) (hostTag : TagUnion) : ItemCounter × Rng :=
  if count ≤ 0 then (s, rng)
  else if s.counter ≤ 0 then (⟨count, hostTag⟩, rng)
  else if s.maxCounterHostTag = hostTag then ({ s with counter := s.counter + count }, rng)
  else
    let weight := counterHostDistribution s.counter
    let otherWeight := counterHostDistribution count
    let (r, rng) := rng.uint64n (weight + otherWeight)
    let host := if r ≥ weight then hostTag else s.maxCounterHostTag
    (⟨s.counter + count, host⟩, rng)

def addCounterHost (rng : Rng) (s : ItemCounter) (count : ℚ) (hostTag : TagUnion) :
    ItemCounter × Rng := addHost rng s count hostTag

def merge (rng : Rng) (s other : ItemCounter) : ItemCounter × Rng :=
  addHost rng s other.counter other.maxCounterHostTag

lemma addHost_counter (rng : Rng) (s : ItemCounter) (hs : 0 ≤ s.counter) (count : ℚ)
    (hc : 0 ≤ count) (hostTag : TagUnion) :
    (addHost rng s count hostTag).1.counter = s.counter + count := by
  rw [addHost]
  split
  · rename_i h
    have : count = 0 := le_antisymm h hc
    simp [this]
  · split
    · rename_i h
      have : s.counter = 0 := le_antisymm h hs
      simp [this]
    · split <;> rfl

end ItemCounter

structure ItemValue extends ItemCounter where
  valueMin : ℚ := 0
  valueMax : ℚ := 0
  valueSum : ℚ := 0
  valueSumSquare : ℚ := 0
  minHostTag : TagUnion := {}
  maxHostTag : TagUnion := {}
  valueSet : Bool := false
deriving DecidableEq

namespace ItemValue

variable {s : ItemValue} (rng : Rng)

def simpleItemCounter (count : ℚ) (hostTag : TagUnion) : ItemValue :=
  { counter := count, maxCounterHostTag := hostTag }

def addCounterHost (rng : Rng) (s : ItemValue) (count : ℚ) (hostTag : TagUnion) : ItemValue × Rng :=
  let (c, rng) := s.toItemCounter.addCounterHost rng count hostTag
  ({ s with toItemCounter := c }, rng)

def addOnlyValue (s : ItemValue) (value count : ℚ) (hostTag : TagUnion) : ItemValue := { s with
    valueSum := s.valueSum + value * count
    valueSumSquare := s.valueSumSquare + value * value * count
    valueMin := if s.valueSet = false ∨ value < s.valueMin then value else s.valueMin
    minHostTag := if s.valueSet = false ∨ value < s.valueMin then hostTag else s.minHostTag
    valueMax := if s.valueSet = false ∨ value > s.valueMax then value else s.valueMax
    maxHostTag := if s.valueSet = false ∨ value > s.valueMax then hostTag else s.maxHostTag
    valueSet := true }

def addValueCounterHost (rng : Rng) (s : ItemValue) (value count : ℚ) (hostTag : TagUnion) :
    ItemValue × Rng :=
  let (s, rng) := s.addCounterHost rng count hostTag
  (s.addOnlyValue value count hostTag, rng)

def merge (rng : Rng) (s s2 : ItemValue) : ItemValue × Rng :=
  let (c, rng) := s.toItemCounter.merge rng s2.toItemCounter
  let s := { s with toItemCounter := c }
  if s2.valueSet = false then (s, rng)
  else
    ({ s with
      valueSum := s.valueSum + s2.valueSum
      valueSumSquare := s.valueSumSquare + s2.valueSumSquare
      valueMin := if s.valueSet = false ∨ s2.valueMin < s.valueMin then s2.valueMin else s.valueMin
      minHostTag :=
        if s.valueSet = false ∨ s2.valueMin < s.valueMin then s2.minHostTag else s.minHostTag
      valueMax := if s.valueSet = false ∨ s2.valueMax > s.valueMax then s2.valueMax else s.valueMax
      maxHostTag :=
        if s.valueSet = false ∨ s2.valueMax > s.valueMax then s2.maxHostTag else s.maxHostTag
      valueSet := true }, rng)

def addOnlyValues (s : ItemValue) (samples : List (ℚ × ℚ)) (hostTag : TagUnion) : ItemValue :=
  samples.foldl (fun s x => s.addOnlyValue x.1 x.2 hostTag) s

/-- The sums of the samples, brought from the weight `totalCount` to the weight `count`. -/
def rescale (s : ItemValue) (count totalCount : ℚ) : ItemValue :=
  if count ≠ totalCount then
    let s := { s with
      valueSum := s.valueSum * count
      valueSumSquare := s.valueSumSquare * count }
    if totalCount ≠ 1 then
      { s with
        valueSum := s.valueSum / totalCount
        valueSumSquare := s.valueSumSquare / totalCount }
    else s
  else s

/-- What the item knows of its samples. -/
def totals (v : ItemValue) : Totals where
  count := v.counter
  sum := v.valueSum
  sumSquare := v.valueSumSquare
  min := if v.valueSet then v.valueMin else ⊤
  max := if v.valueSet then v.valueMax else ⊥

structure Sane (v : ItemValue) : Prop where
  counter_nonneg : 0 ≤ v.counter
  unset : v.valueSet = false → v.valueSum = 0 ∧ v.valueSumSquare = 0

lemma sane_zero : Sane {} := ⟨le_refl _, fun _ => ⟨rfl, rfl⟩⟩

lemma totals_zero : totals {} = 0 := rfl

lemma addCounterHost_totals (sane : Sane s) {count : ℚ} (hc : 0 ≤ count) (hostTag : TagUnion) :
    (s.addCounterHost rng count hostTag).1.totals = s.totals + weight count := by
  have h := ItemCounter.addHost_counter rng s.toItemCounter sane.counter_nonneg count hc hostTag
  ext
  · exact h
  · exact (add_zero _).symm
  · exact (add_zero _).symm
  · exact (inf_top_eq _).symm
  · exact (sup_bot_eq _).symm

lemma addCounterHost_sane (sane : Sane s) {count : ℚ} (hc : 0 ≤ count) (hostTag : TagUnion) :
    Sane (s.addCounterHost rng count hostTag).1 := by
  constructor
  · change 0 ≤ (s.toItemCounter.addHost rng count hostTag).1.counter
    rw [ItemCounter.addHost_counter rng _ sane.counter_nonneg count hc]
    exact add_nonneg sane.counter_nonneg hc
  · exact sane.unset

lemma coe_min_choice (b : Bool) (x y : ℚ) : ((if b = false ∨ x < y then x else y : ℚ) : WithTop ℚ) =
      (if b then (y : WithTop ℚ) else ⊤) ⊓ (x : WithTop ℚ) := by
  cases b with
  | false => simp
  | true =>
    rcases lt_or_ge x y with h | h
    · simp [h, h.le]
    · simp [h]

lemma coe_max_choice (b : Bool) (x y : ℚ) : ((if b = false ∨ x > y then x else y : ℚ) : WithBot ℚ) =
      (if b then (y : WithBot ℚ) else ⊥) ⊔ (x : WithBot ℚ) := by
  cases b with
  | false => simp
  | true =>
    rcases lt_or_ge y x with h | h
    · simp [h, h.le]
    · simp [h]

lemma addOnlyValue_totals (s : ItemValue) (value count : ℚ) (hostTag : TagUnion) :
    (s.addOnlyValue value count hostTag).totals = s.totals + spot value count := by
  ext
  · simp [addOnlyValue, totals, spot]
  · rfl
  · rfl
  · exact coe_min_choice s.valueSet value s.valueMin
  · exact coe_max_choice s.valueSet value s.valueMax

lemma addOnlyValue_sane (hs : 0 ≤ s.counter) (value count : ℚ) (hostTag : TagUnion) :
    Sane (s.addOnlyValue value count hostTag) :=
  ⟨hs, fun h => Bool.noConfusion h⟩

lemma addOnlyValues_totals (s : ItemValue) (samples : List (ℚ × ℚ)) (hostTag : TagUnion) :
    (s.addOnlyValues samples hostTag).totals = s.totals + spots samples := by
  induction samples generalizing s with
  | nil => exact (add_zero _).symm
  | cons x samples ih =>
    have h := ih (s.addOnlyValue x.1 x.2 hostTag)
    rw [addOnlyValue_totals, add_assoc, ← spots_cons] at h
    exact h

lemma addOnlyValues_sane (sane : Sane s) (samples : List (ℚ × ℚ)) (hostTag : TagUnion) :
    Sane (s.addOnlyValues samples hostTag) := by
  induction samples generalizing s with
  | nil => exact sane
  | cons x samples ih => exact ih (addOnlyValue_sane sane.counter_nonneg x.1 x.2 hostTag)

lemma rescale_totals (s : ItemValue) (count totalCount : ℚ) (ht : 0 < totalCount) :
    (s.rescale count totalCount).totals = s.totals.scale (count / totalCount) := by
  have hne := ne_of_gt ht
  by_cases hc : count = totalCount
  · simp [rescale, hc, div_self hne, scale_one]
  · by_cases h1 : totalCount = 1
    · subst h1
      simp [rescale, hc, totals, scale]
    · simp [rescale, hc, h1, totals, scale, mul_div_assoc]

lemma rescale_sane (sane : Sane s) (count totalCount : ℚ) : Sane (s.rescale count totalCount) := by
  rw [rescale]
  split
  · dsimp only
    split <;> constructor
    · exact sane.counter_nonneg
    · intro h
      simp [sane.unset h]
    · exact sane.counter_nonneg
    · intro h
      simp [sane.unset h]
  · exact sane

lemma merge_totals {s2 : ItemValue} (sane : Sane s) (sane2 : Sane s2) :
    (s.merge rng s2).1.totals = s.totals + s2.totals := by
  have hc : (s.toItemCounter.merge rng s2.toItemCounter).1.counter = s.counter + s2.counter :=
    ItemCounter.addHost_counter rng s.toItemCounter sane.counter_nonneg
      s2.counter sane2.counter_nonneg s2.maxCounterHostTag
  cases hs : s2.valueSet with
  | false =>
    obtain ⟨hm, hq⟩ := sane2.unset hs
    ext
    · simpa [merge, hs, totals] using hc
    all_goals simp [merge, hs, totals, hm, hq]
  | true =>
    ext
    · simpa [merge, hs, totals] using hc
    · simp [merge, hs, totals]
    · simp [merge, hs, totals]
    · simpa [merge, hs, totals] using coe_min_choice s.valueSet s2.valueMin s.valueMin
    · simpa [merge, hs, totals] using coe_max_choice s.valueSet s2.valueMax s.valueMax

lemma merge_sane {s2 : ItemValue} (sane : Sane s) (sane2 : Sane s2) : Sane (s.merge rng s2).1 := by
  constructor
  · have h : (s.merge rng s2).1.counter = s.counter + s2.counter :=
      congrArg count (merge_totals rng sane sane2)
    rw [h]
    exact add_nonneg sane.counter_nonneg sane2.counter_nonneg
  · cases hs : s2.valueSet with
    | false => simpa [merge, hs] using sane.unset
    | true => simp [merge, hs]

/-- The extremes after samples between `lo` and `hi` were added. -/
lemma extremes_of_add {v v' : ItemValue} {t : Totals} (h : v'.totals = v.totals + t) {lo hi : ℚ}
    (hlo : t.min = lo) (hhi : t.max = hi) :
    v'.valueSet = true ∧ v'.valueMin = (if v.valueSet then min v.valueMin lo else lo) ∧
      v'.valueMax = (if v.valueSet then max v.valueMax hi else hi) := by
  have hm := congrArg min h
  have hx := congrArg max h
  rw [add_min, hlo] at hm
  rw [add_max, hhi] at hx
  simp only [totals] at hm hx
  cases hs : v.valueSet <;> cases hst' : v'.valueSet <;>
    simp only [hs, hst', if_true]
      at hm hx ⊢
  · cases hm
  · exact ⟨trivial, WithTop.coe_injective hm, WithBot.coe_injective hx⟩
  · rw [← WithTop.coe_min] at hm
    cases hm
  · rw [← WithTop.coe_min] at hm
    exact ⟨trivial, WithTop.coe_injective hm, WithBot.coe_injective hx⟩

end ItemValue
