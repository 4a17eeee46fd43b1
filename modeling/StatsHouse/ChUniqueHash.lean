import StatsHouse.ChUniqueSet
import Mathlib.Algebra.Order.BigOperators.Group.Finset

/-!
# The hash of an inserted value

`uintHash32` is built from odd multiplications and from steps that xor a word with its
own rotation. The first kind is injective. The second kind maps at most `2 ^ g` words to
one, where `g` is the period that the rotation allows. So the hash takes at least `2 ^ 28`
values, and sets of any size the table can meet are inserted by some list of values.
-/

namespace ChUniqueHash

open ChUniqueSet BitVec Finset Nat ChUnique

universe u v w

section Fibers

variable {α : Type u} {β : Type v} {γ : Type w} {f : α → β}

/-- At most `n` points are mapped to any one value. -/
def FibersLe (n : ℕ) (f : α → β) : Prop := ∀ (s : Finset α) (y : β), (∀ x ∈ s, f x = y) → s.card ≤ n

lemma fibersLe_of_code {n : ℕ} (code : α → ℕ) (bound : ∀ x, code x < n)
    (determines : ∀ x y, f x = f y → code x = code y → x = y) : FibersLe n f := by
  intro s y hs
  have hc : s.card ≤ (range n).card := by
    apply card_le_card_of_injOn code
    · intro x _
      simpa using bound x
    · intro x hx x' hx' he
      exact determines x x' ((hs x hx).trans (hs x' hx').symm) he
  simpa using hc

lemma fibersLe_of_leftInverse {g : β → α} (h : Function.LeftInverse g f) : FibersLe 1 f := by
  apply fibersLe_of_code (fun _ => 0) (fun _ => one_pos)
  intro x y hx _
  exact h.injective hx

variable [DecidableEq β]

lemma FibersLe.card_le_image {n : ℕ} (h : FibersLe n f) (s : Finset α) :
    s.card ≤ n * (s.image f).card := by
  apply card_le_mul_card_image
  intro y _
  apply h _ y
  intro x hx
  exact (mem_filter.1 hx).2

lemma FibersLe.comp {m n : ℕ} {g : β → γ} (hg : FibersLe n g) (hf : FibersLe m f) :
    FibersLe (m * n) (g ∘ f) := by
  intro s z hs
  have hi : (s.image f).card ≤ n := by
    apply hg _ z
    intro y hy
    obtain ⟨x, hx, rfl⟩ := mem_image.1 hy
    exact hs x hx
  exact le_trans (hf.card_le_image s) (mul_le_mul_left m hi)

end Fibers

/-- Rotation to the right, as the source writes it. -/
def rotate (r : ℕ) (x : BitVec 64) : BitVec 64 := (x >>> r) ||| (x <<< (64 - r))

def mix (r : ℕ) (x : BitVec 64) : BitVec 64 := x ^^^ rotate r x

lemma getLsbD_rotate {r i : ℕ} (hr : 0 < r) (hr' : r < 64) (hi : i < 64) (x : BitVec 64) :
    (rotate r x).getLsbD i = x.getLsbD ((i + r) % 64) := by
  simp only [rotate, getLsbD_or, getLsbD_shiftLeft, hi]
  rcases lt_or_ge (i + r) 64 with hlt | hge
  · have hl : i < 64 - r := by omega
    simp [mod_eq_of_lt hlt, hl, add_comm r i]
  · have hhi : ¬i < 64 - r := by omega
    have hm : (i + r) % 64 = i - (64 - r) := by omega
    have ho := getLsbD_of_ge x (r + i) (by omega)
    simp [hhi, hm, ho]

lemma rotate_xor (r : ℕ) (x y : BitVec 64) : rotate r (x ^^^ y) = rotate r x ^^^ rotate r y := by
  apply eq_of_getLsbD_eq
  intro i hi
  simp only [rotate]
  rcases lt_or_ge i (64 - r) with hl | hhi
  · simp [hl]
  · rcases lt_or_ge (r + i) 64 with hin | ho
    · omega
    · simp [getLsbD_of_ge x (r + i) ho, getLsbD_of_ge y (r + i) ho, hi, not_lt.2 hhi]

/-- A word that equals its rotation repeats itself after any multiple of it. -/
lemma getLsbD_of_rotate_eq {r : ℕ} (hr : 0 < r) (hr' : r < 64) {z : BitVec 64}
    (h : rotate r z = z) (t : ℕ) {i : ℕ} (hi : i < 64) :
    z.getLsbD ((i + r * t) % 64) = z.getLsbD i := by
  induction t with
  | zero => simp [mod_eq_of_lt hi]
  | succ t ih =>
    have hs := getLsbD_rotate hr hr' (Nat.mod_lt (i + r * t) (by decide)) z
    rw [h, ih] at hs
    rw [hs, mod_add_mod]
    congr 2
    ring

/-- With `r * u ≡ g` modulo 64, the low `g` bits determine such a word. -/
lemma eq_zero_of_rotate_eq {r u g : ℕ} (hr : 0 < r) (hr' : r < 64) (hg : 0 < g)
    (product : r * u % 64 = g) {z : BitVec 64} (h : rotate r z = z)
    (low : ∀ j < g, z.getLsbD j = false) : z = 0 := by
  apply eq_of_getLsbD_eq
  intro i hi
  have hba := getLsbD_of_rotate_eq hr hr' h (u * (i / g))
    (lt_of_le_of_lt (mod_le i g) hi)
  have ht : (i % g + r * (u * (i / g))) % 64 = i := by
    have hm : r * (u * (i / g)) % 64 = g * (i / g) % 64 := by
      rw [← mul_assoc, mul_mod, product, mul_mod_mod]
    rw [add_mod, hm, ← add_mod, mod_add_div, mod_eq_of_lt hi]
  rw [ht, low _ (Nat.mod_lt i hg)] at hba
  simp [hba]

lemma mix_fibersLe {r u g : ℕ} (hr : 0 < r) (hr' : r < 64) (hg : 0 < g)
    (product : r * u % 64 = g) : FibersLe (2 ^ g) (mix r) := by
  apply fibersLe_of_code (fun x => x.toNat % 2 ^ g) (fun x => Nat.mod_lt _ (Nat.two_pow_pos g))
  intro x y hm hc
  have ht : rotate r (x ^^^ y) = x ^^^ y := by
    rw [rotate_xor]
    apply eq_of_getLsbD_eq
    intro i _
    have hb := congrArg (fun w => getLsbD w i) hm
    simp only [mix] at hb ⊢
    cases hx : x.getLsbD i <;> cases hy : y.getLsbD i <;> simp_all
  have hz : x ^^^ y = 0 := by
    apply eq_zero_of_rotate_eq hr hr' hg product ht
    intro j hj
    have hb := congrArg (fun n => n.testBit j) hc
    simp only [testBit_mod_two_pow, hj, decide_true, Bool.true_and] at hb
    rw [getLsbD_xor, getLsbD, getLsbD, hb]
    exact Bool.xor_self _
  exact BitVec.xor_eq_zero_iff.1 hz

lemma start_fibersLe : FibersLe 1 (fun key : BitVec 64 => ~~~key + (key <<< 18)) := by
  apply fibersLe_of_leftInverse (g := fun w => (w + 1) * 18428729606480330751#64)
  intro key
  have hl : ~~~key + (key <<< 18) + 1 = key * 262143#64 := by
    rw [not_eq_neg_add, shiftLeft_eq_mul_twoPow]
    have ht : twoPow 64 18 = 262143#64 + 1 := by decide
    have ho : 1#64 = 1 := rfl
    rw [ht, ho]
    ring
  have ho : 262143#64 * 18428729606480330751#64 = 1 := by decide
  dsimp only
  rw [hl, mul_assoc, ho, mul_one]

lemma mul_fibersLe (c d : BitVec 64) (h : c * d = 1) :
    FibersLe 1 (fun key : BitVec 64 => key * c) := by
  apply fibersLe_of_leftInverse (g := fun w => w * d)
  intro key
  dsimp only
  rw [mul_assoc, h, mul_one]

lemma truncate_fibersLe : FibersLe (2 ^ 32) (fun key : BitVec 64 => key.setWidth 32) := by
  apply fibersLe_of_code (fun x => x.toNat / 2 ^ 32)
  · intro x
    omega
  · intro x y hl hhi
    have hlw' := congrArg BitVec.toNat hl
    simp only [toNat_setWidth] at hlw'
    apply eq_of_toNat_eq
    omega

lemma uintHash32_eq : uintHash32 =
    (fun key : BitVec 64 => key.setWidth 32) ∘ mix 22 ∘ (fun key => key * 65#64) ∘ mix 11 ∘
      (fun key => key * 21#64) ∘ mix 31 ∘ fun key : BitVec 64 => ~~~key + (key <<< 18) := by
  funext key
  have hs : ∀ k : BitVec 64, k + (k <<< 6) = k * 65#64 := by
    intro k
    have ht : twoPow 64 6 = 64#64 := by decide
    have hn : 65#64 = 64#64 + 1 := by decide
    rw [shiftLeft_eq_mul_twoPow, ht, hn]
    ring
  simp only [← hs]
  rfl

lemma uintHash32_fibersLe : FibersLe (2 ^ 36) uintHash32 := by
  have h1 := mix_fibersLe (r := 31) (u := 31) (by decide) (by decide) (by decide) rfl
  have h2 := mix_fibersLe (r := 11) (u := 35) (by decide) (by decide) (by decide) rfl
  have h3 := mix_fibersLe (r := 22) (u := 35) (by decide) (by decide) (by decide) rfl
  have h21 := mul_fibersLe 21#64 14933078535860113213#64 (by decide)
  have h65 := mul_fibersLe 65#64 1135184250689818561#64 (by decide)
  rw [uintHash32_eq]
  exact truncate_fibersLe.comp (h3.comp (h65.comp (h2.comp (h21.comp (h1.comp start_fibersLe)))))

/-- The hashes that some value has. -/
def hashImage : Finset Hash := (Finset.range (2 ^ 64)).image fun n => uintHash32 (BitVec.ofNat 64 n)

lemma hashImage_card : 2 ^ 28 ≤ hashImage.card := by
  let keys : Finset (BitVec 64) := (range (2 ^ 64)).image (BitVec.ofNat 64)
  have hk : keys.card = 2 ^ 64 := by
    rw [Finset.card_image_of_injOn, card_range]
    intro m hm n hn ha
    simp only [coe_range] at hm hn
    have ht := congrArg BitVec.toNat ha
    simpa only [toNat_ofNat, mod_eq_of_lt hm, mod_eq_of_lt hn] using ht
  have hi : keys.image uintHash32 = hashImage := by
    rw [image_image]
    rfl
  have hc := uintHash32_fibersLe.card_le_image keys
  rw [hk, hi] at hc
  omega

lemma uintHash32_mem (val : BitVec 64) : uintHash32 val ∈ hashImage := by
  refine mem_image.2 ⟨val.toNat, mem_range.2 val.isLt, ?_⟩
  rw [ofNat_toNat, setWidth_eq]

/-- The hashes of a list of inserted values. -/
def hashes (vals : List (BitVec 64)) : Finset Hash := (vals.map uintHash32).toFinset

/-- Every set of hashes of values is the hash set of some list of values. -/
lemma exists_vals {T : Finset Hash} (h : T ⊆ hashImage) : ∃ vals, hashes vals = T := by
  induction T using Finset.induction_on with
  | empty => exact ⟨[], rfl⟩
  | insert x T _ ih =>
    obtain ⟨vals, rfl⟩ := ih (fun y hy => h (mem_insert_of_mem hy))
    obtain ⟨n, -, rfl⟩ := mem_image.1 (h (mem_insert_self _ _))
    exact ⟨BitVec.ofNat 64 n :: vals, by simp [hashes]⟩

/-- There are values whose hashes form a set of the wanted size around given ones. -/
theorem exists_vals_card (given : List (BitVec 64)) {n : ℕ} (low : (hashes given).card ≤ n)
    (hhi : n ≤ 2 ^ 28) : ∃ vals, hashes given ⊆ hashes vals ∧ (hashes vals).card = n := by
  have hg : hashes given ⊆ hashImage := by
    intro x hx
    obtain ⟨val, -, rfl⟩ := List.mem_map.1 (List.mem_toFinset.1 hx)
    exact uintHash32_mem val
  obtain ⟨T, hs, hin, hc⟩ := exists_subsuperset_card_eq hg low (le_trans hhi hashImage_card)
  obtain ⟨vals, rfl⟩ := exists_vals hin
  exact ⟨vals, hs, hc⟩

end ChUniqueHash
