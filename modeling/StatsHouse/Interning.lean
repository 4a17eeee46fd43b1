import Mathlib.Logic.Function.Basic

/-!
# Handles for keys

An intern table gives each key a handle on first use and the same handle afterwards,
until the key is deleted. Handles are never reused, so two lookups in one run return the
same handle exactly when they ask for the same key and it was not deleted in between.
-/

namespace Interning

open Function Or
universe u

variable {κ : Type u} [DecidableEq κ] {n : Nat} {k : κ}

@[ext]
structure Table (κ : Type u) where
  next : Nat
  find : κ → Option Nat

inductive Call (κ : Type u) where
  | get (k : κ)
  | delete (k : κ)

def Table.empty : Table κ := ⟨0, fun _ => none⟩

def Table.create (t : Table κ) (k : κ) : Table κ := ⟨t.next + 1, update t.find k (some t.next)⟩

def Table.get (t : Table κ) (k : κ) : Table κ × Nat :=
  match t.find k with
  | some n => (t, n)
  | none => (t.create k, t.next)

def Table.delete (t : Table κ) (k : κ) : Table κ := { t with find := update t.find k none }

def Table.call (t : Table κ) : Call κ → Table κ
  | .get k => (t.get k).1
  | .delete k => t.delete k

def Table.run (t : Table κ) (calls : List (Call κ)) : Table κ := calls.foldl Table.call t

/-- Handles in use are old, and no two keys share one. -/
structure Table.Sound (t : Table κ) : Prop where
  old : ∀ k n, t.find k = some n → n < t.next
  inj : ∀ k k' n, t.find k = some n → t.find k' = some n → k = k'

omit [DecidableEq κ] in
lemma empty_sound : (Table.empty : Table κ).Sound := by
  constructor
  · intro k n h
    cases h
  · intro k k' n h
    cases h

/-- Everything a lookup can do. -/
lemma get_cases (t : Table κ) (k : κ) : (∃ n, t.find k = some n ∧ t.get k = (t, n)) ∨
    (t.find k = none ∧ t.get k = (t.create k, t.next)) := by
  cases h : t.find k with
  | some n => exact inl ⟨n, rfl, by simp only [Table.get, h]⟩
  | none => exact inr ⟨rfl, by simp only [Table.get, h]⟩

variable {t : Table κ}

lemma create_find {k' : κ} (h : (t.create k).find k' = some n) :
    (k' = k ∧ n = t.next) ∨ (k' ≠ k ∧ t.find k' = some n) := by
  change update t.find k (some t.next) k' = some n at h
  by_cases hk : k' = k
  · subst hk
    rw [update_self] at h
    cases h
    exact inl ⟨rfl, rfl⟩
  · rw [update_of_ne hk] at h
    exact inr ⟨hk, h⟩

lemma get_find (t : Table κ) (k : κ) : (t.get k).1.find k = some (t.get k).2 := by
  rcases get_cases t k with ⟨n, hf, hgt⟩ | ⟨-, hgt⟩
  · rw [hgt]
    exact hf
  · rw [hgt]
    exact update_self ..

lemma Table.Sound.create (sound : t.Sound) (k : κ) : (t.create k).Sound := by
  constructor
  · intro k' n h
    rcases create_find h with ⟨-, rfl⟩ | ⟨-, hold⟩
    · exact Nat.lt_succ_self t.next
    · exact Nat.lt_succ_of_lt (sound.old k' n hold)
  · intro k₁ k₂ n h₁ h₂
    rcases create_find h₁ with ⟨rfl, rfl⟩ | ⟨-, hold₁⟩ <;>
      rcases create_find h₂ with ⟨rfl, heq⟩ | ⟨-, hold₂⟩
    · rfl
    · exact absurd (sound.old k₂ _ hold₂) (Nat.lt_irrefl _)
    · subst heq
      exact absurd (sound.old k₁ _ hold₁) (Nat.lt_irrefl _)
    · exact sound.inj k₁ k₂ n hold₁ hold₂

lemma Table.Sound.get (sound : t.Sound) (k : κ) : (t.get k).1.Sound := by
  rcases get_cases t k with ⟨n, -, hgt⟩ | ⟨-, hgt⟩
  · rw [hgt]
    exact sound
  · rw [hgt]
    exact sound.create k

lemma delete_find {k' : κ} (h : (t.delete k).find k' = some n) :
    k' ≠ k ∧ t.find k' = some n := by
  change update t.find k none k' = some n at h
  by_cases hk : k' = k
  · subst hk
    rw [update_self] at h
    cases h
  · rw [update_of_ne hk] at h
    exact ⟨hk, h⟩

lemma Table.Sound.delete (sound : t.Sound) (k : κ) : (t.delete k).Sound :=
  ⟨fun k' n h => sound.old k' n (delete_find h).2,
    fun k₁ k₂ n h₁ h₂ => sound.inj k₁ k₂ n (delete_find h₁).2 (delete_find h₂).2⟩

lemma Table.Sound.call (sound : t.Sound) (c : Call κ) : (t.call c).Sound := by
  cases c with
  | get k => exact sound.get k
  | delete k => exact sound.delete k

lemma Table.Sound.run (sound : t.Sound) (calls : List (Call κ)) :
    (t.run calls).Sound := by
  induction calls generalizing t with
  | nil => exact sound
  | cons c calls ih => exact ih (sound.call c)

/-- A handle that no key has and that is not new will never be given out. -/
def Dead (t : Table κ) (n : Nat) : Prop := n < t.next ∧ ∀ k, t.find k ≠ some n

lemma Dead.get (dead : Dead t n) (k : κ) : Dead (t.get k).1 n ∧ (t.get k).2 ≠ n := by
  rcases get_cases t k with ⟨m, hf, hgt⟩ | ⟨-, hgt⟩
  · rw [hgt]
    refine ⟨dead, ?_⟩
    rintro rfl
    exact dead.2 k hf
  · rw [hgt]
    have hlt := dead.1
    refine ⟨⟨Nat.lt_succ_of_lt hlt, ?_⟩, Nat.ne_of_gt hlt⟩
    intro k' h
    rcases create_find h with ⟨-, rfl⟩ | ⟨-, hold⟩
    · exact Nat.lt_irrefl _ hlt
    · exact dead.2 k' hold

lemma Dead.run (dead : Dead t n) (calls : List (Call κ)) : Dead (t.run calls) n := by
  induction calls generalizing t with
  | nil => exact dead
  | cons c calls ih =>
    apply ih
    cases c with
    | get k => exact (dead.get k).1
    | delete k => exact ⟨dead.1, fun k' h => dead.2 k' (delete_find h).2⟩

lemma call_find (h : t.find k = some n) {c : Call κ} (hc : c ≠ .delete k) :
    (t.call c).find k = some n := by
  cases c with
  | get k' =>
    rcases get_cases t k' with ⟨m, -, hgt⟩ | ⟨hn, hgt⟩
    · rw [Table.call, hgt]
      exact h
    · have hk : k ≠ k' := by
        rintro rfl
        rw [hn] at h
        cases h
      rw [Table.call, hgt]
      exact (update_of_ne hk ..).trans h
  | delete k' =>
    have hk : k ≠ k' := by
      rintro rfl
      exact hc rfl
    exact (update_of_ne hk ..).trans h

/-- After calls, the key still has its handle, or was deleted and the handle is dead. -/
lemma run_find (sound : t.Sound) (h : t.find k = some n) (calls : List (Call κ)) :
    (.delete k ∉ calls ∧ (t.run calls).find k = some n) ∨
    (.delete k ∈ calls ∧ Dead (t.run calls) n) := by
  induction calls generalizing t with
  | nil => exact inl ⟨List.not_mem_nil, h⟩
  | cons c calls ih =>
    by_cases hc : c = .delete k
    · subst hc
      have dead : Dead (t.delete k) n := by
        refine ⟨sound.old k n h, fun k' h' => ?_⟩
        obtain ⟨hne, hf⟩ := delete_find h'
        exact hne (sound.inj k' k n hf h)
      exact inr ⟨List.mem_cons_self, dead.run calls⟩
    · rcases ih (sound.call c) (call_find h hc) with ⟨hn, hf⟩ | ⟨hm, hd⟩
      · refine inl ⟨?_, hf⟩
        intro hm
        rcases List.mem_cons.1 hm with heq | hm
        · exact hc heq.symm
        · exact hn hm
      · exact inr ⟨List.mem_cons_of_mem _ hm, hd⟩

/-- Two lookups of one run return the same handle if and only if they ask for the same key
and it was not deleted between them. -/
theorem get_same_iff (sound : t.Sound) (k₁ k₂ : κ) (between : List (Call κ)) :
    (((t.get k₁).1.run between).get k₂).2 = (t.get k₁).2 ↔ k₁ = k₂ ∧ .delete k₁ ∉ between := by
  have sound₁ := sound.get k₁
  have sound₂ := sound₁.run between
  rcases run_find sound₁ (get_find t k₁) between with ⟨ht, hf⟩ | ⟨hm, hd⟩
  · constructor
    · intro h
      refine ⟨?_, ht⟩
      have hfi₂ := get_find ((t.get k₁).1.run between) k₂
      have hk : (((t.get k₁).1.run between).call (.get k₂)).find k₁ = some (t.get k₁).2 :=
        call_find hf (fun h => nomatch h)
      rw [h] at hfi₂
      exact (sound₂.get k₂).inj k₁ k₂ _ hk hfi₂
    · rintro ⟨rfl, -⟩
      rcases get_cases ((t.get k₁).1.run between) k₁ with ⟨n, hfi', hgt⟩ | ⟨hn, -⟩
      · rw [hgt]
        exact Option.some.inj (hfi'.symm.trans hf)
      · rw [hf] at hn
        cases hn
  · constructor
    · intro h
      exact absurd h (hd.get k₂).2
    · rintro ⟨-, ht⟩
      exact absurd hm ht

end Interning
