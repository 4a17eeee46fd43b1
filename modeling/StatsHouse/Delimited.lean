import Mathlib.Data.List.Basic

/-!
# Self-delimiting words

Words written one behind another can be told apart when each of them shows where it ends. A
code whose words do is closed under the ways in which a text is put together: one word behind
another, a fixed beginning, one of two codes that begin differently, and a list with separators
and a closing letter.
-/

namespace Delimited

open List
variable {α β γ : Type*}

/-- From a word of the code and what follows it, the word and the rest can be read back. -/
def SelfDelimiting (S : β → Prop) (enc : β → List α) : Prop :=
  ∀ ⦃x y⦄, S x → S y → ∀ ⦃r r'⦄, enc x ++ r = enc y ++ r' → x = y ∧ r = r'

/-- A word ends where the first letter stands that it cannot have. -/
lemma append_stop_inj {p : α → Prop} {u v r r' : List α} {c c' : α} (hu : ∀ a ∈ u, p a)
    (hv : ∀ a ∈ v, p a) (hc : ¬p c) (hc' : ¬p c') (h : u ++ c :: r = v ++ c' :: r') :
    u = v ∧ c = c' ∧ r = r' := by
  induction u generalizing v with
  | nil =>
    cases v with
    | nil => exact ⟨rfl, cons.inj h⟩
    | cons b v =>
      have hb : p b := hv b (.head _)
      rw [← (cons.inj h).1] at hb
      exact absurd hb hc
  | cons a u ih =>
    cases v with
    | nil =>
      have ha : p a := hu a (.head _)
      rw [(cons.inj h).1] at ha
      exact absurd ha hc'
    | cons b v =>
      obtain ⟨rfl, ht⟩ := cons.inj h
      obtain ⟨rfl, hr⟩ := ih (fun x hx => hu x (.tail _ hx))
        (fun x hx => hv x (.tail _ hx)) ht
      exact ⟨rfl, hr⟩

lemma intercalate_append (sep : α) (enc : β → List α) (x y : β) (xs : List β) (r : List α) :
    [sep].intercalate ((x :: y :: xs).map enc) ++ r =
      enc x ++ sep :: ([sep].intercalate ((y :: xs).map enc) ++ r) := by
  simp

namespace SelfDelimiting

variable {S : β → Prop} {T : γ → Prop} {enc : β → List α} {enc' : γ → List α}

/-- Words over some letters, closed by a letter that is none of them. -/
lemma closed {p : α → Prop} {c : α} (hin : ∀ ⦃x y⦄, S x → S y → enc x = enc y → x = y)
    (hp : ∀ x, S x → ∀ a ∈ enc x, p a) (hc : ¬p c) : SelfDelimiting S fun x => enc x ++ [c] := by
  intro x y hx hy r r' h
  rw [append_assoc, append_assoc] at h
  obtain ⟨hw, -, hr⟩ := append_stop_inj (hp x hx) (hp y hy) hc hc h
  exact ⟨hin hx hy hw, hr⟩

/-- The same words behind a fixed beginning. -/
lemma behind (w : List α) (h : SelfDelimiting S enc) : SelfDelimiting S fun x => w ++ enc x := by
  intro x y hx hy r r' heq
  rw [append_assoc, append_assoc] at heq
  exact h hx hy (append_cancel_left heq)

lemma pair (h : SelfDelimiting S enc) (h' : SelfDelimiting T enc') :
    SelfDelimiting (fun x : β × γ => S x.1 ∧ T x.2) fun x => enc x.1 ++ enc' x.2 := by
  rintro ⟨x, x'⟩ ⟨y, y'⟩ ⟨hx, hx'⟩ ⟨hy, hy'⟩ r r' heq
  simp only [append_assoc] at heq
  obtain ⟨rfl, hn⟩ := h hx hy heq
  obtain ⟨rfl, hr⟩ := h' hx' hy' hn
  exact ⟨rfl, hr⟩

/-- The words of two codes, where the first letter tells from which of them a word is. -/
lemma either {a b : α} (hab : a ≠ b) (h : SelfDelimiting S enc) (h' : SelfDelimiting T enc') :
    SelfDelimiting (Sum.elim S T) (Sum.elim (fun x => a :: enc x) fun x => b :: enc' x) := by
  rintro (x | x) (y | y) hx hy r r' heq
  · obtain ⟨rfl, hr⟩ := h hx hy (cons.inj heq).2
    exact ⟨rfl, hr⟩
  · exact absurd (cons.inj heq).1 hab
  · exact absurd (cons.inj heq).1.symm hab
  · obtain ⟨rfl, hr⟩ := h' hx hy (cons.inj heq).2
    exact ⟨rfl, hr⟩

/-- A list of words is closed by a letter that is no separator and that no word begins with. -/
theorem list {sep close : α} (distinct : sep ≠ close) (h : SelfDelimiting S enc)
    (starts : ∀ x, S x → ∃ a w, enc x = a :: w ∧ a ≠ close) :
    SelfDelimiting (fun xs : List β => ∀ x ∈ xs, S x)
      fun xs => [sep].intercalate (xs.map enc) ++ [close] := by
  intro xs ys hs hb r r' heq
  rw [append_assoc, append_assoc] at heq
  induction xs generalizing ys with
  | nil =>
    cases ys with
    | nil => exact ⟨rfl, (cons.inj heq).2⟩
    | cons y ys =>
      obtain ⟨a, w, hy, ha⟩ := starts y (hb y (.head _))
      cases ys <;> simp [hy] at heq <;> exact absurd heq.1.symm ha
  | cons x xs ih =>
    cases ys with
    | nil =>
      obtain ⟨a, w, hx, ha⟩ := starts x (hs x (.head _))
      cases xs <;> simp [hx] at heq <;> exact absurd heq.1 ha
    | cons y ys =>
      have hx := hs x (.head _)
      have hy := hb y (.head _)
      have hn t t'
          (ht : [sep].intercalate ((x :: xs).map enc) ++ ([close] ++ r) = enc x ++ t)
          (ht' : [sep].intercalate ((y :: ys).map enc) ++ ([close] ++ r') = enc y ++ t') :
          x = y ∧ t = t' := by
        rw [ht, ht'] at heq
        exact h hx hy heq
      cases xs with
      | nil =>
        cases ys with
        | nil =>
          obtain ⟨rfl, hr⟩ := hn (close :: r) (close :: r') (by simp) (by simp)
          exact ⟨rfl, (cons.inj hr).2⟩
        | cons y' ys =>
          obtain ⟨-, hr⟩ := hn (close :: r) _ (by simp) (intercalate_append ..)
          exact absurd (cons.inj hr).1.symm distinct
      | cons x' xs =>
        cases ys with
        | nil =>
          obtain ⟨-, hr⟩ := hn _ (close :: r') (intercalate_append ..) (by simp)
          exact absurd (cons.inj hr).1 distinct
        | cons y' ys =>
          obtain ⟨rfl, hr⟩ := hn _ _ (intercalate_append ..) (intercalate_append ..)
          obtain ⟨hl, he⟩ := ih (fun z hz => hs z (.tail _ hz))
            (fun z hz => hb z (.tail _ hz)) (cons.inj hr).2
          exact ⟨congrArg _ hl, he⟩

end SelfDelimiting

end Delimited
