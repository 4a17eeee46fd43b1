import Mathlib.Data.List.Infix

/-!
# Byte frames chained by a digest

A link is a head, a body and a digest of both and of the digest before. The length of a link
depends on its body only, so a chain is determined by its last digest and its length as long
as the digest does not collide on the bytes that the links cover.
-/

namespace HashChain

open List
universe u

variable {δ : Type u} (digest : List UInt8 → δ) (put : δ → List UInt8)
  (head : List UInt8 → List UInt8)

/-- The bytes that the digest of a link is taken of. -/
def covered (h : δ) (b : List UInt8) : List UInt8 := put h ++ (head b ++ b)

def next (h : δ) (b : List UInt8) : δ := digest (covered put head h b)

def link (h : δ) (b : List UInt8) : List UInt8 := head b ++ b ++ put (next digest put head h b)

def links : δ → List (List UInt8) → List UInt8
  | _, [] => []
  | h, b :: bs => link digest put head h b ++ links (next digest put head h b) bs

/-- The digest of the last link. -/
def last (h : δ) (bs : List (List UInt8)) : δ := bs.foldl (next digest put head) h

/-- Everything that is covered along a chain. -/
def coverings : δ → List (List UInt8) → List (List UInt8)
  | _, [] => []
  | h, b :: bs => covered put head h b :: coverings (next digest put head h b) bs

/-- The digest tells the given byte strings apart. -/
def Separates (xs : List (List UInt8)) : Prop := ∀ x ∈ xs, ∀ y ∈ xs, digest x = digest y → x = y

variable {digest put head}

@[simp] lemma links_nil (h : δ) : links digest put head h [] = [] := rfl

lemma links_append (h : δ) (as bs : List (List UInt8)) : links digest put head h (as ++ bs) =
      links digest put head h as ++ links digest put head (last digest put head h as) bs := by
  induction as generalizing h with
  | nil => rfl
  | cons a as ih =>
    rw [cons_append, links, links, ih, append_assoc]
    rfl

lemma last_append (h : δ) (as bs : List (List UInt8)) : last digest put head h (as ++ bs) =
      last digest put head (last digest put head h as) bs := foldl_append

lemma coverings_append (h : δ) (as bs : List (List UInt8)) :
    coverings digest put head h (as ++ bs) = coverings digest put head h as ++
        coverings digest put head (last digest put head h as) bs := by
  induction as generalizing h with
  | nil => rfl
  | cons a as ih =>
    rw [cons_append, coverings, coverings, ih]
    rfl

lemma Separates.mono {xs ys : List (List UInt8)} (h : Separates digest ys)
    (sub : ∀ x ∈ xs, x ∈ ys) : Separates digest xs :=
  fun x hx y hy => h x (sub x hx) y (sub y hy)

section Widths

variable {w v : Nat} (putWidth : ∀ h, (put h).length = w) (headWidth : ∀ b, (head b).length = v)

include putWidth headWidth

lemma length_link (h : δ) (b : List UInt8) :
    (link digest put head h b).length = v + b.length + w := by
  rw [link, length_append, length_append, headWidth, putWidth]

lemma length_links_concat (h : δ) (bs : List (List UInt8)) (b : List UInt8) :
    (links digest put head h (bs ++ [b])).length =
      (links digest put head h bs).length + (v + b.length + w) := by
  simp [links_append, links, length_link putWidth headWidth]

/-- The covered bytes name the digest before and the body. -/
lemma covered_inj (putInj : ∀ h h', put h = put h' → h = h') {h h' : δ} {b b' : List UInt8}
    (eq : covered put head h b = covered put head h' b') : h = h' ∧ b = b' := by
  have hp := append_inj eq ((putWidth h).trans (putWidth h').symm)
  have hb := append_inj hp.2 ((headWidth b).trans (headWidth b').symm)
  exact ⟨putInj h h' hp.1, hb.2⟩

/-- Chains with the same last digest and the same length are the same. -/
theorem eq_of_last (putInj : ∀ h h', put h = put h' → h = h') (positive : 0 < v) {h : δ}
    {as bs : List (List UInt8)} (separates : Separates digest (coverings digest put head h as ++
      coverings digest put head h bs))
    (hl : last digest put head h as = last digest put head h bs)
    (hlen : (links digest put head h as).length = (links digest put head h bs).length) :
    as = bs := by
  induction as using reverseRecOn generalizing bs with
  | nil =>
    cases bs with
    | nil => rfl
    | cons b bs =>
      simp only [links, length_append, length_nil, length_link putWidth headWidth] at hlen
      omega
  | append_singleton as a ih =>
    cases bs using reverseRecOn with
    | nil =>
      simp only [length_links_concat putWidth headWidth, links_nil, length_nil] at hlen
      omega
    | append_singleton bs b =>
      rw [coverings_append, coverings_append] at separates
      rw [last_append, last_append] at hl
      have hc := separates _ (mem_append_left _ (mem_append_right _ (.head _))) _
        (mem_append_right _ (mem_append_right _ (.head _))) hl
      obtain ⟨hb, rfl⟩ := covered_inj putWidth headWidth putInj hc
      simp only [length_links_concat putWidth headWidth, Nat.add_right_cancel_iff] at hlen
      have hs : as = bs := by
        refine ih (separates.mono ?_) hb hlen
        intro x hx
        simp only [mem_append] at hx ⊢
        exact hx.elim (fun h => .inl (.inl h)) (fun h => .inr (.inl h))
      rw [hs]

end Widths

end HashChain
