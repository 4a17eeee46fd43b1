import Mathlib.Algebra.Order.Ring.Int

/-!
# Comparison operators of the query language

A comparison is evaluated by one of five paths: with a literal on either side, with a series
without labels on either side, or between matched vectors. The path with a scalar on the left
exchanges the operands, but for the order it takes the negated operator where it needs the
mirrored one, and it keeps that operator for the offsets that follow.
-/

namespace Comparisons

open List

inductive Op where
  | eqlc | neq | gte | gtr | lss | lte
deriving DecidableEq

variable {α : Type*} [LinearOrder α]

/-- The comparison of two numbers of which `none` is NaN. -/
def Op.cmp : Op → Option α → Option α → Bool
  | .eqlc, some l, some r => l = r
  | .neq, some l, some r => l ≠ r
  | .gte, some l, some r => l ≥ r
  | .gtr, some l, some r => l > r
  | .lss, some l, some r => l < r
  | .lte, some l, some r => l ≤ r
  | .neq, _, _ => true
  | _, _, _ => false

/-- The comparison for which a filter with a literal drops the value. -/
def Op.negated : Op → Op
  | .eqlc => .neq | .neq => .eqlc | .gte => .lss | .gtr => .lte | .lss => .gte | .lte => .gtr

/-- The operator of `evalBinary` for a scalar on the left, with `swapArgs`. -/
def Op.swapped : Op → Op
  | .eqlc => .eqlc | .neq => .neq | .gte => .lss | .gtr => .lte | .lss => .gte | .lte => .gtr

def Op.Ordering (op : Op) : Prop := op ≠ .eqlc ∧ op ≠ .neq

abbrev Row (α : Type*) := List (Option α)

inductive Card where
  | oneToOne | manyToOne | oneToMany
deriving DecidableEq

structure SeriesData (α : Type*) where
  values : Row α
  /-- `len(m.Tags.ID2Tag)` -/
  tags : Nat

/-- The row of a series that is `scalar()`. -/
def scalar? : List (SeriesData α) → Option (Row α)
  | [d] => if d.tags = 0 then some d.values else none
  | _ => none

/-- The operands at one offset, with the rows whose hashes match. -/
structure Operands (α : Type*) where
  lhs : List (SeriesData α)
  rhs : List (SeriesData α)
  matched : List (Row α × Row α)

/-- Whether `evalBinary` takes the path of a scalar on the left. -/
def Operands.scalarLeft (x : Operands α) (card : Card) : Bool :=
  card = .oneToOne && (scalar? x.rhs).isNone && (scalar? x.lhs).isSome

/-- The rows that are compared, left and right. -/
def Operands.pairs (x : Operands α) (card : Card) : List (Row α × Row α) :=
  if card ≠ .oneToOne then x.matched
  else match scalar? x.rhs, scalar? x.lhs with
    | some r, _ => x.lhs.map fun d => (d.values, r)
    | none, some l => x.rhs.map fun d => (l, d.values)
    | none, none => x.matched

inductive Expr (α : Type*) where
  | literalLeft (l : Option α) (rhs : List (List (Row α)))
  | literalRight (lhs : List (List (Row α))) (r : Option α)
  | vectors (card : Card) (offsets : List (Operands α))

section Evaluation

variable [Zero α] [One α] (op : Op) (returnBool : Bool)

def flag (b : Bool) : Option α := if b then some 1 else some 0

/-- What the comparison of `l` with `r` makes of the value `v` of the filtered side. -/
def point (v l r : Option α) : Option α :=
  if returnBool then flag (op.cmp l r) else if op.cmp l r then v else none

/-- `sliceFilterEqual`, `sliceEqual` and so on: the functions of `sliceBinaryFuncM`. -/
def sliceBinary : Row α → Row α → Row α := zipWith fun l r => point op returnBool l l r

/-- The functions of `scalarSliceFuncM`. Their filters drop what compares the other way. -/
def scalarSlice (l : Option α) (rhs : Row α) : Row α := rhs.map fun r =>
    if returnBool then flag (op.cmp l r) else if op.negated.cmp l r then none else r

/-- The functions of `sliceScalarFuncM`. -/
def sliceScalar (lhs : Row α) (r : Option α) : Row α := lhs.map fun l =>
    if returnBool then flag (op.cmp l r) else if op.negated.cmp l r then none else l

/-- The loop over the offsets; `fn` is the operator of the function in use. -/
def evalBinary (card : Card) : Op → List (Operands α) → List (List (Row α))
  | _, [] => []
  | fn, x :: xs =>
    if x.scalarLeft card then
      ((x.pairs card).map fun p => sliceBinary op.swapped returnBool p.2 p.1) ::
        evalBinary card op.swapped xs
    else
      ((x.pairs card).map fun p => sliceBinary fn returnBool p.1 p.2) :: evalBinary card fn xs

def eval : Expr α → List (List (Row α))
  | .literalLeft l rhs => rhs.map (map (scalarSlice op returnBool l))
  | .literalRight lhs r => lhs.map (map (sliceScalar op returnBool · r))
  | .vectors card offsets => evalBinary op returnBool card op offsets

/-- The left value compared with the right one by the operator, at every point. -/
def meaning : Expr α → List (List (Row α))
  | .literalLeft l rhs => rhs.map (map (map fun r => point op returnBool r l r))
  | .literalRight lhs r => lhs.map (map (map fun l => point op returnBool l l r))
  | .vectors card offsets => offsets.map fun x => (x.pairs card).map fun p =>
      zipWith (fun l r => point op returnBool (if x.scalarLeft card then r else l) l r) p.1 p.2

end Evaluation

/-- Every two values that are compared satisfy `q`. -/
def Pointwise (q : Option α → Option α → Prop) (pairs : List (Row α × Row α)) : Prop :=
  ∀ p ∈ pairs, ∀ v ∈ p.1.zip p.2, q v.1 v.2

/-- For an order, a scalar on the left is nowhere equal to a value, and behind its offset
something is missing in every comparison of another path. -/
def OffsetsAgree (card : Card) : Bool → List (Operands α) → Prop
  | _, [] => True
  | late, x :: xs =>
    (if x.scalarLeft card then Pointwise (fun l r => l = none ∨ l ≠ r) (x.pairs card)
      else late → Pointwise (fun l r => l = none ∨ r = none) (x.pairs card)) ∧
    OffsetsAgree card (late || x.scalarLeft card) xs

def Agrees (op : Op) (returnBool : Bool) : Expr α → Prop
  | .literalLeft l rhs => op.Ordering → returnBool = false → l = none →
      ∀ rows ∈ rhs, ∀ row ∈ rows, ∀ r ∈ row, r = none
  | .literalRight lhs r => op.Ordering → returnBool = false → r = none →
      ∀ rows ∈ lhs, ∀ row ∈ rows, ∀ l ∈ row, l = none
  | .vectors card offsets => op.Ordering → OffsetsAgree card false offsets

section Points

variable [Zero α] [One α] [NeZero (1 : α)] {op : Op} {returnBool : Bool} {l r : Option α}

lemma point_swapped_iff : point op.swapped returnBool r r l = point op returnBool r l r ↔
      (op.Ordering → l = none ∨ l ≠ r) := by
  have hne : (1 : α) ≠ 0 := NeZero.ne 1
  cases op <;> cases returnBool <;> cases l <;> cases r <;>
    simp [point, flag, Op.cmp, Op.swapped, Op.Ordering] <;> grind

lemma point_late_iff : point op.swapped returnBool l l r = point op returnBool l l r ↔
      (op.Ordering → l = none ∨ r = none) := by
  have hne : (1 : α) ≠ 0 := NeZero.ne 1
  cases op <;> cases returnBool <;> cases l <;> cases r <;>
    simp [point, flag, Op.cmp, Op.swapped, Op.Ordering] <;> grind

omit [NeZero (1 : α)] in
/-- A filter that drops what compares the other way keeps what does not compare. -/
lemma negated_iff {v : Option α} (hv : v = l ∨ v = r) :
    (if returnBool then flag (op.cmp l r) else if op.negated.cmp l r then none else v) =
        point op returnBool v l r ↔
      (op.Ordering → returnBool = false → l = none ∨ r = none → v = none) := by
  cases op <;> cases returnBool <;> cases l <;> cases r <;>
    simp [point, Op.cmp, Op.negated, Op.Ordering] <;> grind

lemma zipWith_congr_iff {β γ δ : Type*} {f g : β → γ → δ} {xs : List β} {ys : List γ} :
    zipWith f xs ys = zipWith g xs ys ↔ ∀ v ∈ xs.zip ys, f v.1 v.2 = g v.1 v.2 := by
  simp only [← map_uncurry_zip_eq_zipWith, map_inj_left]
  rfl

lemma evalBinary_iff (card : Card) (late : Bool) (xs : List (Operands α)) :
    evalBinary op returnBool card (if late then op.swapped else op) xs =
        meaning op returnBool (.vectors card xs) ↔ (op.Ordering → OffsetsAgree card late xs) := by
  induction xs generalizing late with
  | nil => simp [evalBinary, meaning, OffsetsAgree]
  | cons x xs ih =>
    simp only [evalBinary, meaning, map_cons, OffsetsAgree] at ih ⊢
    cases hf : x.scalarLeft card with
    | true =>
      have hn : ∀ p : Row α × Row α, sliceBinary op.swapped returnBool p.2 p.1 =
          zipWith (fun l r => point op returnBool r l r) p.1 p.2 ↔
          (op.Ordering → ∀ v ∈ p.1.zip p.2, v.1 = none ∨ v.1 ≠ v.2) := by
        intro p
        rw [sliceBinary, zipWith_comm, zipWith_congr_iff]
        simp only [point_swapped_iff]
        grind
      have hr := ih true
      simp only [if_true, Bool.or_true, cons.injEq, map_inj_left, hn] at hr ⊢
      rw [hr]
      exact ⟨fun h ho => ⟨fun p hp => h.1 p hp ho, h.2 ho⟩,
        fun h => ⟨fun p hp ho => (h ho).1 p hp, fun ho => (h ho).2⟩⟩
    | false =>
      have hn : ∀ p : Row α × Row α, sliceBinary (if late then op.swapped else op)
          returnBool p.1 p.2 = zipWith (fun l r => point op returnBool l l r) p.1 p.2 ↔
          (op.Ordering → late → ∀ v ∈ p.1.zip p.2, v.1 = none ∨ v.2 = none) := by
        intro p
        rw [sliceBinary, zipWith_congr_iff]
        cases late
        · simp
        · simp only [if_true, point_late_iff]
          grind
      simp only [Bool.false_eq_true, if_false, Bool.or_false, cons.injEq, map_inj_left,
        hn, ih late]
      exact ⟨fun h ho => ⟨fun hl p hp => h.1 p hp ho hl, h.2 ho⟩,
        fun h => ⟨fun p hp ho hl => (h ho).1 hl p hp, fun ho => (h ho).2⟩⟩

/-- The operator decides every point, by the left value and the right one, if and only if a
literal that is compared by an order is a number, a scalar on the left of an order is nowhere
equal to what it is compared with, and no offset behind such a scalar compares two numbers. -/
theorem eval_eq_meaning_iff (op : Op) (returnBool : Bool) (e : Expr α) :
    eval op returnBool e = meaning op returnBool e ↔ Agrees op returnBool e := by
  cases e with
  | literalLeft l rhs =>
    simp only [eval, meaning, scalarSlice, map_inj_left, negated_iff (.inr rfl)]
    exact ⟨fun h ho hb hl rows hw row ha r hr => h rows hw row ha r hr ho hb (.inl hl),
      fun h rows hw row ha r hr ho hb => Or.rec (h ho hb · rows hw row ha r hr) id⟩
  | literalRight lhs r =>
    simp only [eval, meaning, sliceScalar, map_inj_left, negated_iff (.inl rfl)]
    exact ⟨fun h ho hb hr rows hw row ha l hl => h rows hw row ha l hl ho hb (.inr hr),
      fun h rows hw row ha l hl ho hb => Or.rec id (h ho hb · rows hw row ha l hl)⟩
  | vectors card offsets => exact evalBinary_iff card false offsets

end Points

/-- At the first offset a series without labels that is 1 stands on the left of a series that
is `b`, at the second one a series that is `c` on the left of one without labels that is 1. -/
def twoOffsets (b : ℤ) (c : Option ℤ) : Expr ℤ :=
  .vectors .oneToOne [⟨[⟨[some 1], 0⟩], [⟨[some b], 1⟩], []⟩, ⟨[⟨[c], 1⟩], [⟨[some 1], 0⟩], []⟩]

theorem scalar_left_gte :
    eval .gte true (twoOffsets 2 none) = meaning .gte true (twoOffsets 2 none) :=
  (eval_eq_meaning_iff ..).2 (by
    simp [Agrees, twoOffsets, OffsetsAgree, Pointwise, Operands.pairs, Operands.scalarLeft,
      scalar?])

theorem scalar_left_wrong : eval .gte true (twoOffsets 1 (some 2)) = [[[some 0]], [[some 0]]] ∧
      meaning .gte true (twoOffsets 1 (some 2)) = [[[some 1]], [[some 1]]] := by
  decide

end Comparisons
