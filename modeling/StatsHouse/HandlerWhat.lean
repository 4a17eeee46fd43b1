import Mathlib.Algebra.Order.Ring.Rat
import Mathlib.Data.List.Destutter
import Mathlib.Data.List.NodupEquivFin
import Mathlib.Order.WellFounded

/-!
# Functions of one query

The functions that a query selects are sorted and cut into groups, and each group asks the
database for seven digests at most. A function of a group takes its argument from the digest
with its own number. The digests of a group are without repetition and the functions are not,
so the numbers are the same only as long as nothing repeats.
-/

namespace HandlerWhat

open List Nat
section Stutter

variable {α β : Type*} (val : α → β) (zero : β)

/-- The value at a place, with the zero value behind the end. -/
def valueAt (l : List α) (i : Nat) : β := (l[i]?.map val).getD zero

/-- Where an element stutters, all values behind it are zero. -/
def QuietStutter (l : List α) : Prop :=
  ∀ i, i + 1 < l.length → l[i]? = l[i + 1]? → ∀ j, i < j → valueAt val zero l j = zero

variable {val zero}

lemma valueAt_of_le {l : List α} {i : Nat} (hi : l.length ≤ i) : valueAt val zero l i = zero := by
  rw [valueAt, getElem?_eq_none hi]
  rfl

/-- Values that a sublist shows one place later can only be zero. -/
lemma valueAt_of_shifted {d l : List α} (sub : d.Sublist l)
    (h : ∀ i < l.length, valueAt val zero d (i + 1) = valueAt val zero l i) (i : Nat) :
    valueAt val zero l i = zero := by
  obtain ⟨f, hf⟩ := sublist_iff_exists_orderEmbedding_getElem?_eq.1 sub
  have hba k : ∀ i, l.length ≤ i + k → valueAt val zero l i = zero := by
    induction k with
    | zero => exact fun i hi => valueAt_of_le hi
    | succ k ih =>
      intro i hi
      rcases lt_or_ge i l.length with hlt | hge
      · have hp : i + 1 ≤ f (i + 1) := StrictMono.le_apply f.strictMono
        rw [← h i hlt, valueAt, hf (i + 1)]
        exact ih (f (i + 1)) (by omega)
      · exact valueAt_of_le hge
  exact hba l.length i (le_add_left _ _)

lemma valueAt_of_sublist {d l : List α} (sub : d.Sublist l)
    (h : ∀ i, valueAt val zero l i = zero) (i : Nat) : valueAt val zero d i = zero := by
  obtain ⟨f, hf⟩ := sublist_iff_exists_orderEmbedding_getElem?_eq.1 sub
  rw [valueAt, hf i]
  exact h (f i)

lemma quietStutter_cons_of_ne {a b : α} (l : List α) (hab : a ≠ b) :
    QuietStutter val zero (a :: b :: l) ↔ QuietStutter val zero (b :: l) := by
  constructor
  · intro h i hi heq j hj
    exact h (i + 1) (succ_lt_succ hi) heq (j + 1) (succ_lt_succ hj)
  · intro h i hi heq j hj
    cases i with
    | zero => exact absurd (Option.some.inj heq) hab
    | succ i =>
      obtain ⟨j, rfl⟩ := Nat.exists_eq_succ_of_ne_zero (Nat.ne_zero_of_lt hj)
      exact h i (Nat.succ_lt_succ_iff.1 hi) heq j (Nat.succ_lt_succ_iff.1 hj)

lemma quietStutter_cons_self (a : α) (l : List α) :
    QuietStutter val zero (a :: a :: l) ↔ ∀ j, valueAt val zero (a :: l) j = zero := by
  constructor
  · intro h j
    exact h 0 (by simp) rfl (j + 1) (succ_pos j)
  · intro h i _ _ j hj
    obtain ⟨j, rfl⟩ := Nat.exists_eq_succ_of_ne_zero (Nat.ne_zero_of_lt hj)
    exact h j

variable [DecidableEq α]

lemma destutter'_concat (a : α) (l : List α) (b : α) : (l ++ [b]).destutter' (· ≠ ·) a =
      if (a :: l).getLast? = some b then l.destutter' (· ≠ ·) a
      else l.destutter' (· ≠ ·) a ++ [b] := by
  induction l generalizing a with
  | nil =>
    by_cases hab : a = b <;> simp
  | cons c l ih =>
    rw [cons_append, destutter'_cons, destutter'_cons, getLast?_cons_cons]
    by_cases ha : a = c
    · subst ha
      rw [if_neg (not_not.2 rfl), if_neg (not_not.2 rfl), ih]
    · rw [if_pos ha, if_pos ha, ih]
      split_ifs <;> rfl

lemma destutter_concat {l : List α} (hl : l ≠ []) (b : α) : (l ++ [b]).destutter (· ≠ ·) =
      if l.getLast? = some b then l.destutter (· ≠ ·) else l.destutter (· ≠ ·) ++ [b] := by
  obtain ⟨a, l, rfl⟩ := exists_cons_of_ne_nil hl
  exact destutter'_concat a l b

/-- Without its stutter a list ends as it did. -/
lemma getLast?_destutter (l : List α) : (l.destutter (· ≠ ·)).getLast? = l.getLast? := by
  induction l using reverseRecOn with
  | nil => rfl
  | append_singleton l b ih =>
    rcases eq_or_ne l [] with rfl | hl
    · rfl
    · rw [destutter_concat hl]
      split_ifs with hs
      · rw [ih, hs, getLast?_concat]
      · rw [getLast?_concat, getLast?_concat]

/-- Without its stutter the list shows the same values when what stutters is quiet. -/
lemma destutter_values_iff (l : List α) :
    (∀ i < l.length, valueAt val zero (l.destutter (· ≠ ·)) i = valueAt val zero l i) ↔
      QuietStutter val zero l := by
  induction l with
  | nil => simp [QuietStutter]
  | cons a l ih =>
    cases l with
    | nil =>
      apply iff_of_true (fun i _ => rfl)
      intro i hi
      simp at hi
    | cons b l =>
      by_cases hab : a = b
      · subst hab
        rw [quietStutter_cons_self]
        have ha : (a :: a :: l).destutter (· ≠ ·) = (a :: l).destutter (· ≠ ·) := by
          rw [destutter_cons_cons, if_neg (not_not.2 rfl), destutter_cons']
        have hs := destutter_sublist (· ≠ ·) (a :: l)
        rw [ha]
        constructor
        · intro h
          exact valueAt_of_shifted hs fun i hi => h (i + 1) (succ_lt_succ hi)
        · intro h i _
          rw [valueAt_of_sublist hs h]
          cases i with
          | zero => exact (h 0).symm
          | succ i => exact (h i).symm
      · rw [quietStutter_cons_of_ne l hab, ← ih]
        have hh : (a :: b :: l).destutter (· ≠ ·) = a :: (b :: l).destutter (· ≠ ·) := by
          rw [destutter_cons_cons, if_pos hab, destutter_cons']
        rw [hh]
        constructor
        · exact fun h i hi => h (i + 1) (succ_lt_succ hi)
        · intro h i hi
          cases i with
          | zero => rfl
          | succ i => exact h i (Nat.succ_lt_succ_iff.1 hi)

end Stutter

/-- What the database can be asked for. -/
inductive DigestKind where
  | unspecified | avg | count | max | min | sum | percentile | stdDev | cardinality | unique
deriving Repr, DecidableEq

structure DigestSelector where
  what : DigestKind := .unspecified
  argument : ℚ := 0
deriving Repr, DecidableEq

/-- What a query can select, in the order of their numbers. -/
inductive DigestWhat where
  | unspecified
  | count | countSec | countRaw
  | sum | sumSec | sumRaw
  | avg | min | max
  | p0_1 | p1 | p5 | p10 | p25 | p50 | p75 | p90 | p95 | p99 | p999
  | stdDev | stdVar
  | cardinality | cardinalitySec | cardinalityRaw
  | unique | uniqueSec | uniqueRaw
deriving Repr, DecidableEq

namespace DigestWhat

def number (what : DigestWhat) : Nat := what.ctorIdx

def selector : DigestWhat → DigestSelector
  | avg => { what := .avg }
  | count | countSec | countRaw => { what := .count }
  | max => { what := .max }
  | min => { what := .min }
  | sum | sumSec | sumRaw => { what := .sum }
  | stdDev | stdVar => { what := .stdDev }
  | p0_1 => { what := .percentile, argument := 1 / 1000 }
  | p1 => { what := .percentile, argument := 1 / 100 }
  | p5 => { what := .percentile, argument := 5 / 100 }
  | p10 => { what := .percentile, argument := 1 / 10 }
  | p25 => { what := .percentile, argument := 25 / 100 }
  | p50 => { what := .percentile, argument := 5 / 10 }
  | p75 => { what := .percentile, argument := 75 / 100 }
  | p90 => { what := .percentile, argument := 9 / 10 }
  | p95 => { what := .percentile, argument := 95 / 100 }
  | p99 => { what := .percentile, argument := 99 / 100 }
  | p999 => { what := .percentile, argument := 999 / 1000 }
  | cardinality | cardinalitySec | cardinalityRaw => { what := .cardinality }
  | unique | uniqueSec => { what := .unique }
  -- the raw form is missing in the source, it gets the zero selector
  | uniqueRaw | unspecified => {}

end DigestWhat

structure SelectorWhat where
  digest : DigestWhat
  queryF : String := ""
deriving Repr, DecidableEq

def SelectorWhat.selector (what : SelectorWhat) : DigestSelector := what.digest.selector

def tsValueCount : Nat := 7

variable {what : SelectorWhat}

/-- `sort.Slice` with the numbers of the functions; it need not be stable. -/
structure SortSlice where
  run : List SelectorWhat → List SelectorWhat
  perm (whats : List SelectorWhat) : (run whats).Perm whats
  sorted (whats : List SelectorWhat) :
    (run whats).Pairwise fun a b => a.digest.number ≤ b.digest.number

/-- The functions of a group, and the digests it asks for. -/
structure Group where
  sel : List SelectorWhat
  qry : List DigestSelector
deriving Repr, DecidableEq

namespace Group

def start (what : SelectorWhat) : Group where
  sel := [what]
  qry := what.selector :: List.replicate (tsValueCount - 1) {}

/-- The inner loop, with the number of digests so far; what does not fit stays. -/
def fill (tail : Group) (n : Nat) : List SelectorWhat → Group × List SelectorWhat
  | [] => (tail, [])
  | what :: whats =>
    if n < tsValueCount then
      if tail.qry[n - 1]? ≠ some what.selector then
        fill { sel := tail.sel ++ [what], qry := tail.qry.set n what.selector } (n + 1) whats
      else fill { tail with sel := tail.sel ++ [what] } n whats
    else (tail, what :: whats)

lemma fill_sel (tail : Group) (n : Nat) (whats : List SelectorWhat) :
    (tail.fill n whats).1.sel ++ (tail.fill n whats).2 = tail.sel ++ whats := by
  fun_induction fill tail n whats with
  | case1 => rfl
  | case2 tail n what whats hn hne ih | case3 tail n what whats hn heq ih => simpa using ih
  | case4 => rfl

lemma length_fill (tail : Group) (n : Nat) (whats : List SelectorWhat) :
    (tail.fill n whats).2.length ≤ whats.length := by
  fun_induction fill tail n whats with
  | case1 | case4 => exact le_rfl
  | case2 tail n what whats hn hne ih | case3 tail n what whats hn heq ih =>
    exact ih.trans (le_succ _)

lemma length_rest {tail filled : Group} {n : Nat} {whats rest : List SelectorWhat}
    (h : tail.fill n whats = (filled, what :: rest)) : rest.length < whats.length := by
  have he := tail.length_fill n whats
  rw [h] at he
  exact he

end Group

/-- The outer loop, with the group that is being filled. -/
def fillGroups (tail : Group) (whats : List SelectorWhat) : List Group :=
  if whats = [] then [tail]
  else
    match h : tail.fill 1 whats with
    | (filled, []) => [filled]
    | (filled, what :: rest) =>
      have _ := Group.length_rest h
      filled :: fillGroups (.start what) rest
termination_by whats.length

def getHandlerWhat (sort : SortSlice) (whats : List SelectorWhat) : List Group :=
  match sort.run whats with
  | [] => []
  | what :: rest => fillGroups (.start what) rest

/-- Every function of the group gets its own argument. -/
def Group.OwnArguments (w : Group) : Prop :=
  ∀ (i : Nat) (what : SelectorWhat), w.sel[i]? = some what →
    w.qry[i]?.map DigestSelector.argument = some what.selector.argument

namespace Group

def digests (w : Group) : List DigestSelector := w.sel.map SelectorWhat.selector

/-- A group with some digests: they are those of its functions without the stutter. -/
structure Filling (w : Group) (n : Nat) : Prop where
  ne_nil : w.sel ≠ []
  qry : w.qry = w.digests.destutter (· ≠ ·) ++
    List.replicate (tsValueCount - n) (DigestSelector.mk .unspecified 0)
  count : (w.digests.destutter (· ≠ ·)).length = n
  le : n ≤ tsValueCount
  /-- There was room for the last function. -/
  room : (w.digests.dropLast.destutter (· ≠ ·)).length < tsValueCount

lemma start_filling (what : SelectorWhat) : (start what).Filling 1 where
  ne_nil := cons_ne_nil _ _
  qry := rfl
  count := rfl
  le := by decide
  room := succ_pos _

namespace Filling

variable {w : Group} {n : Nat} (h : w.Filling n)

include h

lemma pos : 0 < n := by
  rw [← h.count, length_pos_iff, ne_eq, destutter_eq_nil, digests, map_eq_nil_iff]
  exact h.ne_nil

/-- The last digest that is asked for is that of the last function. -/
lemma last : w.qry[n - 1]? = w.digests.getLast? := by
  have hp := h.pos
  rw [h.qry, getElem?_append_left (by rw [h.count]; omega), ← h.count,
    ← getLast?_eq_getElem?, getLast?_destutter]

lemma digests_ne_nil : w.digests ≠ [] := fun hn => h.ne_nil (map_eq_nil_iff.1 hn)

omit h in
lemma digests_concat (w : Group) (what : SelectorWhat) (qry : List DigestSelector) :
    (Group.mk (w.sel ++ [what]) qry).digests = w.digests ++ [what.selector] := by
  simp [digests]

/-- A function with a digest of its own. -/
lemma append_new (hn : n < tsValueCount) (hne : w.qry[n - 1]? ≠ some what.selector) :
    (Group.mk (w.sel ++ [what]) (w.qry.set n what.selector)).Filling (n + 1) := by
  rw [h.last] at hne
  have hd := digests_concat w what (w.qry.set n what.selector)
  have hg : (w.digests ++ [what.selector]).destutter (· ≠ ·) =
      w.digests.destutter (· ≠ ·) ++ [what.selector] := by
    rw [destutter_concat h.digests_ne_nil, if_neg hne]
  refine ⟨by simp, ?_, ?_, hn, ?_⟩
  · obtain ⟨k, hk⟩ := Nat.exists_eq_add_of_lt hn
    have hr : tsValueCount - n = k + 1 := by omega
    have hl : tsValueCount - (n + 1) = k := by omega
    rw [hd, hg, h.qry, hr, hl, replicate_succ, ← h.count,
      set_append_right _ _ (le_rfl), Nat.sub_self, set_cons_zero,
      append_assoc, singleton_append]
  · rw [hd, hg, length_append, h.count, length_singleton]
  · rw [hd, dropLast_concat, h.count]
    exact hn

/-- A function with the digest of the one before. -/
lemma append_same (hn : n < tsValueCount) (heq : w.qry[n - 1]? = some what.selector) :
    (Group.mk (w.sel ++ [what]) w.qry).Filling n := by
  rw [h.last] at heq
  have hd := digests_concat w what w.qry
  have hk : (w.digests ++ [what.selector]).destutter (· ≠ ·) = w.digests.destutter (· ≠ ·) := by
    rw [destutter_concat h.digests_ne_nil, if_pos heq]
  refine ⟨by simp, ?_, ?_, h.le, ?_⟩
  · rw [hd, hk]
    exact h.qry
  · rw [hd, hk, h.count]
  · rw [hd, dropLast_concat, h.count]
    exact hn

/-- The inner loop ends at the end of the functions or with all digests used. -/
lemma fill (whats : List SelectorWhat) :
    ∃ k, (w.fill n whats).1.Filling k ∧ ((w.fill n whats).2 ≠ [] → k = tsValueCount) := by
  fun_induction Group.fill w n whats with
  | case1 w n => exact ⟨n, h, fun hne => absurd rfl hne⟩
  | case2 w n what whats hn hne ih => exact ih (h.append_new hn hne)
  | case3 w n what whats hn heq ih => exact ih (h.append_same hn (not_not.1 heq))
  | case4 w n what whats hn => exact ⟨n, h, fun _ => le_antisymm h.le (not_lt.1 hn)⟩

/-- The array of a group holds a digest with no argument behind the last one. -/
lemma argument_qry (i : Nat) : w.qry[i]?.map DigestSelector.argument = if i < tsValueCount then
        some (valueAt DigestSelector.argument 0 (w.digests.destutter (· ≠ ·)) i) else none := by
  have hc := h.count
  have hle := h.le
  rw [h.qry]
  rcases lt_or_ge i n with hi | hi
  · rw [getElem?_append_left (by omega), if_pos (by omega), valueAt, getElem?_eq_getElem (by omega)]
    rfl
  · rw [getElem?_append_right (by omega), hc, valueAt_of_le (by omega), getElem?_replicate]
    by_cases hlt : i < tsValueCount
    · rw [if_pos hlt, if_pos (by omega)]
      rfl
    · rw [if_neg hlt, if_neg (by omega)]
      rfl

lemma ownArguments_iff : w.OwnArguments ↔
      w.digests.length ≤ tsValueCount ∧ QuietStutter DigestSelector.argument 0 w.digests := by
  have he : w.digests.length = w.sel.length := length_map ..
  have hv {i : Nat} {what : SelectorWhat} (hi : w.sel[i]? = some what) :
      valueAt DigestSelector.argument 0 w.digests i = what.selector.argument := by
    rw [valueAt, digests, getElem?_map, hi]
    rfl
  rw [← destutter_values_iff]
  constructor
  · intro how
    have hf i (hi : i < w.sel.length) : i < tsValueCount ∧
        valueAt DigestSelector.argument 0 (w.digests.destutter (· ≠ ·)) i =
          valueAt DigestSelector.argument 0 w.digests i := by
      have ht := getElem?_eq_getElem hi
      have ha := how i _ ht
      rw [h.argument_qry] at ha
      split_ifs at ha with hlt
      exact ⟨hlt, (Option.some.inj ha).trans (hv ht).symm⟩
    refine ⟨?_, fun i hi => (hf i (he ▸ hi)).2⟩
    by_contra hl
    exact absurd (hf tsValueCount (by omega)).1 (lt_irrefl _)
  · rintro ⟨hs, hb⟩ i what hi
    have hlt : i < w.digests.length := he ▸ (List.getElem?_eq_some_iff.1 hi).1
    rw [h.argument_qry, if_pos (hlt.trans_le hs), hb i hlt, hv hi]

end Filling

end Group

/-- Two functions next to each other with one digest are a harm unless a group ends between
them, or they are in the last group and no argument is needed behind the first one. -/
def Apart (l : List DigestSelector) : Prop :=
  ∀ i, i + 1 < l.length → (i + 1) % tsValueCount ≠ 0 → l[i]? = l[i + 1]? →
    l.length ≤ tsValueCount * (i / tsValueCount + 1) ∧
      ∀ j, i < j → valueAt DigestSelector.argument 0 l j = 0

lemma apart_of_short {l : List DigestSelector} (hlen : l.length ≤ tsValueCount) :
    Apart l ↔ QuietStutter DigestSelector.argument 0 l := by
  have hc : tsValueCount = 7 := rfl
  constructor
  · intro h i hi heq
    have hin : (i + 1) % 7 ≠ 0 := by omega
    exact (h i hi hin heq).2
  · intro h i hi _ heq
    have hl : l.length ≤ 7 * (i / 7 + 1) := by omega
    exact ⟨hl, h i hi heq⟩

lemma isChain_ne_iff {α : Type*} (l : List α) :
    l.IsChain (· ≠ ·) ↔ ∀ i, i + 1 < l.length → l[i]? ≠ l[i + 1]? := by
  rw [isChain_iff_getElem]
  refine forall_congr' fun i => forall_congr' fun hi => ?_
  rw [getElem?_eq_getElem hi, getElem?_eq_getElem (lt_of_succ_lt hi), ne_eq,
    ne_eq, Option.some.injEq]

lemma apart_of_long {l : List DigestSelector} (hlen : tsValueCount < l.length) :
    Apart l ↔ (l.take tsValueCount).IsChain (· ≠ ·) ∧ Apart (l.drop tsValueCount) := by
  have hc : tsValueCount = 7 := rfl
  have ht i (hi : i < 7) : (l.take tsValueCount)[i]? = l[i]? := by
    rw [getElem?_take, hc, if_pos hi]
  have hd i : (l.drop tsValueCount)[i]? = l[i + 7]? := by
    rw [getElem?_drop, hc, add_comm]
  have hv j : valueAt DigestSelector.argument 0 (l.drop tsValueCount) j =
      valueAt DigestSelector.argument 0 l (j + 7) := by rw [valueAt, hd, valueAt]
  have hr : (l.drop tsValueCount).length = l.length - 7 := length_drop ..
  rw [isChain_ne_iff]
  constructor
  · intro h
    constructor
    · intro i hi heq
      rw [length_take] at hi
      rw [ht i (by omega), ht (i + 1) (by omega)] at heq
      have hl : l.length ≤ 7 * (i / 7 + 1) :=
        (h i (by omega) (show (i + 1) % 7 ≠ 0 by omega) heq).1
      omega
    · intro i hi hin heq
      rw [hd, hd] at heq
      have hin' : (i + 1) % 7 ≠ 0 := hin
      obtain ⟨hl, hq⟩ := h (i + 7) (by omega) (show (i + 7 + 1) % 7 ≠ 0 by omega)
        (by rw [heq, Nat.add_right_comm])
      have hls' : l.length ≤ 7 * ((i + 7) / 7 + 1) := hl
      refine ⟨show (l.drop tsValueCount).length ≤ 7 * (i / 7 + 1) by omega, fun j hj => ?_⟩
      rw [hv]
      exact hq (j + 7) (by omega)
  · rintro ⟨hf, h⟩ i hi hin heq
    have hin' : (i + 1) % 7 ≠ 0 := hin
    rcases lt_or_ge i 7 with hlt | hge
    · refine absurd ?_ (hf i (by rw [length_take]; omega))
      rw [ht i hlt, ht (i + 1) (by omega), heq]
    · obtain ⟨k, rfl⟩ := Nat.exists_eq_add_of_le' hge
      obtain ⟨hl, hq⟩ := h k (by omega) (show (k + 1) % 7 ≠ 0 by omega)
        (by rw [hd, hd, heq, Nat.add_right_comm])
      have hls' : (l.drop tsValueCount).length ≤ 7 * (k / 7 + 1) := hl
      refine ⟨show l.length ≤ 7 * ((k + 7) / 7 + 1) by omega, fun j hj => ?_⟩
      obtain ⟨m, rfl⟩ := Nat.exists_eq_add_of_le' (show 7 ≤ j by omega)
      rw [← hv]
      exact hq m (by omega)

/-- A group that is full in time takes seven functions, all with digests of their own. -/
lemma Group.Filling.isChain_of_full {w : Group} (h : w.Filling tsValueCount)
    (hlen : w.digests.length ≤ tsValueCount) :
    w.digests.length = tsValueCount ∧ w.digests.IsChain (· ≠ ·) := by
  have hs := destutter_sublist (· ≠ ·) w.digests
  have ha := hs.eq_of_length_le (by rw [h.count]; exact hlen)
  refine ⟨?_, ha ▸ isChain_destutter (· ≠ ·) w.digests⟩
  rw [← h.count, ha]

/-- A group that takes more than seven functions has a stutter in the first seven. -/
lemma Group.Filling.stutters {w : Group} {n : Nat} (h : w.Filling n)
    (hlen : tsValueCount < w.digests.length) : ¬(w.digests.take tsValueCount).IsChain (· ≠ ·) := by
  intro hc
  have hs : (w.digests.take tsValueCount).Sublist w.digests.dropLast := by
    rw [dropLast_eq_take]
    exact (take_prefix_take_left (by omega)).sublist
  have hle := hc.length_le_length_destutter_ne hs
  rw [length_take, min_eq_left hlen.le] at hle
  exact absurd h.room (not_lt.2 hle)

lemma fillGroups_eq (tail : Group) (whats : List SelectorWhat) : fillGroups tail whats =
      match tail.fill 1 whats with
      | (filled, []) => [filled]
      | (filled, what :: rest) => filled :: fillGroups (.start what) rest := by
  rw [fillGroups]
  split_ifs with hn
  · rw [hn, Group.fill]
  · split <;> simp_all

lemma fillGroups_sel (tail : Group) (whats : List SelectorWhat) :
    (fillGroups tail whats).flatMap Group.sel = tail.sel ++ whats := by
  induction hn : whats.length using Nat.strong_induction_on generalizing tail whats with
  | _ n ih =>
    have hs := tail.fill_sel 1 whats
    rw [fillGroups_eq]
    rcases hf : tail.fill 1 whats with ⟨filled, rest⟩
    rw [hf] at hs
    cases rest with
    | nil => simpa using hs
    | cons what rest =>
      rw [flatMap_cons, ih rest.length (hn ▸ Group.length_rest hf) _ _ rfl]
      exact hs

lemma fillGroups_ownArguments_iff (what : SelectorWhat) (whats : List SelectorWhat) :
    (∀ w ∈ fillGroups (.start what) whats, w.OwnArguments) ↔
      Apart ((what :: whats).map SelectorWhat.selector) := by
  induction hn : whats.length using Nat.strong_induction_on generalizing what whats with
  | _ n ih =>
    obtain ⟨k, hf, hu⟩ := (Group.start_filling what).fill whats
    have ha := (Group.start what).fill_sel 1 whats
    rw [fillGroups_eq]
    rcases hb : (Group.start what).fill 1 whats with ⟨filled, rest⟩
    rw [hb] at ha hf hu
    have hd : (what :: whats).map SelectorWhat.selector =
        filled.digests ++ rest.map SelectorWhat.selector := by
      rw [Group.digests, ← map_append]
      exact congrArg _ ha.symm
    rw [hd]
    rcases lt_or_ge tsValueCount filled.digests.length with hl | hs
    · have hm : filled ∈ (match (filled, rest) with
          | (filled, []) => [filled]
          | (filled, what :: rest) => filled :: fillGroups (.start what) rest) := by
        cases rest <;> simp
      refine iff_of_false (fun h => ?_) fun h => ?_
      · exact not_le.2 hl (hf.ownArguments_iff.1 (h filled hm)).1
      · have he : tsValueCount < (filled.digests ++ rest.map SelectorWhat.selector).length := by
          rw [length_append]
          omega
        have hc := ((apart_of_long he).1 h).1
        rw [take_append_of_le_length hl.le] at hc
        exact hf.stutters hl hc
    · cases rest with
      | nil =>
        rw [map_nil, append_nil, forall_mem_singleton, hf.ownArguments_iff,
          apart_of_short hs, and_iff_right hs]
      | cons next rest =>
        obtain rfl := hu (cons_ne_nil next rest)
        obtain ⟨hv, hc⟩ := hf.isChain_of_full hs
        have how : filled.OwnArguments := by
          rw [hf.ownArguments_iff]
          exact ⟨hs, fun i hi heq => absurd heq ((isChain_ne_iff _).1 hc i hi)⟩
        have he : tsValueCount <
            (filled.digests ++ (next :: rest).map SelectorWhat.selector).length := by
          rw [length_append, hv, map_cons, length_cons]
          omega
        rw [forall_mem_cons, and_iff_right how,
          ih rest.length (hn ▸ Group.length_rest hb) next rest rfl, apart_of_long he,
          take_left' hv, drop_left' hv, and_iff_right hc]

/-- All functions of the query are evaluated, in their order, and each of them with its own
argument exactly when their digests are apart. -/
theorem getHandlerWhat_ownArguments_iff (sort : SortSlice) (whats : List SelectorWhat) :
    (getHandlerWhat sort whats).flatMap Group.sel = sort.run whats ∧
      ((∀ w ∈ getHandlerWhat sort whats, w.OwnArguments) ↔
        Apart ((sort.run whats).map SelectorWhat.selector)) := by
  rw [getHandlerWhat]
  cases hs : sort.run whats with
  | nil =>
    refine ⟨rfl, iff_of_true (nofun) ?_⟩
    intro i hi
    simp at hi
  | cons what rest =>
    exact ⟨fillGroups_sel (.start what) rest, fillGroups_ownArguments_iff what rest⟩

instance : Std.Total fun a b : SelectorWhat => a.digest.number ≤ b.digest.number :=
  ⟨fun a b => le_total a.digest.number b.digest.number⟩

instance : IsTrans SelectorWhat fun a b => a.digest.number ≤ b.digest.number :=
  ⟨fun _ _ _ hab hb => le_trans hab hb⟩

/-- For short slices `sort.Slice` is an insertion sort. -/
def insertionSort : SortSlice where
  run := List.insertionSort fun a b => a.digest.number ≤ b.digest.number
  perm := List.perm_insertionSort _
  sorted := List.pairwise_insertionSort _

/-- The median of a query for a count, a rate and a median is asked for with the quantile zero. -/
theorem median_loses_argument : ∃ w ∈ getHandlerWhat insertionSort
        [{ digest := .count }, { digest := .countSec }, { digest := .p50 }],
      ¬w.OwnArguments := by
  have hg : getHandlerWhat insertionSort
      [{ digest := .count }, { digest := .countSec }, { digest := .p50 }] =
        [{ sel := [{ digest := .count }, { digest := .countSec }, { digest := .p50 }]
           qry := { what := .count } :: { what := .percentile, argument := 5 / 10 } ::
             replicate 5 {} }] := by
    decide +kernel
  refine ⟨_, hg ▸ mem_singleton_self _, fun h => ?_⟩
  exact absurd (h 2 { digest := .p50 } rfl) (by decide +kernel)

end HandlerWhat
