import Mathlib.Data.List.Perm.Basic
import Mathlib.Data.Nat.Basic
import Mathlib.Order.Basic

/-!
# Custody of tokens

Tokens are numbered as they come. A token is held, in memory, by someone or is kept in a
store under a handle, or both: whoever holds a stored token knows its handle. A token leaves
when its holder lets go of one that is not stored, or erases the stored one with it. Who holds
a token does not matter here, so the held ones are a list up to order.
-/

namespace Custody

open List Function
universe u v

variable {ι : Type u} {κ : Type v} {labels : List (Option ℕ)} {label : Option ℕ} {id : ι} {n : ℕ}

structure Token (κ : Type v) where
  number : ℕ
  key : κ

structure State (ι : Type u) (κ : Type v) where
  held : List (Token κ × Option ι) := []
  stored : ι → Option (Token κ) := fun _ => none
  next : ℕ := 0

namespace State

def Held (s : State ι κ) (n : ℕ) : Prop := n ∈ s.held.map fun x => x.1.number

def Stored (s : State ι κ) (n : ℕ) : Prop := ∃ id t, s.stored id = some t ∧ t.number = n

def Present (s : State ι κ) (n : ℕ) : Prop := s.Held n ∨ s.Stored n

end State

structure Sound (s : State ι κ) : Prop where
  nodup : (s.held.map fun x => x.1.number).Nodup
  held_lt : ∀ {x}, x ∈ s.held → x.1.number < s.next
  stored_lt : ∀ {id t}, s.stored id = some t → t.number < s.next
  saved : ∀ {t id}, (t, some id) ∈ s.held → s.stored id = some t
  unsaved : ∀ {t id t'}, (t, none) ∈ s.held → s.stored id = some t' → t'.number ≠ t.number
  inj : ∀ {id id' t t'}, s.stored id = some t → s.stored id' = some t' →
    t.number = t'.number → id = id'

lemma sound_empty : Sound ({} : State ι κ) := by
  constructor <;> simp

variable {s s' : State ι κ}

lemma Sound.of_perm (sound : Sound s) (held : s'.held.Perm s.held)
    (stored : s'.stored = s.stored) (next : s'.next = s.next) : Sound s' := by
  constructor
  · exact (held.map _).nodup_iff.2 sound.nodup
  · intro x hx
    rw [next]
    exact sound.held_lt (held.mem_iff.1 hx)
  · intro id t ht
    rw [next]
    exact sound.stored_lt (stored ▸ ht)
  · intro t id h
    rw [stored]
    exact sound.saved (held.mem_iff.1 h)
  · intro t id t' h ht'
    exact sound.unsaved (held.mem_iff.1 h) (stored ▸ ht')
  · intro id id' t t' ht ht'
    exact sound.inj (stored ▸ ht) (stored ▸ ht')

variable {rest : List (Token κ × Option ι)} {x : Token κ × Option ι}

lemma Sound.cons {s : State ι κ} (sound : Sound s) (held : s.held.Perm (x :: rest)) :
    x ∈ s.held ∧ (∀ y ∈ rest, y ∈ s.held) ∧ (x.1.number :: rest.map fun y => y.1.number).Nodup :=
  ⟨held.mem_iff.2 (.head _), fun _ hy => held.mem_iff.2 (mem_cons_of_mem x hy),
    (held.map fun y : Token κ × Option ι => y.1.number).nodup_iff.1 sound.nodup⟩

lemma Sound.arrive {s : State ι κ} (sound : Sound s) (k : κ) :
    Sound { s with held := (⟨s.next, k⟩, none) :: s.held, next := s.next + 1 } := by
  constructor
  · refine nodup_cons.2 ⟨fun h => ?_, sound.nodup⟩
    obtain ⟨x, hx, hn⟩ := mem_map.1 h
    exact Nat.ne_of_lt (sound.held_lt hx) hn
  · rintro x (_ | ⟨_, hx⟩)
    · exact Nat.lt_succ_self _
    · exact Nat.lt_succ_of_lt (sound.held_lt hx)
  · exact fun ht => Nat.lt_succ_of_lt (sound.stored_lt ht)
  · rintro t id (_ | ⟨_, h⟩)
    exact sound.saved h
  · rintro t id t' (_ | ⟨_, h⟩) ht'
    · exact Nat.ne_of_lt (sound.stored_lt ht')
    · exact sound.unsaved h ht'
  · exact sound.inj

/-- Fewer tokens, where those that are still held are still stored. -/
lemma Sound.less (sound : Sound s)
    (before : s.held.Perm (x :: s'.held)) (next : s'.next = s.next)
    (stored : ∀ {id t}, s'.stored id = some t → s.stored id = some t)
    (kept : ∀ {t id}, (t, some id) ∈ s'.held → s.stored id = some t → s'.stored id = some t) :
    Sound s' := by
  obtain ⟨-, hr, hn⟩ := sound.cons before
  constructor
  · exact hn.of_cons
  · exact fun {y} hy => next ▸ sound.held_lt (hr y hy)
  · exact fun ht => next ▸ sound.stored_lt (stored ht)
  · exact fun h => kept h (sound.saved (hr _ h))
  · exact fun h ht' => sound.unsaved (hr _ h) (stored ht')
  · exact fun ht ht' => sound.inj (stored ht) (stored ht')

lemma State.held_iff {s : State ι κ}
    (held : s.held.Perm (x :: rest)) :
    s.Held n ↔ n = x.1.number ∨ n ∈ rest.map fun y => y.1.number := by
  rw [State.Held, (held.map _).mem_iff, map_cons, mem_cons]

lemma State.stored_congr (stored : s'.stored = s.stored) :
    s'.Stored n ↔ s.Stored n := by
  simp only [State.Stored, stored]

section Steps

variable [DecidableEq ι] {s : State ι κ} {t : Token κ} {s' : State ι κ}

/-- The label is the number of the token that leaves. -/
inductive Step : State ι κ → Option ℕ → State ι κ → Prop
  | move {s s' : State ι κ} (held : s'.held.Perm s.held) (stored : s'.stored = s.stored)
      (next : s'.next = s.next) : Step s none s'
  | arrive {s s' : State ι κ} (k : κ) (held : s'.held.Perm ((⟨s.next, k⟩, none) :: s.held))
      (stored : s'.stored = s.stored) (next : s'.next = s.next + 1) : Step s none s'
  /-- A token is found in the store. -/
  | recall {s s' : State ι κ} (k : κ) {id : ι} (new : s.stored id = none)
      (held : s'.held.Perm ((⟨s.next, k⟩, some id) :: s.held))
      (stored : s'.stored = update s.stored id (some ⟨s.next, k⟩))
      (next : s'.next = s.next + 1) : Step s none s'
  | save {s s' : State ι κ} {t : Token κ} {id : ι} {rest : List (Token κ × Option ι)}
      (new : s.stored id = none) (before : s.held.Perm ((t, none) :: rest))
      (after : s'.held.Perm ((t, some id) :: rest))
      (stored : s'.stored = update s.stored id (some t)) (next : s'.next = s.next) :
      Step s none s'
  | drop {s s' : State ι κ} {t : Token κ} (before : s.held.Perm ((t, none) :: s'.held))
      (stored : s'.stored = s.stored) (next : s'.next = s.next) : Step s (some t.number) s'
  | erase {s s' : State ι κ} {t : Token κ} {id : ι}
      (before : s.held.Perm ((t, some id) :: s'.held))
      (stored : s'.stored = update s.stored id none) (next : s'.next = s.next) :
      Step s (some t.number) s'
  /-- The holder lets go of a token that stays in the store. -/
  | release {s s' : State ι κ} {t : Token κ} {id : ι}
      (before : s.held.Perm ((t, some id) :: s'.held)) (stored : s'.stored = s.stored)
      (next : s'.next = s.next) : Step s none s'

lemma update_eq_some {stored : ι → Option (Token κ)} {i : ι} {o : Option (Token κ)} :
    update stored id o i = some t ↔ i = id ∧ o = some t ∨ i ≠ id ∧ stored i = some t := by
  by_cases h : i = id
  · subst h
    simp
  · simp [h]

lemma Sound.save (sound : Sound s) (new : s.stored id = none)
    (before : s.held.Perm ((t, none) :: rest)) :
    Sound (⟨(t, some id) :: rest, update s.stored id (some t), s.next⟩ : State ι κ) := by
  obtain ⟨hm, hr, hd⟩ := sound.cons before
  have hlt := sound.held_lt hm
  constructor
  · exact hd
  · rintro x (_ | ⟨_, hx⟩)
    · exact hlt
    · exact sound.held_lt (hr x hx)
  · intro i t' ht'
    rcases update_eq_some.1 ht' with ⟨-, h⟩ | ⟨-, ht'⟩
    · cases h
      exact hlt
    · exact sound.stored_lt ht'
  · rintro t' i (_ | ⟨_, h⟩)
    · exact update_self ..
    · have hs := sound.saved (hr _ h)
      refine update_eq_some.2 (.inr ⟨?_, hs⟩)
      rintro rfl
      rw [new] at hs
      cases hs
  · rintro t' i t'' (_ | ⟨_, h⟩) ht''
    rcases update_eq_some.1 ht'' with ⟨-, heq⟩ | ⟨-, ht''⟩
    · cases heq
      exact fun heq => (nodup_cons.1 hd).1 (heq ▸ mem_map_of_mem h)
    · exact sound.unsaved (hr _ h) ht''
  · intro i i' t' t'' ht' ht'' hn
    rcases update_eq_some.1 ht' with ⟨rfl, h⟩ | ⟨-, hold⟩ <;>
      rcases update_eq_some.1 ht'' with ⟨rfl, h'⟩ | ⟨-, hold'⟩
    · rfl
    · cases h
      exact absurd hn.symm (sound.unsaved hm hold')
    · cases h'
      exact absurd hn (sound.unsaved hm hold)
    · exact sound.inj hold hold' hn

lemma Sound.erase (sound : Sound s) (before : s.held.Perm ((t, some id) :: s'.held))
    (stored : s'.stored = update s.stored id none) (next : s'.next = s.next) :
    Sound s' := by
  obtain ⟨hm, hr, hn⟩ := sound.cons before
  apply sound.less before next
  · intro i t' ht'
    rw [stored] at ht'
    rcases update_eq_some.1 ht' with ⟨-, h⟩ | ⟨-, ht'⟩
    · cases h
    · exact ht'
  · intro t' i h ht'
    rw [stored]
    refine update_eq_some.2 (.inr ⟨?_, ht'⟩)
    rintro rfl
    cases ht'.symm.trans (sound.saved hm)
    exact (nodup_cons.1 hn).1 (mem_map_of_mem h)

lemma Step.sound (step : Step s label s') (sound : Sound s) : Sound s' := by
  cases step with
  | move held stored next => exact sound.of_perm held stored next
  | arrive k held stored next => exact (sound.arrive k).of_perm held stored next
  | «recall» k new held stored next =>
    exact ((sound.arrive k).save new (.refl _)).of_perm held stored next
  | save new before after stored next => exact (sound.save new before).of_perm after stored next
  | drop before stored next | release before stored next =>
    exact sound.less before next (stored ▸ ·) fun _ h => stored ▸ h
  | erase before stored next => exact sound.erase before stored next

lemma Step.perm {t t' : State ι κ} (step : Step s label s') (held : t.held.Perm s.held)
    (held' : t'.held.Perm s'.held) (stored : t.stored = s.stored) (stored' : t'.stored = s'.stored)
    (next : t.next = s.next) (next' : t'.next = s'.next) : Step t label t' := by
  cases step with
  | move h hs hn =>
    exact .move ((held'.trans h).trans held.symm) (stored'.trans (hs.trans stored.symm))
      (next'.trans (hn.trans next.symm))
  | arrive k h hs hn =>
    refine .arrive k ?_ (stored'.trans (hs.trans stored.symm)) (by omega)
    rw [next]
    exact (held'.trans h).trans (held.symm.cons _)
  | «recall» k new h hs hn =>
    refine .recall k (stored ▸ new) ?_ ?_ (by omega)
    · rw [next]
      exact (held'.trans h).trans (held.symm.cons _)
    · rw [stored', hs, stored, next]
  | save new before after hs hn =>
    exact .save (stored ▸ new) (held.trans before) (held'.trans after)
      (by rw [stored', hs, stored]) (by omega)
  | drop before hs hn =>
    exact .drop ((held.trans before).trans (held'.symm.cons _))
      (stored'.trans (hs.trans stored.symm)) (by omega)
  | erase before hs hn =>
    exact .erase ((held.trans before).trans (held'.symm.cons _)) (by rw [stored', hs, stored])
      (by omega)
  | release before hs hn =>
    exact .release ((held.trans before).trans (held'.symm.cons _))
      (stored'.trans (hs.trans stored.symm)) (by omega)

lemma Step.next_le (step : Step s label s') : s.next ≤ s'.next := by
  cases step <;> omega

lemma stored_insert (new : s.stored id = none) (stored : s'.stored = update s.stored id (some t)) :
    s'.Stored n ↔ t.number = n ∨ s.Stored n := by
  constructor
  · rintro ⟨i, t', ht', hn⟩
    rw [stored] at ht'
    rcases update_eq_some.1 ht' with ⟨-, h⟩ | ⟨-, hold⟩
    · cases h
      exact .inl hn
    · exact .inr ⟨i, t', hold, hn⟩
  · rintro (hn | ⟨i, t', ht', hn⟩)
    · exact ⟨id, t, by rw [stored, update_self], hn⟩
    · refine ⟨i, t', ?_, hn⟩
      rw [stored]
      refine update_eq_some.2 (.inr ⟨?_, ht'⟩)
      rintro rfl
      rw [new] at ht'
      cases ht'

lemma Sound.stored_erase (sound : Sound s) (ht : s.stored id = some t)
    (stored : s'.stored = update s.stored id none) :
    s'.Stored n ↔ s.Stored n ∧ n ≠ t.number := by
  constructor
  · rintro ⟨i, t', ht', rfl⟩
    rw [stored] at ht'
    rcases update_eq_some.1 ht' with ⟨-, h⟩ | ⟨hne, hold⟩
    · cases h
    · exact ⟨⟨i, t', hold, rfl⟩, fun h => hne (sound.inj hold ht h)⟩
  · rintro ⟨⟨i, t', ht', rfl⟩, hne⟩
    refine ⟨i, t', ?_, rfl⟩
    rw [stored]
    refine update_eq_some.2 (.inr ⟨?_, ht'⟩)
    rintro rfl
    cases ht.symm.trans ht'
    exact hne rfl

/-- A token that was there is there after the step, unless it is the one that leaves. -/
lemma Step.present_iff (step : Step s label s') (sound : Sound s) (old : n < s.next) :
    s'.Present n ↔ s.Present n ∧ label ≠ some n := by
  cases step with
  | move held stored next =>
    have hh : s'.Held n ↔ s.Held n := (held.map _).mem_iff
    simp [State.Present, hh, State.stored_congr stored]
  | arrive k held stored next =>
    have hh : s'.Held n ↔ s.Held n := (State.held_iff held).trans (or_iff_right old.ne)
    simp [State.Present, hh, State.stored_congr stored]
  | «recall» k new held stored next =>
    have hh : s'.Held n ↔ s.Held n := (State.held_iff held).trans (or_iff_right old.ne)
    simp [State.Present, hh, stored_insert new stored, old.ne']
  | save new before after stored next =>
    simp only [State.Present, State.held_iff before, State.held_iff after, stored_insert new stored]
    tauto
  | @drop _ t before stored next =>
    obtain ⟨hm, -, hn⟩ := sound.cons before
    have hg : ¬s'.Held t.number := (nodup_cons.1 hn).1
    have hv : ¬s.Stored t.number := fun ⟨_, _, ht', ha⟩ =>
      sound.unsaved hm ht' ha
    simp only [State.Present, State.held_iff before, State.stored_congr stored, ne_eq,
      Option.some.injEq]
    constructor
    · rintro (h | h)
      · exact ⟨.inl (.inr h), fun heq => hg (heq ▸ h)⟩
      · exact ⟨.inr h, fun heq => hv (heq ▸ h)⟩
    · rintro ⟨(rfl | h) | h, hne⟩
      · exact absurd rfl hne
      · exact .inl h
      · exact .inr h
  | @erase _ t id before stored next =>
    obtain ⟨hm, -, hn⟩ := sound.cons before
    have hg : ¬s'.Held t.number := (nodup_cons.1 hn).1
    simp only [State.Present, State.held_iff before,
      sound.stored_erase (sound.saved hm) stored, ne_eq, Option.some.injEq]
    constructor
    · rintro (h | ⟨h, hne⟩)
      · exact ⟨.inl (.inr h), fun heq => hg (heq ▸ h)⟩
      · exact ⟨.inr h, Ne.symm hne⟩
    · rintro ⟨(rfl | h) | h, hne⟩
      · exact absurd rfl hne
      · exact .inl h
      · exact .inr ⟨h, Ne.symm hne⟩
  | @release _ t id before stored next =>
    obtain ⟨hm, -, -⟩ := sound.cons before
    have hs : s.Stored t.number := ⟨id, t, sound.saved hm, rfl⟩
    simp only [State.Present, State.held_iff before, State.stored_congr stored, ne_eq,
      reduceCtorEq, not_false_eq_true, and_true]
    constructor
    · rintro (h | h)
      · exact .inl (.inr h)
      · exact .inr h
    · rintro ((rfl | h) | h)
      · exact .inr hs
      · exact .inl h
      · exact .inr h

lemma Step.present_new (step : Step s label s') (new : s.next ≤ n) (lt : n < s'.next) :
    s'.Present n := by
  cases step with
  | arrive k held stored next | «recall» k new held stored next =>
    exact .inl ((State.held_iff held).2 (.inl (by simp only; omega)))
  | _ => omega

lemma Step.left_lt (step : Step s (some n) s') (sound : Sound s) : n < s.next ∧ s.Present n := by
  cases step with
  | drop before | erase before =>
    have hm := (sound.cons before).1
    exact ⟨sound.held_lt hm, .inl (mem_map.2 ⟨_, hm, rfl⟩)⟩

inductive Run : State ι κ → List (Option ℕ) → State ι κ → Prop
  | nil (s : State ι κ) : Run s [] s
  | cons {s s' s'' : State ι κ} {label : Option ℕ} {labels : List (Option ℕ)}
      (first : Step s label s') (rest : Run s' labels s'') : Run s (label :: labels) s''

lemma Run.append {s'' : State ι κ} {xs ys : List (Option ℕ)} (run : Run s xs s')
    (rest : Run s' ys s'') : Run s (xs ++ ys) s'' := by
  induction run with
  | nil => exact rest
  | cons first _ ih => exact .cons first (ih rest)

/-- A token that is gone does not come back and does not leave again. -/
lemma Run.absent (run : Run s labels s') (sound : Sound s) (old : n < s.next)
    (gone : ¬ s.Present n) :
    ¬ s'.Present n ∧ some n ∉ labels := by
  induction run with
  | nil => exact ⟨gone, not_mem_nil⟩
  | cons first _ ih =>
    have hg := mt (first.present_iff sound old).1 fun h => gone h.1
    obtain ⟨hl, hb⟩ := ih (first.sound sound) (old.trans_le first.next_le) hg
    refine ⟨hl, fun h => ?_⟩
    rcases mem_cons.1 h with rfl | h
    · exact gone (first.left_lt sound).2
    · exact hb h

/-- Every token that ever came is there and never left, or left once and is not there. -/
theorem Run.present_or_left (run : Run s labels s') (sound : Sound s) (lt : n < s'.next)
    (came : s.next ≤ n ∨ s.Present n) :
    s'.Present n ∧ some n ∉ labels ∨ ¬ s'.Present n ∧ labels.count (some n) = 1 := by
  induction run with
  | nil => exact .inl ⟨came.resolve_left (by omega), not_mem_nil⟩
  | @cons s s₁ _ label labels first rest ih =>
    by_cases hf : label = some n
    · subst hf
      obtain ⟨hold, -⟩ := first.left_lt sound
      have hg : ¬s₁.Present n := fun h => ((first.present_iff sound hold).1 h).2 rfl
      obtain ⟨hl, hb⟩ := rest.absent (first.sound sound) (hold.trans_le first.next_le) hg
      refine .inr ⟨hl, ?_⟩
      rw [count_cons_self, count_eq_zero.2 hb]
    · have hc : s₁.next ≤ n ∨ s₁.Present n := by
        rcases lt_or_ge n s.next with hold | hn
        · exact .inr ((first.present_iff sound hold).2 ⟨came.resolve_left (by omega), hf⟩)
        · rcases le_or_gt s₁.next n with h | h
          · exact .inl h
          · exact .inr (first.present_new hn h)
      apply (ih (first.sound sound) lt hc).imp
      · exact fun ⟨hl, hb⟩ => ⟨hl, fun h =>
          (mem_cons.1 h).elim (fun h => hf h.symm) hb⟩
      · exact fun ⟨hl, hb⟩ => ⟨hl, by rw [count_cons_of_ne hf, hb]⟩

end Steps

end Custody
