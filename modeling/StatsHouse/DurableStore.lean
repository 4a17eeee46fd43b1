import Mathlib.Data.Finset.Card

/-!
# A durable store with handles

Values are put into a store that is restarted from time to time. A value put gets a
number, which is its identity for ever, and a handle, which is good until the value is
erased or the store restarted. After a restart the surviving values are returned one by
one, each with a new handle. `Ledger` is that store without any representation, `Durable`
says what its histories look like to a client.
-/

namespace DurableStore

open List Function
universe u v w

variable {ι : Type u} {κ : Type v} {β : Type w} {b : β} {id : ι} {n : ℕ}

inductive Event (ι : Type u) (κ : Type v) (β : Type w) where
  /-- Value `b` was put; it is value number `n`. -/
  | put (n : ℕ) (id : ι) (b : β)
  | refused
  /-- After a restart, value number `n`, of key `k`, was returned with a new handle. -/
  | returned (n : ℕ) (id : ι) (k : κ)
  /-- There was nothing left to return. -/
  | drained
  | fetched (id : ι) (k : κ) (r : Option β)
  | erased (id : ι)
  | restarted

namespace Event

def returns (n : ℕ) : Event ι κ β → Bool
  | .returned m _ _ => m == n
  | _ => false

def isReturned : Event ι κ β → Bool
  | .returned _ _ _ => true
  | _ => false

def isPut : Event ι κ β → Bool
  | .put _ _ _ => true
  | _ => false

/-- The event makes `id` a handle of value number `n`. -/
def Gives (id : ι) (n : ℕ) : Event ι κ β → Prop
  | .put m i _ => i = id ∧ m = n
  | .returned m i _ => i = id ∧ m = n
  | _ => False

end Event

/-- No event of the history takes `id` away from the value it stands for. -/
def Keeps (id : ι) (history : List (Event ι κ β)) : Prop :=
  Event.restarted ∉ history ∧ Event.erased id ∉ history

lemma keeps_cons {e : Event ι κ β} {history : List (Event ι κ β)} :
    Keeps id (e :: history) ↔ (e ≠ .restarted ∧ e ≠ .erased id) ∧ Keeps id history := by
  simp only [Keeps, mem_cons]
  tauto

/-- After the history, `id` is a handle of value number `n`. -/
def Holds (history : List (Event ι κ β)) (id : ι) (n : ℕ) : Prop :=
  ∃ before e after, history = before ++ e :: after ∧ e.Gives id n ∧ Keeps id after

def Erased (history : List (Event ι κ β)) (n : ℕ) : Prop :=
  ∃ before id after, history = before ++ .erased id :: after ∧ Holds before id n

lemma erased_append {history rest : List (Event ι κ β)} (h : Erased history n) :
    Erased (history ++ rest) n := by
  obtain ⟨before, id, after, rfl, holds⟩ := h
  exact ⟨before, id, after ++ rest, by simp, holds⟩

def Put (history : List (Event ι κ β)) (n : ℕ) (b : β) : Prop := ∃ id, Event.put n id b ∈ history

/-- What a client can rely on, along one history of the store. -/
structure Durable (key : β → κ) (history : List (Event ι κ β)) : Prop where
  /-- A number stands for one put. -/
  numbered : ∀ {before after n id b}, history = before ++ .put n id b :: after →
    ∀ b', ¬ Put before n b'
  /-- A new handle is not the handle of another value. -/
  distinct : ∀ {before e after id n}, history = before ++ e :: after → e.Gives id n →
    ∀ m, ¬ Holds before id m
  fetched : ∀ {before after id k r n b}, history = before ++ .fetched id k r :: after →
    Holds before id n → Put before n b → (key b = k → r = some b) ∧ (key b ≠ k → r = none)
  returned : ∀ {before after n id k}, history = before ++ .returned n id k :: after →
    ∃ b, Put before n b ∧ key b = k
  once : ∀ {before session after n}, history = before ++ session ++ after →
    Event.restarted ∉ session → session.countP (Event.returns n) ≤ 1
  /-- When nothing is left to return, every value that survived the restart was returned. -/
  all : ∀ {before session after n b},
    history = before ++ .restarted :: session ++ .drained :: after →
    Event.restarted ∉ session → Put before n b → ¬ Erased before n →
    session.countP (Event.returns n) = 1
  /-- So the store is drained after as many returns as there were puts. -/
  bounded : ∀ {before session after}, history = before ++ .restarted :: session ++ after →
    Event.restarted ∉ session →
    session.countP Event.isReturned ≤ before.countP Event.isPut
  gone : ∀ {before after n}, history = before ++ after → Erased before n →
    after.countP (Event.returns n) = 0

structure Ledger (ι : Type u) (β : Type w) where
  /-- Every value ever put, in the order of the numbers. -/
  values : List β := []
  live : Finset ℕ := ∅
  /-- The live values not yet returned since the restart. -/
  backlog : Finset ℕ := ∅
  known : ι → Option ℕ := fun _ => none

/-- A live value waits to be returned or is known by exactly one handle. -/
structure Sound (l : Ledger ι β) : Prop where
  live_lt : ∀ {n}, n ∈ l.live → n < l.values.length
  backlog_live : l.backlog ⊆ l.live
  known_live : ∀ {id n}, l.known id = some n → n ∈ l.live
  known_returned : ∀ {id n}, l.known id = some n → n ∉ l.backlog
  known_inj : ∀ {id id' n}, l.known id = some n → l.known id' = some n → id = id'
  covered : ∀ {n}, n ∈ l.live → n ∈ l.backlog ∨ ∃ id, l.known id = some n

lemma sound_empty : Sound ({} : Ledger ι β) := by
  constructor <;> simp

section Ledger

variable [DecidableEq ι] [DecidableEq κ] (key : β → κ) {e : Event ι κ β} {l l' : Ledger ι β}
  {history : List (Event ι κ β)}

inductive Step : Ledger ι β → Event ι κ β → Ledger ι β → Prop
  | put (l : Ledger ι β) {id : ι} (b : β) (new : l.known id = none) :
      Step l (.put l.values.length id b)
        { l with values := l.values ++ [b], live := insert l.values.length l.live,
                 known := update l.known id (some l.values.length) }
  | refused (l : Ledger ι β) : Step l .refused l
  | returned (l : Ledger ι β) {n : ℕ} {id : ι} {b : β} (waits : n ∈ l.backlog)
      (value : l.values[n]? = some b) (new : l.known id = none) :
      Step l (.returned n id (key b))
        { l with backlog := l.backlog.erase n, known := update l.known id (some n) }
  | drained (l : Ledger ι β) (empty : l.backlog = ∅) : Step l .drained l
  | fetched (l : Ledger ι β) {id : ι} {k : κ} {n : ℕ} {b : β} (knows : l.known id = some n)
      (value : l.values[n]? = some b) :
      Step l (.fetched id k (if key b = k then some b else none)) l
  | unknown (l : Ledger ι β) {id : ι} (k : κ) (new : l.known id = none) :
      Step l (.fetched id k none) l
  | erased (l : Ledger ι β) {id : ι} {n : ℕ} (knows : l.known id = some n) : Step l (.erased id)
        { l with live := l.live.erase n, known := update l.known id none }
  | forgotten (l : Ledger ι β) {id : ι} (new : l.known id = none) : Step l (.erased id) l
  | restarted (l : Ledger ι β) :
      Step l .restarted { l with backlog := l.live, known := fun _ => none }

inductive Run : Ledger ι β → List (Event ι κ β) → Ledger ι β → Prop
  | nil (l : Ledger ι β) : Run l [] l
  | cons {l l' l'' : Ledger ι β} {e : Event ι κ β} {history : List (Event ι κ β)}
      (first : Step key l e l') (rest : Run l' history l'') : Run l (e :: history) l''

variable {key}

lemma Step.sound (step : Step key l e l') (sound : Sound l) : Sound l' := by
  cases step with
  | refused | drained | fetched | unknown | forgotten => exact sound
  | put b new =>
    have hf : ∀ {id}, l.known id ≠ some l.values.length := fun h =>
      absurd (sound.live_lt (sound.known_live h)) (lt_irrefl _)
    have hw : l.values.length ∉ l.backlog := fun h =>
      absurd (sound.live_lt (sound.backlog_live h)) (lt_irrefl _)
    constructor
    · intro n hn
      rw [length_append, length_singleton]
      rcases Finset.mem_insert.1 hn with rfl | hn
      · omega
      · have := sound.live_lt hn
        omega
    · exact fun n hn => Finset.mem_insert_of_mem (sound.backlog_live hn)
    · intro i n hi
      grind [sound.known_live]
    · intro i n hi
      grind [sound.known_returned]
    · intro i i' n hi hi'
      grind [sound.known_inj]
    · intro n hn
      rcases Finset.mem_insert.1 hn with rfl | hn
      · exact .inr ⟨_, update_self ..⟩
      · refine (sound.covered hn).imp_right fun ⟨i, hi⟩ => ⟨i, ?_⟩
        grind
  | @returned n id b waits value new =>
    constructor
    · exact sound.live_lt
    · exact fun m hm => sound.backlog_live (Finset.mem_of_mem_erase hm)
    · intro i m hi
      have := sound.backlog_live waits
      grind [sound.known_live]
    · intro i m hi
      grind [sound.known_returned]
    · intro i i' m hi hi'
      grind [sound.known_inj, sound.known_returned]
    · intro m hm
      by_cases ha : m = n
      · exact .inr ⟨id, ha ▸ update_self ..⟩
      · apply (sound.covered hm).imp (fun h => Finset.mem_erase.2 ⟨ha, h⟩)
        rintro ⟨i, hi⟩
        refine ⟨i, ?_⟩
        grind
  | @erased id n knows =>
    constructor
    · exact fun hm => sound.live_lt (Finset.mem_of_mem_erase hm)
    · intro m hm
      have hne : m ≠ n := by
        rintro rfl
        exact sound.known_returned knows hm
      exact Finset.mem_erase.2 ⟨hne, sound.backlog_live hm⟩
    · intro i m hi
      grind [sound.known_live, sound.known_inj]
    · intro i m hi
      grind [sound.known_returned]
    · intro i i' m hi hi'
      grind [sound.known_inj]
    · intro m hm
      obtain ⟨hne, hm⟩ := Finset.mem_erase.1 hm
      refine (sound.covered hm).imp_right fun ⟨i, hi⟩ => ⟨i, ?_⟩
      grind
  | restarted =>
    constructor
    · exact sound.live_lt
    · exact fun _ hn => hn
    · exact fun h => nomatch h
    · exact fun h => nomatch h
    · exact fun h => nomatch h
    · exact fun hn => .inl hn

lemma Run.sound (run : Run key l history l') (sound : Sound l) : Sound l' := by
  induction run with
  | nil => exact sound
  | cons first _ ih => exact ih (first.sound sound)

lemma Run.split {l'' : Ledger ι β} {xs ys : List (Event ι κ β)} (run : Run key l (xs ++ ys) l'') :
    ∃ l', Run key l xs l' ∧ Run key l' ys l'' := by
  induction xs generalizing l with
  | nil => exact ⟨l, .nil l, run⟩
  | cons x xs ih =>
    cases run with
    | cons first rest =>
      obtain ⟨l', hx, hy⟩ := ih rest
      exact ⟨l', .cons first hx, hy⟩

lemma Run.split_cons {l'' : Ledger ι β} {xs ys : List (Event ι κ β)}
    (run : Run key l (xs ++ e :: ys) l'') :
    ∃ l₁ l₂, Run key l xs l₁ ∧ Step key l₁ e l₂ ∧ Run key l₂ ys l'' := by
  obtain ⟨l₁, hx, hy⟩ := run.split
  cases hy with
  | cons first rest => exact ⟨l₁, _, hx, first, rest⟩

/-- What a step puts is exactly what it adds to the values. -/
lemma Step.getElem_values (step : Step key l e l') :
    l'.values[n]? = some b ↔ l.values[n]? = some b ∨ ∃ id, e = .put n id b := by
  cases step with
  | @put id c new =>
    rcases lt_trichotomy n l.values.length with h | rfl | h
    · rw [getElem?_append_left h]
      refine ⟨.inl, fun h' => h'.resolve_right ?_⟩
      rintro ⟨i, heq⟩
      injection heq with hn
      omega
    · simp
    · simp only [getElem?_append_right h.le, getElem?_eq_none h.le]
      rw [getElem?_eq_none (by simp only [length_singleton]; omega)]
      refine ⟨nofun, fun h' => ?_⟩
      obtain ⟨i, heq⟩ := h'.resolve_left nofun
      injection heq with hn
      omega
  | _ => simp

lemma Run.getElem_values (run : Run key l history l') :
    l'.values[n]? = some b ↔ l.values[n]? = some b ∨ Put history n b := by
  induction run with
  | nil => simp [Put]
  | cons first _ ih =>
    rw [ih, first.getElem_values, or_assoc]
    simp [Put, exists_or, eq_comm]

lemma Run.length_values (run : Run key l history l') :
    l'.values.length = l.values.length + history.countP Event.isPut := by
  induction run with
  | nil => rfl
  | cons first _ ih =>
    rw [ih, countP_cons]
    cases first with
    | put =>
      simp only [length_append, length_singleton, Event.isPut, if_true]
      omega
    | _ => rfl

lemma Step.knows (step : Step key l e l') (gives : e.Gives id n) : l'.known id = some n := by
  cases step with
  | put | returned =>
    obtain ⟨rfl, rfl⟩ := gives
    exact update_self ..
  | _ => exact gives.elim

lemma Step.new (step : Step key l e l') (gives : e.Gives id n) : l.known id = none := by
  cases step with
  | put _ new | returned _ _ new =>
    obtain ⟨rfl, rfl⟩ := gives
    exact new
  | _ => exact gives.elim

/-- A handle comes from the step that gives it and goes at a restart or its own erasure. -/
lemma Step.known_iff (step : Step key l e l') : l'.known id = some n ↔
      e.Gives id n ∨ l.known id = some n ∧ e ≠ .restarted ∧ e ≠ .erased id := by
  constructor
  · intro h
    cases step with
    | refused | drained | fetched | unknown => exact .inr ⟨h, nofun, nofun⟩
    | @put i b new | @returned m i b waits value new =>
      by_cases hi : id = i
      · subst hi
        simp only [update_self, Option.some.injEq] at h
        exact .inl ⟨rfl, h⟩
      · simp only [update_of_ne hi] at h
        exact .inr ⟨h, nofun, nofun⟩
    | @erased i m knows =>
      by_cases hi : id = i
      · subst hi
        simp only [update_self] at h
        cases h
      · simp only [update_of_ne hi] at h
        exact .inr ⟨h, nofun, fun heq => hi (Event.erased.inj heq).symm⟩
    | @forgotten i new =>
      refine .inr ⟨h, nofun, fun heq => ?_⟩
      cases heq
      rw [new] at h
      cases h
    | restarted => cases h
  · rintro (gives | ⟨h, hr, her⟩)
    · exact step.knows gives
    · cases step with
      | refused | drained | fetched | unknown | forgotten => exact h
      | put _ new | returned _ _ new =>
        refine (update_of_ne ?_ _ _).trans h
        rintro rfl
        rw [new] at h
        cases h
      | erased =>
        refine (update_of_ne ?_ _ _).trans h
        rintro rfl
        exact her rfl
      | restarted => exact absurd rfl hr

lemma Run.known_iff (run : Run key l history l') :
    l'.known id = some n ↔ Holds history id n ∨ l.known id = some n ∧ Keeps id history := by
  induction run with
  | nil => simp [Holds, Keeps]
  | @cons l _ _ e history first _ ih =>
    rw [ih, first.known_iff]
    constructor
    · rintro (⟨before, e', after, rfl, h⟩ | ⟨gives | ⟨h, hr, he⟩, hk⟩)
      · exact .inl ⟨e :: before, e', after, rfl, h⟩
      · exact .inl ⟨[], e, history, rfl, gives, hk⟩
      · exact .inr ⟨h, keeps_cons.2 ⟨⟨hr, he⟩, hk⟩⟩
    · rintro (⟨before, e', after, heq, gives, hk⟩ | ⟨h, hk⟩)
      · cases before with
        | nil =>
          obtain ⟨rfl, rfl⟩ := cons.inj heq
          exact .inr ⟨.inl gives, hk⟩
        | cons x before =>
          obtain ⟨rfl, rfl⟩ := cons.inj heq
          exact .inl ⟨before, e', after, rfl, gives, hk⟩
      · obtain ⟨hs, hk⟩ := keeps_cons.1 hk
        exact .inr ⟨.inr ⟨h, hs⟩, hk⟩

/-- A number in use never comes back to life. -/
lemma Step.not_live (step : Step key l e l') (used : n < l.values.length) (dead : n ∉ l.live) :
    n < l'.values.length ∧ n ∉ l'.live := by
  cases step with
  | put =>
    refine ⟨?_, fun h => ?_⟩
    · rw [length_append]
      omega
    · rcases Finset.mem_insert.1 h with rfl | h
      · omega
      · exact dead h
  | erased => exact ⟨used, fun h => dead (Finset.mem_of_mem_erase h)⟩
  | _ => exact ⟨used, dead⟩

lemma Run.not_live (run : Run key l history l') (used : n < l.values.length) (dead : n ∉ l.live) :
    n ∉ l'.live := by
  induction run with
  | nil => exact dead
  | cons first _ ih =>
    obtain ⟨used', dead'⟩ := first.not_live used dead
    exact ih used' dead'

/-- A value leaves the live ones only by the erasure of its handle. -/
lemma Step.live (step : Step key l e l') (live : n ∈ l.live) :
    n ∈ l'.live ∨ ∃ id, e = .erased id ∧ l.known id = some n := by
  cases step with
  | put => exact .inl (Finset.mem_insert_of_mem live)
  | @erased id m knows =>
    by_cases hm : n = m
    · exact .inr ⟨id, rfl, hm ▸ knows⟩
    · exact .inl (Finset.mem_erase.2 ⟨hm, live⟩)
  | _ => exact .inl live

lemma Step.put_live (step : Step key l (.put n id b) l') : n ∈ l'.live := by
  cases step
  exact Finset.mem_insert_self ..

/-- A value put into an empty store is live until it is erased. -/
lemma Run.live (run : Run key {} history l) (put : Put history n b) (kept : ¬ Erased history n) :
    n ∈ l.live := by
  induction history using reverseRecOn generalizing l with
  | nil => simp [Put] at put
  | append_singleton history e ih =>
    obtain ⟨l₁, l₂, hr, hs, he⟩ := run.split_cons
    cases he
    obtain ⟨id, hp⟩ := put
    rcases mem_append.1 hp with hp | hp
    · have hl := ih hr ⟨id, hp⟩ fun h => kept (erased_append h)
      apply (hs.live hl).resolve_right
      rintro ⟨i, rfl, hi⟩
      exact kept ⟨history, i, [], rfl, (hr.known_iff.1 hi).resolve_right nofun⟩
    · obtain rfl := mem_singleton.1 hp
      exact hs.put_live

lemma Run.erased (run : Run key {} history l) (gone : Erased history n) :
    n < l.values.length ∧ n ∉ l.live := by
  obtain ⟨before, id, after, rfl, holds⟩ := gone
  obtain ⟨l₁, l₂, hb, hp, ha⟩ := run.split_cons
  have hk := hb.known_iff.2 (.inl holds)
  have hs := hb.sound sound_empty
  have hu := hs.live_lt (hs.known_live hk)
  have hd : n < l₂.values.length ∧ n ∉ l₂.live := by
    cases hp with
    | erased knows =>
      rw [hk, Option.some.injEq] at knows
      exact ⟨hu, knows ▸ Finset.notMem_erase n l₁.live⟩
    | forgotten new =>
      rw [hk] at new
      cases new
  refine ⟨?_, ha.not_live hd.1 hd.2⟩
  rw [ha.length_values]
  omega

/-- Until a restart a value is returned as often as it leaves the backlog. -/
lemma Step.count_returns (step : Step key l e l') (stays : e ≠ .restarted) (n : ℕ) :
    (if e.returns n then 1 else 0) + (if n ∈ l'.backlog then 1 else 0) =
      if n ∈ l.backlog then 1 else 0 := by
  cases step with
  | @returned m id b waits value new =>
    by_cases hm : m = n
    · subst hm
      simp [Event.returns, waits]
    · have hne := Ne.symm hm
      simp [Event.returns, hm, hne]
  | restarted => exact absurd rfl stays
  | _ => simp [Event.returns]

lemma Run.countP_returns (run : Run key l history l') (stays : Event.restarted ∉ history) (n : ℕ) :
    history.countP (Event.returns n) + (if n ∈ l'.backlog then 1 else 0) =
      if n ∈ l.backlog then 1 else 0 := by
  induction run with
  | nil => simp
  | cons first _ ih =>
    obtain ⟨hne, hr⟩ := not_or.1 (mt mem_cons.2 stays)
    rw [countP_cons, ← first.count_returns (Ne.symm hne) n, ← ih hr]
    omega

lemma Run.countP_isReturned (run : Run key l history l') (stays : Event.restarted ∉ history) :
    history.countP Event.isReturned + l'.backlog.card = l.backlog.card := by
  induction run with
  | nil => simp
  | @cons l _ _ e history first _ ih =>
    obtain ⟨hne, hr⟩ := not_or.1 (mt mem_cons.2 stays)
    have hi := ih hr
    rw [countP_cons]
    cases first with
    | returned waits =>
      have := Finset.card_erase_add_one waits
      simp only [Event.isReturned, if_true] at hi ⊢
      omega
    | restarted => exact absurd rfl hne
    | _ => simpa [Event.isReturned] using hi

lemma Step.mem_backlog {k : κ} (step : Step key l (.returned n id k) l') : n ∈ l.backlog := by
  cases step
  assumption

/-- Every history of a ledger that starts empty. -/
theorem Run.durable (run : Run key {} history l) : Durable key history := by
  constructor
  · rintro before after n id b rfl b' ht
    obtain ⟨l₁, l₂, hb, hp, -⟩ := run.split_cons
    have hv := hb.getElem_values.2 (.inr ht)
    cases hp
    simp at hv
  · rintro before e after id n rfl gives m holds
    obtain ⟨l₁, l₂, hb, hp, -⟩ := run.split_cons
    have ha := hb.known_iff.2 (.inl holds)
    rw [hp.new gives] at ha
    cases ha
  · rintro before after id k r n b rfl holds ht
    obtain ⟨l₁, l₂, hb, hp, -⟩ := run.split_cons
    have ha := hb.known_iff.2 (.inl holds)
    have hv := hb.getElem_values.2 (.inr ht)
    cases hp with
    | fetched knows value =>
      rw [ha, Option.some.injEq] at knows
      subst knows
      rw [hv, Option.some.injEq] at value
      subst value
      exact ⟨fun h => if_pos h, fun h => if_neg h⟩
    | unknown _ new =>
      rw [ha] at new
      cases new
  · rintro before after n id k rfl
    obtain ⟨l₁, l₂, hb, hp, -⟩ := run.split_cons
    cases hp with
    | returned waits value new =>
      exact ⟨_, (hb.getElem_values.1 value).resolve_left (by simp), rfl⟩
  · rintro before session after n rfl hf
    obtain ⟨l₂, hl, -⟩ := run.split
    obtain ⟨l₁, -, hs⟩ := hl.split
    have hc := hs.countP_returns hf n
    split at hc <;> split at hc <;> omega
  · rintro before session after n b rfl hf ht hk
    rw [append_assoc, cons_append] at run
    obtain ⟨l₁, l₂, hb, hr, hg⟩ := run.split_cons
    obtain ⟨l₃, l₄, hs, hm, -⟩ := hg.split_cons
    have ho := hb.live ht hk
    have hc := hs.countP_returns hf n
    cases hr
    cases hm with
    | drained empty => simpa [empty, ho] using hc
  · rintro before session after rfl hf
    rw [append_assoc, cons_append] at run
    obtain ⟨l₁, l₂, hb, hr, hg⟩ := run.split_cons
    obtain ⟨l₃, hs, -⟩ := hg.split
    have hc := hs.countP_isReturned hf
    have hi := hb.sound sound_empty
    have hq := hb.length_values
    have hcd : l₁.live.card ≤ l₁.values.length := by
      have hw : l₁.live ⊆ Finset.range l₁.values.length := fun n hn =>
        Finset.mem_range.2 (hi.live_lt hn)
      simpa using Finset.card_le_card hw
    cases hr
    simp only [length_nil] at hc hq
    omega
  · rintro before after n rfl hy
    obtain ⟨l₁, hb, hz⟩ := run.split
    obtain ⟨hu, hd⟩ := hb.erased hy
    refine countP_eq_zero.2 fun e he hj => ?_
    obtain ⟨xs, ys, rfl⟩ := append_of_mem he
    obtain ⟨l₂, l₃, hx, hp, -⟩ := hz.split_cons
    cases e with
    | returned m id k =>
      obtain rfl : m = n := by simpa [Event.returns] using hj
      have hi := (hx.sound (hb.sound sound_empty)).backlog_live
      exact hx.not_live hu hd (hi hp.mem_backlog)
    | _ => cases hj

end Ledger

end DurableStore
