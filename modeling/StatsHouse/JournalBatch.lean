import Mathlib.Data.List.Basic

/-!
# A batch of events in a compact journal

`applyUpdate` drops the events of a batch that are discarded by type or equal to what the journal
held before the batch, and adds the others one by one. `C` is what an event has besides its type,
id and version. The hash of the state and the versions of the loader are left out. The tree that
orders the events is any that meets the laws of `OrderTree`.
-/

namespace JournalBatch

open List Function

structure Event (C : Type*) where
  eventType : Int
  id : Int
  version : Int
  content : C
deriving DecidableEq

def metricEvent : Int := 0
def dashboardEvent : Int := 1
def promConfigEvent : Int := 3

variable {C : Type*}

abbrev Key := Int × Int

def Event.key (e : Event C) : Key := (e.eventType, e.id)

def Event.withoutVersion (e : Event C) : Event C := { e with version := 0 }

/-- Trees of keys by version. `find` is what a tree holds; `Delete` and `ReplaceOrInsert` return
what was there. -/
structure OrderTree where
  Tree : Type
  find : Tree → Int → Option Key
  delete : Tree → Int → Option Key × Tree
  replaceOrInsert : Tree → Int → Key → Option Key × Tree
  delete_fst (t : Tree) (v : Int) : (delete t v).1 = find t v
  find_delete (t : Tree) (v : Int) : find (delete t v).2 = update (find t) v none
  replaceOrInsert_fst (t : Tree) (v : Int) (k : Key) : (replaceOrInsert t v k).1 = find t v
  find_replaceOrInsert (t : Tree) (v : Int) (k : Key) :
    find (replaceOrInsert t v k).2 = update (find t) v (some k)

structure JournalFast (T : OrderTree) (C : Type*) where
  journal : Key → Option (Event C)
  order : T.Tree
  currentVersion : Int

variable {T : OrderTree}

/-- A panic is `none`. -/
def JournalFast.addEventLocked (ms : JournalFast T C) (entry : Event C) :
    Option (JournalFast T C) :=
  if entry.version ≤ ms.currentVersion then none
  else
    let deleted := (ms.journal entry.key).map fun old => T.delete ms.order old.version
    if deleted.any (·.1.isNone) then none
    else
      let order := deleted.elim ms.order (·.2)
      let inserted := T.replaceOrInsert order entry.version entry.key
      if inserted.1.isSome then none
      else some { ms with
        journal := update ms.journal entry.key (some entry)
        order := inserted.2
        currentVersion := entry.version }

/-- `none` discards the event. The short data of a metric is its content where it cannot be made. -/
def compactJournalEvent (shortData : C → C) (event : Event C) : Option (Event C) :=
  if event.eventType = dashboardEvent ∨ event.eventType = promConfigEvent then none
  else if event.eventType = metricEvent then
    some { event with content := shortData event.content }
  else some event

/-- The journal and the tree agree. -/
structure JournalFast.Ordered (ms : JournalFast T C) : Prop where
  order : ∀ k e, ms.journal k = some e → T.find ms.order e.version = some k
  journal : ∀ v k, T.find ms.order v = some k →
    v ≤ ms.currentVersion ∧ ∃ e, ms.journal k = some e ∧ e.version = v

variable {ms : JournalFast T C}

/-- The tree without the old version of an entity. -/
lemma JournalFast.Ordered.delete (h : ms.Ordered) (key : Key) (v : Int) (k : Key) :
    T.find (((ms.journal key).map fun old => T.delete ms.order old.version).elim ms.order (·.2)) v =
        some k ↔ T.find ms.order v = some k ∧ k ≠ key := by
  cases hk : ms.journal key with
  | none =>
    refine ⟨fun hv => ⟨hv, ?_⟩, fun hv => hv.1⟩
    rintro rfl
    obtain ⟨-, e, he, -⟩ := h.journal v k hv
    cases hk.symm.trans he
  | some o =>
    rw [Option.map_some, Option.elim_some, T.find_delete, update_apply]
    split_ifs with hv
    · subst hv
      simp [h.order key o hk, eq_comm]
    · refine ⟨fun hv' => ⟨hv', ?_⟩, fun hv => hv.1⟩
      rintro rfl
      obtain ⟨-, e, he, rfl⟩ := h.journal v k hv'
      cases hk.symm.trans he
      exact hv rfl

lemma JournalFast.Ordered.addEventLocked (h : ms.Ordered) {entry : Event C}
    (hv : ms.currentVersion < entry.version) : ∃ ms', ms.addEventLocked entry = some ms' ∧
      ms'.Ordered ∧ ms'.currentVersion = entry.version ∧
      ms'.journal = update ms.journal entry.key (some entry) := by
  have hd := h.delete entry.key
  have hany : ¬((ms.journal entry.key).map
      fun old => T.delete ms.order old.version).any (·.1.isNone) := by
    cases hk : ms.journal entry.key <;> simp
    simp [T.delete_fst, h.order _ _ hk]
  rw [JournalFast.addEventLocked, if_neg (by omega)]
  dsimp only
  rw [if_neg hany]
  generalize Option.elim _ ms.order _ = order at hd ⊢
  have hn : ¬(T.replaceOrInsert order entry.version entry.key).1.isSome := by
    rw [T.replaceOrInsert_fst, Option.isSome_iff_exists]
    rintro ⟨k, hk⟩
    have := (h.journal _ k ((hd _ k).1 hk).1).1
    omega
  rw [if_neg hn]
  refine ⟨_, rfl, ⟨fun k e he => ?_, fun v k hk => ?_⟩, rfl, rfl⟩
  · dsimp only at he ⊢
    rw [update_apply] at he
    split_ifs at he with hkey
    · cases he
      rw [T.find_replaceOrInsert, update_self, hkey]
    · have ho := h.order k e he
      have hle := (h.journal _ k ho).1
      rw [T.find_replaceOrInsert, update_of_ne (by omega)]
      exact (hd _ k).2 ⟨ho, hkey⟩
  · dsimp only at hk ⊢
    rw [T.find_replaceOrInsert, update_apply] at hk
    split_ifs at hk with ha
    · cases hk
      exact ⟨by omega, entry, update_self .., ha.symm⟩
    · obtain ⟨ho, hne⟩ := (hd v k).1 hk
      obtain ⟨hle, e, he, rfl⟩ := h.journal v k ho
      exact ⟨by omega, e, by rw [update_of_ne hne, he], rfl⟩

/-- The last of the events of an entity. -/
def lastOf (l : List (Event C)) (k : Key) : Option (Event C) := (l.filter (·.key = k)).getLast?

lemma lastOf_cons (e : Event C) (l : List (Event C)) (k : Key) :
    lastOf (e :: l) k = (lastOf l k).or (if e.key = k then some e else none) := by
  by_cases h : e.key = k
  · simp only [lastOf, filter_cons, h, decide_true, if_true, getLast?_cons]
    cases (l.filter (·.key = k)).getLast? <;> rfl
  · simp [lastOf]

/-- Events of increasing versions are all added, and the last one of each entity stays. -/
lemma JournalFast.Ordered.foldlM (h : ms.Ordered) {l : List (Event C)}
    (hs : l.Pairwise (·.version < ·.version)) (hv : ∀ e ∈ l, ms.currentVersion < e.version) :
    ∃ ms', l.foldlM JournalFast.addEventLocked ms = some ms' ∧ ms'.Ordered ∧
      ∀ k, ms'.journal k = (lastOf l k).or (ms.journal k) := by
  induction l generalizing ms with
  | nil => exact ⟨ms, rfl, h, fun k => rfl⟩
  | cons e l ih =>
    obtain ⟨he, hs⟩ := pairwise_cons.1 hs
    obtain ⟨m, hm, ho, hc, hj⟩ := h.addEventLocked (hv e (.head _))
    obtain ⟨m', hm', ho', hj'⟩ := ih ho hs fun x hx => hc ▸ he x hx
    refine ⟨m', by rw [foldlM_cons, hm]; exact hm', ho', fun k => ?_⟩
    rw [hj', hj, lastOf_cons, update_apply, Option.or_assoc]
    by_cases hk : e.key = k
    · simp [hk]
    · simp [hk, Ne.symm hk]

variable [DecidableEq C] (shortData : C → C) (ms : JournalFast T C) (src : List (Event C))

def compacted : List (Event C) := src.filterMap (compactJournalEvent shortData)

/-- `equalWithoutVersionJournalEvent` with the stored event. -/
def JournalFast.Stored (e : Event C) : Prop :=
  (ms.journal e.key).map Event.withoutVersion = some e.withoutVersion

instance (e : Event C) : Decidable (ms.Stored e) := inferInstanceAs (Decidable (_ = _))

def JournalFast.applyUpdate : Option (JournalFast T C) :=
  ((compacted shortData src).filter fun e => ¬ms.Stored e).foldlM addEventLocked ms

/-- For every entity the journal `ms'` has the compaction of its last event, up to the version, or
what it had before. -/
def KeepsLast (ms' : JournalFast T C) : Prop := ∀ k, (ms'.journal k).map Event.withoutVersion =
    ((lastOf (compacted shortData src) k).or (ms.journal k)).map Event.withoutVersion

/-- An entity whose last event is the stored one has only such events in the batch. -/
def NoneReverted : Prop := ∀ k e, lastOf (compacted shortData src) k = some e → ms.Stored e →
    ∀ e' ∈ (compacted shortData src).filter (·.key = k), ms.Stored e'

variable {ms src shortData}

lemma keepsLast_iff {m : JournalFast T C} (hm : ∀ k, m.journal k =
      (lastOf ((compacted shortData src).filter fun e => ¬ms.Stored e) k).or (ms.journal k)) :
    KeepsLast shortData ms src m ↔ NoneReverted shortData ms src := by
  refine forall_congr' fun k => ?_
  have hc : lastOf ((compacted shortData src).filter fun e => ¬ms.Stored e) k =
      (((compacted shortData src).filter (·.key = k)).filter fun e => ¬ms.Stored e).getLast? := by
    rw [lastOf, filter_comm]
  have hk : ∀ e ∈ (compacted shortData src).filter (·.key = k), e.key = k := by simp
  rw [hm, hc, lastOf]
  generalize (compacted shortData src).filter (·.key = k) = l at hk ⊢
  rcases eq_nil_or_concat' l with rfl | ⟨l, e, rfl⟩
  · simp
  by_cases he : ms.Stored e
  · have hs : (ms.journal k).map Event.withoutVersion = some e.withoutVersion := hk e (by simp) ▸ he
    have hf : ((l ++ [e]).filter fun e => ¬ms.Stored e) = l.filter fun e => ¬ms.Stored e := by
      simp [he]
    rw [hf, getLast?_concat]
    cases hx : (l.filter fun e => ¬ms.Stored e).getLast? with
    | none =>
      have hn := filter_eq_nil_iff.1 (getLast?_eq_none_iff.1 hx)
      apply iff_of_true hs
      rintro _ ⟨⟩ - x hx
      rcases mem_append.1 hx with hx | hx
      · simpa using hn x hx
      · exact mem_singleton.1 hx ▸ he
    | some x =>
      obtain ⟨hl, ha⟩ := mem_filter.1 (mem_of_getLast? hx)
      refine iff_of_false (fun h => ?_) fun h => ?_
      · have hb := Option.some.inj h
        have ht : ms.Stored x := by rw [JournalFast.Stored, hk x (by simp [hl]), hs, hb]
        simp [ht] at ha
      · simp [h e rfl he x (by simp [hl])] at ha
  · simp [he]

/-- For a batch of increasing versions above the current one the journal keeps the last state of
every entity exactly when no entity is changed and changed back within the batch. -/
theorem applyUpdate_keeps_last_iff (shortData : C → C) (ms : JournalFast T C)
    (src : List (Event C)) (h : ms.Ordered) (hs : src.Pairwise (·.version < ·.version))
    (hv : ∀ e ∈ src, ms.currentVersion < e.version) :
    ∃ ms', ms.applyUpdate shortData src = some ms' ∧ ms'.Ordered ∧
      (KeepsLast shortData ms src ms' ↔ NoneReverted shortData ms src) := by
  have hsub : ∀ e e' : Event C, e' ∈ compactJournalEvent shortData e → e'.version = e.version := by
    intro e e' he
    rw [compactJournalEvent] at he
    split_ifs at he <;> cases he <;> rfl
  have hp : (compacted shortData src).Pairwise (·.version < ·.version) :=
    hs.filterMap _ fun e e' hlt x hx y hy => by rwa [hsub e x hx, hsub e' y hy]
  have hc : ∀ e ∈ compacted shortData src, ms.currentVersion < e.version := by
    intro e he
    obtain ⟨x, hx, ha⟩ := mem_filterMap.1 he
    exact hsub x e ha ▸ hv x hx
  obtain ⟨m, hm, ho, hj⟩ := h.foldlM (hp.filter fun e => ¬ms.Stored e)
    fun e he => hc e (mem_of_mem_filter he)
  exact ⟨m, hm, ho, keepsLast_iff hj⟩

/-- A tree as the function it is found by. -/
def lookupTree : OrderTree where
  Tree := Int → Option Key
  find t := t
  delete t v := (t v, update t v none)
  replaceOrInsert t v k := (t v, update t v (some k))
  delete_fst _ _ := rfl
  find_delete _ _ := rfl
  replaceOrInsert_fst _ _ _ := rfl
  find_replaceOrInsert _ _ _ := rfl

/-- A journal with one event, of content 0. -/
def storedJournal : JournalFast lookupTree Nat :=
  { journal := fun k => if k = (2, 1) then some ⟨2, 1, 5, 0⟩ else none
    order := fun v => if v = 5 then some (2, 1) else none
    currentVersion := 5 }

theorem applyUpdate_keeps_last_twice :
    let src : List (Event Nat) := [⟨2, 1, 6, 1⟩, ⟨2, 1, 7, 2⟩]
    ∃ ms', storedJournal.applyUpdate id src = some ms' ∧ ms'.Ordered ∧
      (KeepsLast id storedJournal src ms' ↔ NoneReverted id storedJournal src) := by
  refine applyUpdate_keeps_last_iff id storedJournal _ ⟨fun k e he => ?_, fun v k hk => ?_⟩
    (by decide) (by decide)
  · simp only [storedJournal, Option.ite_none_right_eq_some] at he
    obtain ⟨rfl, he⟩ := he
    cases he
    rfl
  · simp only [storedJournal, lookupTree, Option.ite_none_right_eq_some] at hk
    obtain ⟨rfl, hk⟩ := hk
    cases hk
    exact ⟨Int.le_refl _, _, rfl, rfl⟩

/-- Content 1 and 0 again in one batch: the last event is taken for a repetition. -/
theorem reverted_within_batch :
    (storedJournal.applyUpdate id [⟨2, 1, 6, 1⟩, ⟨2, 1, 7, 0⟩]).map (·.journal (2, 1)) =
      some (some ⟨2, 1, 6, 1⟩) := by
  decide

end JournalBatch
