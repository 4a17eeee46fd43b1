import StatsHouse.SeriesQuery

/-!
# Rows of a series

The entry of a tag set starts anew when its time index is not that of the slot, and always in
the first slot, where a new entry cannot be told from one of the slot before. So a series is
computed from the merge of its rows in every slot but the first, and there from the last row.
-/

namespace SeriesQuery

open HandlerWhat List Option AList Nat

variable {Tags V : Type} {entries : List (Entry Tags V)} {rows : List (Tags × V)}
  {sel : List SelectorWhat} {ts : List Tags} {pre : Slots Tags V} {T : Tags}
  {tagX : AList fun _ : Tags => TagValue V} {groups : List (GroupData Tags V)} {i : Nat} {α : Type*}

/-- Series one after the other, for each tag set one for each function. -/
def layout (sel : List SelectorWhat) (ts : List Tags)
    (cell : Tags → Nat → SelectorWhat → SeriesData Tags V) : List (SeriesData Tags V) :=
  ts.flatMap fun T => sel.mapIdx (cell T)

section Layout

variable (base : List (SeriesData Tags V)) (cell : Tags → Nat → SelectorWhat → SeriesData Tags V)

lemma layout_cons :
    layout sel (T :: ts) cell = sel.mapIdx (cell T) ++ layout sel ts cell := rfl

lemma length_layout :
    (layout sel ts cell).length = ts.length * sel.length := by
  induction ts with
  | nil => simp [layout]
  | cons T ts ih =>
    rw [layout_cons, length_append, ih, length_mapIdx, length_cons, succ_mul, add_comm]

lemma layout_congr {cell cell' : Tags → Nat → SelectorWhat → SeriesData Tags V}
    (h : ∀ T ∈ ts, ∀ i < sel.length, ∀ fn, cell T i fn = cell' T i fn) :
    layout sel ts cell = layout sel ts cell' := by
  refine flatMap_congr fun T hT => ext_getElem? fun i => ?_
  rw [getElem?_mapIdx, getElem?_mapIdx]
  rcases lt_or_ge i sel.length with hi | hi
  · rw [getElem?_eq_getElem hi, map_some, map_some, h T hT i hi]
  · rw [getElem?_eq_none hi]
    rfl

/-- A loop over the functions, each turn of which changes the series of its function. -/
lemma foldl_range_layout
    {turn : List (SeriesData Tags V) → Nat → List (SeriesData Tags V)}
    (change : Tags → SeriesData Tags V → SeriesData Tags V)
    (turns : ∀ cell, ∀ i < sel.length, turn (base ++ layout sel ts cell) i =
      base ++ layout sel ts fun T j fn => if j = i then change T (cell T j fn) else cell T j fn) :
    (range sel.length).foldl turn (base ++ layout sel ts cell) =
      base ++ layout sel ts fun T j fn => change T (cell T j fn) := by
  have hl n (hn : n ≤ sel.length) : (range n).foldl turn (base ++ layout sel ts cell) =
        base ++ layout sel ts fun T j fn =>
          if j < n then change T (cell T j fn) else cell T j fn := by
    induction n with
    | zero => simp
    | succ n ih =>
      rw [range_succ, foldl_append, ih (le_of_succ_le hn), foldl_cons, foldl_nil, turns _ n hn]
      congr 2
      funext T j fn
      rcases Nat.lt_trichotomy j n with hj | rfl | hj
      · simp [Nat.ne_of_lt hj, hj, Nat.lt_succ_of_lt hj]
      · simp
      · simp [Nat.ne_of_gt hj, Nat.not_lt_of_gt hj, show ¬j < n + 1 by omega]
  rw [hl _ le_rfl]
  congr 1
  exact layout_congr fun T _ j hj fn => if_pos hj

variable [DecidableEq Tags]

/-- The place of the first series of a tag set. -/
def place (base : Nat) (sel : List SelectorWhat) (ts : List Tags) (T : Tags) : Nat :=
  base + ts.idxOf T * sel.length

lemma modify_left (b c : List α) (hi : i < b.length) (f : α → α) :
    (b ++ c).modify i f = b.modify i f ++ c := by
  induction b generalizing i with
  | nil => cases hi
  | cons x b ih =>
    cases i with
    | zero => rfl
    | succ i =>
      rw [cons_append, modify_succ_cons, modify_succ_cons, ih (succ_lt_succ_iff.1 hi), cons_append]

lemma modify_right (a b : List α) (i : Nat) (f : α → α) :
    (a ++ b).modify (a.length + i) f = a ++ b.modify i f := by
  induction a with
  | nil => rw [length_nil, zero_add, nil_append, nil_append]
  | cons x a ih =>
    rw [length_cons, succ_add, cons_append, modify_succ_cons, ih, cons_append]

lemma modify_mapIdx {β : Type*} (l : List α) (g : Nat → α → β) (i : Nat) (f : β → β) :
    (l.mapIdx g).modify i f = l.mapIdx fun j a => if j = i then f (g j a) else g j a := by
  refine ext_getElem? fun j => ?_
  rw [getElem?_modify, getElem?_mapIdx, getElem?_mapIdx]
  rcases eq_or_ne i j with rfl | hij
  · cases l[i]? <;> simp
  · simp [hij, hij.symm]

variable (distinct : ts.Nodup)
include distinct

/-- One series is changed. -/
lemma modify_layout (hT : T ∈ ts) (hi : i < sel.length)
    (f : SeriesData Tags V → SeriesData Tags V) :
    (base ++ layout sel ts cell).modify (place base.length sel ts T + i) f =
      base ++ layout sel ts fun T' j fn =>
        if j = i ∧ T' = T then f (cell T' j fn) else cell T' j fn := by
  induction ts generalizing base with
  | nil => cases hT
  | cons T₀ ts ih =>
    obtain ⟨hn, distinct⟩ := nodup_cons.1 distinct
    rw [layout_cons]
    rcases eq_or_ne T T₀ with rfl | hne
    · rw [place, idxOf_cons_self, zero_mul, add_zero,
        modify_right, modify_left _ _ (by rwa [length_mapIdx]), modify_mapIdx]
      congr 2
      · simp
      · refine layout_congr fun T' hT' j _ fn => ?_
        have ho : ¬(j = i ∧ T' = T) := fun h => hn (h.2 ▸ hT')
        rw [if_neg ho]
    · have hm := (mem_cons.1 hT).resolve_left hne
      have hp : place base.length sel (T₀ :: ts) T =
          place (base ++ sel.mapIdx (cell T₀)).length sel ts T := by
        rw [place, place, idxOf_cons_ne _ hne.symm, length_append, length_mapIdx, succ_mul]
        omega
      rw [hp, ← append_assoc, ih (base ++ sel.mapIdx (cell T₀)) distinct hm, append_assoc]
      congr 3
      simp [hne.symm]

/-- All series of a tag set get the values. -/
lemma copyRowValuesAt_layout (hT : T ∈ ts) (k : Nat) (row : V) :
    copyRowValuesAt sel (base ++ layout sel ts cell) (place base.length sel ts T) k row =
      base ++ layout sel ts fun T' j fn =>
        if T' = T then (cell T' j fn).put k row else cell T' j fn := by
  refine foldl_range_layout base cell (fun T' s => if T' = T then s.put k row else s) ?_
  intro cell i hi
  simp only [modify_layout _ _ distinct hT hi, ite_and]

/-- The entries know their places. -/
def Placed (base : Nat) (sel : List SelectorWhat) (ts : List Tags)
    (entries : List (Entry Tags V)) : Prop :=
  ∀ e ∈ entries, e.1 ∈ ts ∧ e.2.x = place base sel ts e.1

/-- What the loop of a slot does to a series of the tag set. -/
def copyEntry (k : Nat) (T : Tags) (s : SeriesData Tags V) (e : Entry Tags V) : SeriesData Tags V :=
  if T = e.1 ∧ e.2.tx = k then s.put k e.2.tsValues else s

lemma copySlot_layout (k : Nat) (placed : Placed base.length sel ts entries) :
    copySlot sel k entries (base ++ layout sel ts cell) =
      base ++ layout sel ts fun T j fn => entries.foldl (copyEntry k T) (cell T j fn) := by
  induction entries generalizing cell with
  | nil => rfl
  | cons e entries ih =>
    obtain ⟨hm, hx⟩ := placed e (.head _)
    have hr : Placed base.length sel ts entries := fun e' he' => placed e' (mem_cons_of_mem e he')
    rw [copySlot, foldl_cons]
    by_cases ht : e.2.tx = k
    · rw [if_pos ht, hx, copyRowValuesAt_layout base cell distinct hm]
      apply (ih _ hr).trans
      simp [copyEntry, ht]
    · rw [if_neg ht]
      apply (ih cell hr).trans
      simp [copyEntry, ht]

omit distinct in
lemma foldl_copyEntry (k : Nat) (T : Tags) (s : SeriesData Tags V) (keys : entries.NodupKeys) :
    entries.foldl (copyEntry k T) s = match entries.dlookup T with
      | none => s
      | some tagV => if tagV.tx = k then s.put k tagV.tsValues else s := by
  induction entries generalizing s with
  | nil => rfl
  | cons e entries ih =>
    obtain ⟨T', tagV⟩ := e
    obtain ⟨hn, keys⟩ := nodupKeys_cons.1 keys
    rw [foldl_cons, ih _ keys]
    by_cases hT : T = T'
    · subst hT
      rw [dlookup_eq_none.2 hn]
      simp [copyEntry]
    · have hl := dlookup_cons_ne entries ⟨T', tagV⟩ hT
      simp [copyEntry, hT]

/-- The order of the loop does not matter. -/
lemma copySlot_order (range : MapRange (Entry Tags V)) (k : Nat)
    (placed : Placed base.length sel ts tagX.entries) :
    copySlot sel k (range.order k tagX.entries) (base ++ layout sel ts cell) =
      base ++ layout sel ts fun T j fn =>
        match tagX.lookup T with
        | none => cell T j fn
        | some tagV => if tagV.tx = k then (cell T j fn).put k tagV.tsValues else cell T j fn := by
  have hp := range.perm k tagX.entries
  have hk := (perm_nodupKeys hp).2 tagX.nodupKeys
  rw [copySlot_layout base cell distinct k fun e he => placed e (hp.mem_iff.1 he)]
  congr 1
  refine layout_congr fun T _ j _ fn => ?_
  rw [foldl_copyEntry k T _ hk, perm_dlookup T hk hp]
  rfl

lemma nameTurn_layout (hi : i < sel.length) (placed : Placed base.length sel ts entries) :
    entries.foldl (fun data e => data.modify (i + e.2.x) fun s => { s with tags := some e.1 })
        (base ++ layout sel ts cell) =
      base ++ layout sel ts fun T j fn =>
        if j = i ∧ ∃ e ∈ entries, e.1 = T then { cell T j fn with tags := some T }
        else cell T j fn := by
  induction entries generalizing cell with
  | nil => simp
  | cons e entries ih =>
    obtain ⟨hm, hx⟩ := placed e (.head _)
    have hr : Placed base.length sel ts entries := fun e' he' => placed e' (mem_cons_of_mem e he')
    rw [foldl_cons, hx, add_comm i, modify_layout base cell distinct hm hi, ih _ hr]
    congr 1
    refine layout_congr fun T _ j _ fn => ?_
    by_cases hj : j = i
    · rcases eq_or_ne T e.1 with rfl | hT
      · by_cases hin : ∃ e' ∈ entries, e'.1 = e.1 <;> simp [hj, hin]
      · by_cases hin : ∃ e' ∈ entries, e'.1 = T <;> simp [hj, hT, hT.symm, hin]
    · simp [hj]

/-- All series get the tags of their entry. -/
lemma nameSeries_layout (range : MapRange (Entry Tags V))
    (placed : Placed base.length sel ts tagX.entries) (keys : ∀ T ∈ ts, T ∈ tagX) :
    nameSeries range sel tagX (base ++ layout sel ts cell) =
      base ++ layout sel ts fun T j fn => { cell T j fn with tags := some T } := by
  have hn turn {T : Tags} (hT : T ∈ ts) :
      ∃ e ∈ range.order turn tagX.entries, e.1 = T := by
    obtain ⟨e, he, rfl⟩ := mem_map.1 (mem_keys.1 (keys T hT))
    exact ⟨e, (range.perm turn tagX.entries).mem_iff.2 he, rfl⟩
  refine foldl_range_layout base cell (fun T s => { s with tags := some T }) ?_
  intro cell i hi
  rw [nameTurn_layout base cell distinct hi fun e he => placed e
    ((range.perm i tagX.entries).mem_iff.1 he)]
  congr 1
  refine layout_congr fun T hT j _ fn => ?_
  simp only [hn i hT, and_true]

end Layout

variable [DecidableEq Tags]

def rowsOf (rows : List (Tags × V)) (T : Tags) : List V :=
  rows.filterMap fun row => if row.1 = T then some row.2 else none

/-- The tag sets in the order in which they first come. -/
def addTags (ts : List Tags) (rows : List (Tags × V)) : List Tags :=
  rows.foldl (fun ts row => if row.1 ∈ ts then ts else ts ++ [row.1]) ts

lemma rowsOf_cons (row : Tags × V) (rows : List (Tags × V)) (T : Tags) :
    rowsOf (row :: rows) T = if row.1 = T then row.2 :: rowsOf rows T else rowsOf rows T := by
  by_cases hT : row.1 = T <;> simp [rowsOf, hT]

lemma addTags_cons (ts : List Tags) (row : Tags × V) (rows : List (Tags × V)) :
    addTags ts (row :: rows) = addTags (if row.1 ∈ ts then ts else ts ++ [row.1]) rows := rfl

lemma addTags_append (ts : List Tags) (rows rows' : List (Tags × V)) :
    addTags ts (rows ++ rows') = addTags (addTags ts rows) rows' := foldl_append

lemma length_addTags_le (ts : List Tags) (rows : List (Tags × V)) :
    ts.length ≤ (addTags ts rows).length := by
  induction rows generalizing ts with
  | nil => exact le_refl _
  | cons row rows ih =>
    rw [addTags_cons]
    refine Nat.le_trans ?_ (ih _)
    split_ifs
    · exact le_refl _
    · simp

namespace State

/-- The series and the entries of the tag sets that came so far. -/
structure Filled (base : List (SeriesData Tags V)) (sel : List SelectorWhat) (ts : List Tags)
    (values : Tags → Nat → Option V) (st : State Tags V) : Prop where
  data : st.data = base ++ layout sel ts fun T _ fn => { what := fn, values := values T }
  nodup : ts.Nodup
  keys (T : Tags) : T ∈ st.tagX ↔ T ∈ ts
  place (T : Tags) (tagV : TagValue V) (h : st.tagX.lookup T = some tagV) :
    tagV.x = place base.length sel ts T
  empty (T : Tags) (h : T ∉ ts) : values T = fun _ => none

variable {base : List (SeriesData Tags V)} {sel : List SelectorWhat} {ts : List Tags}
  {values : Tags → Nat → Option V} {st st' : State Tags V}

section

variable (h : Filled base sel ts values st)
include h

lemma Filled.placed : Placed base.length sel ts st.tagX.entries := by
  intro e he
  have hl := mem_lookup_iff.2 he
  refine ⟨(h.keys e.1).1 ?_, h.place e.1 e.2 hl⟩
  exact lookup_isSome.1 (hl ▸ rfl)

lemma Filled.length : st.data.length = base.length + ts.length * sel.length := by
  rw [h.data, length_append, length_layout]

lemma Filled.mem_of_lookup {tagV : TagValue V} (found : st.tagX.lookup T = some tagV) : T ∈ ts :=
  (h.keys T).1 (lookup_isSome.1 (found ▸ rfl))

lemma Filled.not_mem_of_lookup (missing : st.tagX.lookup T = none) : T ∉ ts :=
  fun hT => lookup_eq_none.1 missing ((h.keys T).2 hT)

/-- A new tag set gets its series behind all others. -/
lemma Filled.add (hT : T ∉ ts) (v : V) (k : Nat) : Filled base sel (ts ++ [T]) values
      { data := st.data ++ newSeries sel
        tagX := st.tagX.insert T { tsValues := v, x := st.data.length, tx := k } } where
  data := by
    have hn : newSeries sel = layout sel [T] (fun T _ fn =>
        ({ what := fn, values := values T } : SeriesData Tags V)) := by
      refine ext_getElem? fun i => ?_
      simp [newSeries, layout, h.empty T hT]
    simp [h.data, hn, layout]
  nodup := nodup_append.2 ⟨h.nodup, nodup_singleton T, by
    intro a ha b hb
    rw [mem_singleton.1 hb]
    exact fun hab => hT (hab ▸ ha)⟩
  keys T' := by
    rw [mem_insert, h.keys, mem_append, mem_singleton, or_comm]
  place T' tagV hl := by
    by_cases hne : T' = T
    · subst hne
      rw [lookup_insert, some.injEq] at hl
      rw [← hl, SeriesQuery.place, idxOf_append_of_notMem hT, idxOf_cons_self]
      exact h.length
    · rw [lookup_insert_ne hne] at hl
      rw [h.place T' tagV hl, SeriesQuery.place, SeriesQuery.place,
        idxOf_append_of_mem (h.mem_of_lookup hl)]
  empty T' hT' := h.empty T' fun hm => hT' (mem_append_left _ hm)

/-- An entry is replaced at its place. -/
lemma Filled.replace {tagV tagV' : TagValue V} (found : st.tagX.lookup T = some tagV)
    (hx : tagV'.x = tagV.x) :
    Filled base sel ts values { st with tagX := st.tagX.insert T tagV' } where
  data := h.data
  nodup := h.nodup
  keys T' := by
    rw [mem_insert, h.keys, or_iff_right_of_imp]
    rintro rfl
    exact h.mem_of_lookup found
  place T' tagV₁ hlk₁ := by
    by_cases hne : T' = T
    · subst hne
      rw [lookup_insert, some.injEq] at hlk₁
      rw [← hlk₁, hx, h.place T' tagV found]
    · rw [lookup_insert_ne hne] at hlk₁
      exact h.place T' tagV₁ hlk₁
  empty := h.empty

end

/-- The values of the entry, with their time index. -/
def held (st : State Tags V) (T : Tags) : Option (V × Nat) :=
  (st.tagX.lookup T).map fun tagV => (tagV.tsValues, tagV.tx)

end State

/-- What an entry holds behind a row of the slot. -/
def nextHeld (merge : V → V → V) (k : Nat) (held : Option (V × Nat)) (v : V) : Option (V × Nat) :=
  match held with
  | none => some (v, k)
  | some (w, tx) => if k = 0 ∨ tx ≠ k then some (v, k) else some (merge w v, tx)

open State

variable {merge : V → V → V} {base : List (SeriesData Tags V)} {sel : List SelectorWhat}
  {ts : List Tags} {values : Tags → Nat → Option V} {st st' : State Tags V} {k : Nat}

lemma held_insert (data : List (SeriesData Tags V)) (tagX : AList fun _ : Tags => TagValue V)
    (T T' : Tags) (tagV : TagValue V) :
    (State.mk data (tagX.insert T tagV)).held T' =
      if T = T' then some (tagV.tsValues, tagV.tx) else (State.mk data tagX).held T' := by
  by_cases hT : T = T'
  · subst hT
    rw [held, lookup_insert, if_pos rfl]
    rfl
  · rw [held, lookup_insert_ne (Ne.symm hT), if_neg hT]
    rfl

lemma addRow_spec (h : Filled base sel ts values st) {row : Tags × V}
    (had : addRow merge sel k st row = some st') :
    Filled base sel (addTags ts [row]) values st' ∧
      ∀ T, st'.held T = if row.1 = T then nextHeld merge k (st.held T) row.2 else st.held T := by
  rw [addRow] at had
  cases hl : st.tagX.lookup row.1 with
  | none =>
    rw [hl] at had
    have hT := h.not_mem_of_lookup hl
    split_ifs at had
    cases had
    refine ⟨?_, fun T => ?_⟩
    · rw [addTags_cons, if_neg hT]
      exact h.add hT row.2 k
    · rw [held_insert]
      by_cases hr : row.1 = T
      · rw [if_pos hr, if_pos hr, held, ← hr, hl]
        rfl
      · rw [if_neg hr, if_neg hr]
        rfl
  | some tagV =>
    rw [hl] at had
    cases had
    refine ⟨?_, fun T => ?_⟩
    · rw [addTags_cons, if_pos (h.mem_of_lookup hl)]
      apply h.replace hl
      split_ifs <;> rfl
    · rw [held_insert]
      by_cases hr : row.1 = T
      · rw [if_pos hr, if_pos hr, held, ← hr, hl]
        simp only [map_some, nextHeld]
        split_ifs <;> rfl
      · rw [if_neg hr, if_neg hr]

lemma addRows_spec (h : Filled base sel ts values st)
    (had : rows.foldlM (addRow merge sel k) st = some st') :
    Filled base sel (addTags ts rows) values st' ∧
      ∀ T, st'.held T = (rowsOf rows T).foldl (nextHeld merge k) (st.held T) := by
  induction rows generalizing ts st with
  | nil =>
    cases had
    exact ⟨h, fun T => rfl⟩
  | cons row rows ih =>
    obtain ⟨st₁, hw, hr⟩ := bind_eq_some_iff.1 had
    obtain ⟨h₁, hhe₁⟩ := addRow_spec h hw
    obtain ⟨h', hhe'⟩ := ih h₁ hr
    refine ⟨h', fun T => ?_⟩
    rw [hhe' T, hhe₁ T, rowsOf_cons]
    split_ifs <;> rfl

/-- The merge of all rows. -/
def mergedRows (merge : V → V → V) : List V → Option V
  | [] => none
  | v :: vs => some (vs.foldl merge v)

/-- What becomes of several rows in a slot: in a point query and in the first slot the last one
counts. -/
def slotMerge (mode : Mode) (merge : V → V → V) (k : Nat) : V → V → V :=
  if mode = .point ∨ k = 0 then fun _ v => v else merge

omit [DecidableEq Tags] in
lemma foldl_nextHeld {held : Option (V × Nat)} (hold : ∀ w tx, held = some (w, tx) → tx ≠ k)
    (vs : List V) :
    vs.foldl (nextHeld merge k) held = if vs = [] then held
      else (mergedRows (slotMerge .range merge k) vs).map fun w => (w, k) := by
  have hr (vs : List V) w : vs.foldl (nextHeld merge k) (some (w, k)) =
        some (vs.foldl (slotMerge .range merge k) w, k) := by
    induction vs generalizing w with
    | nil => rfl
    | cons v vs ih =>
      rw [foldl_cons, foldl_cons, ← ih]
      by_cases hk : k = 0 <;> simp [nextHeld, slotMerge, hk]
  cases vs with
  | nil => rfl
  | cons v vs =>
    have hf : nextHeld merge k held v = some (v, k) := by
      rcases held with _ | ⟨w, tx⟩
      · rfl
      · exact if_pos (.inr (hold w tx rfl))
    rw [foldl_cons, hf, hr]
    rfl

/-- The values at a time index, from the rows of its slot. -/
def valuesOf (mode : Mode) (merge : V → V → V) (slots : Slots Tags V) (T : Tags) (k : Nat) :
    Option V :=
  mergedRows (slotMerge mode merge k) (rowsOf (slots.getD k []) T)

variable (mode : Mode)

lemma valuesOf_concat (pre : Slots Tags V) (rows : List (Tags × V)) (T : Tags)
    (y : Nat) :
    valuesOf mode merge (pre ++ [rows]) T y =
      if y = pre.length then mergedRows (slotMerge mode merge y) (rowsOf rows T)
      else valuesOf mode merge pre T y := by
  rw [valuesOf, valuesOf, getD_eq_getElem?_getD, getD_eq_getElem?_getD]
  rcases Nat.lt_trichotomy y pre.length with hy | rfl | hy
  · rw [getElem?_append_left hy, if_neg (Nat.ne_of_lt hy)]
  · simp
  · rw [if_neg (Nat.ne_of_gt hy), getElem?_eq_none (by simp; omega), getElem?_eq_none (le_of_lt hy)]

lemma valuesOf_length (pre : Slots Tags V) (T : Tags) :
    valuesOf mode merge pre T pre.length = none := by
  rw [valuesOf, getD_eq_default _ _ le_rfl]
  rfl

lemma mem_addTags : T ∈ addTags ts rows ↔ T ∈ ts ∨ rowsOf rows T ≠ [] := by
  induction rows generalizing ts with
  | nil => simp [addTags, rowsOf]
  | cons row rows ih =>
    rw [addTags_cons, ih, rowsOf_cons]
    by_cases hr : row.1 = T
    · subst hr
      by_cases hm : row.1 ∈ ts <;> simp [hm]
    · by_cases hm : row.1 ∈ ts <;> simp [hm, hr, Ne.symm hr]

/-- A tag set without rows in the slot has no new values. -/
lemma valuesOf_concat_of_nil (pre : Slots Tags V) (hT : rowsOf rows T = []) :
    valuesOf mode merge (pre ++ [rows]) T = valuesOf mode merge pre T := by
  funext y
  rw [valuesOf_concat]
  split_ifs with hy
  · rw [hT, hy, valuesOf_length]
    rfl
  · rfl

/-- No entry has values of a later slot. -/
def Past (mode : Mode) (k : Nat) (st : State Tags V) : Prop :=
  mode = .range → ∀ T w tx, st.held T = some (w, tx) → tx < k

lemma addSlot_spec {range : MapRange (Entry Tags V)}
    (h : Filled base sel ts (valuesOf .range merge pre) st) (past : Past .range pre.length st)
    (had : addSlot merge range sel pre.length st rows = some st') :
    Filled base sel (addTags ts rows) (valuesOf .range merge (pre ++ [rows])) st' ∧
      Past .range (pre.length + 1) st' := by
  rw [addSlot] at had
  split_ifs at had with ha
  · cases had
    subst ha
    have hs : valuesOf .range merge (pre ++ [[]]) =
        (valuesOf .range merge pre) :=
      funext fun _ => valuesOf_concat_of_nil .range pre rfl
    exact ⟨hs.symm ▸ h, fun hm T w tx hw => Nat.lt_succ_of_lt (past hm T w tx hw)⟩
  · obtain ⟨st₁, hrows, rfl⟩ := map_eq_some_iff.1 had
    obtain ⟨h₁, hh⟩ := addRows_spec h hrows
    have hh T : st₁.held T = if rowsOf rows T = [] then st.held T
        else (mergedRows (slotMerge .range merge pre.length) (rowsOf rows T)).map
          fun w => (w, pre.length) := by
      rw [hh T, foldl_nextHeld fun w tx hw => Nat.ne_of_lt (past rfl T w tx hw)]
    refine ⟨{ h₁ with data := ?_, empty := fun T hT => ?_ }, ?_⟩
    · simp only [h₁.data]
      rw [copySlot_order base _ h₁.nodup range pre.length h₁.placed]
      congr 1
      refine layout_congr fun T _ _ _ fn => ?_
      have hT := hh T
      rw [held] at hT
      by_cases hn : rowsOf rows T = []
      · rw [if_pos hn] at hT
        rw [valuesOf_concat_of_nil .range pre hn]
        cases hl : st₁.tagX.lookup T with
        | none => rfl
        | some tagV =>
          rw [hl] at hT
          exact if_neg (Nat.ne_of_lt (past rfl T _ _ hT.symm))
      · rw [if_neg hn] at hT
        obtain ⟨v, vs, hr⟩ := exists_cons_of_ne_nil hn
        have hw : mergedRows (slotMerge .range merge pre.length) (rowsOf rows T) =
            some (vs.foldl (slotMerge .range merge pre.length) v) := by
          rw [hr]
          rfl
        rw [hw] at hT
        obtain ⟨tagV, hl, ht⟩ := map_eq_some_iff.1 hT
        obtain ⟨hv, hx⟩ := Prod.mk.inj ht
        simp only [hl, if_pos hx, hv]
        rw [SeriesData.put]
        congr 1
        funext y
        rw [valuesOf_concat]
        split_ifs with hy
        · rw [hy, hw]
        · rfl
    · rw [mem_addTags, not_or, not_not] at hT
      rw [valuesOf_concat_of_nil .range pre hT.2, h.empty T hT.1]
    · intro _ T w tx hw
      have hT := hh T
      rw [show st₁.held T = some (w, tx) from hw] at hT
      split_ifs at hT
      · exact Nat.lt_succ_of_lt (past rfl T w tx hT.symm)
      · obtain ⟨w', -, hw'⟩ := map_eq_some_iff.1 hT.symm
        cases hw'
        exact lt_succ_self _

variable [Inhabited V]

omit [Inhabited V] in
lemma copy_filled (h : Filled base sel ts values st) (hT : T ∈ ts) (v : V) :
    Filled base sel ts (fun T' y => if T = T' ∧ y = k then some v else values T' y)
      { st with data := copyRowValuesAt sel st.data (place base.length sel ts T) k v } where
  data := by
    simp only [h.data]
    rw [copyRowValuesAt_layout _ _ h.nodup hT]
    congr 1
    refine layout_congr fun T' _ _ _ fn => ?_
    by_cases hne : T = T'
    · simp [hne, SeriesData.put]
    · simp [hne, Ne.symm hne]
  nodup := h.nodup
  keys := h.keys
  place := h.place
  empty T' hT' := by
    have hne : T ≠ T' := fun heq => hT' (heq ▸ hT)
    simp [hne, h.empty T' hT']

lemma addPoint_filled (h : Filled base sel ts values st) (row : Tags × V) :
    Filled base sel (addTags ts [row])
      (fun T y => if row.1 = T ∧ y = k then some row.2 else values T y)
      (addPoint sel k st row) := by
  rw [addTags_cons, addPoint]
  cases hl : st.tagX.lookup row.1 with
  | none =>
    have hT := h.not_mem_of_lookup hl
    have hn := h.add hT default 0
    have hp := hn.place row.1 _ (lookup_insert _)
    have hc := copy_filled (k := k) hn (mem_append_right _ (mem_singleton_self _)) row.2
    rw [← hp] at hc
    rw [if_neg hT]
    exact hc
  | some tag =>
    have hT := h.mem_of_lookup hl
    rw [if_pos hT]
    simp only [h.place row.1 tag hl]
    exact copy_filled h hT row.2

/-- The rows of a point query replace one another. -/
lemma addPoints_filled (h : Filled base sel ts values st) : Filled base sel (addTags ts rows)
      (fun T y => if y = k then (rowsOf rows T).foldl (fun _ v => some v) (values T y)
        else values T y)
      (rows.foldl (addPoint sel k) st) := by
  induction rows generalizing ts values st with
  | nil => simpa [addTags, rowsOf] using h
  | cons row rows ih =>
    have hr := ih (addPoint_filled (k := k) h row)
    have hv : (fun T y => if y = k then (rowsOf (row :: rows) T).foldl (fun _ v => some v)
          (values T y) else values T y) =
        fun T y => if y = k then (rowsOf rows T).foldl (fun _ v => some v)
          (if row.1 = T ∧ y = k then some row.2 else values T y)
          else if row.1 = T ∧ y = k then some row.2 else values T y := by
      funext T y
      rw [rowsOf_cons]
      by_cases hw : row.1 = T <;> by_cases hy : y = k <;> simp [hw, hy]
    rw [hv]
    exact hr

lemma pointSlot_spec (rows : List (Tags × V))
    (h : Filled base sel ts (valuesOf .point merge pre) st) :
    Filled base sel (addTags ts rows) (valuesOf .point merge (pre ++ [rows]))
      (rows.foldl (addPoint sel pre.length) st) := by
  have hl vs (held : Option V) (hn : held = none) :
      vs.foldl (fun _ v => some v) held = mergedRows (fun _ v => v) vs := by
    have hr (vs : List V) w :
        vs.foldl (fun _ v => some v) (some w) = some (vs.foldl (fun _ v => v) w) := by
      induction vs generalizing w with
      | nil => rfl
      | cons v vs ih => exact ih v
    subst hn
    cases vs with
    | nil => rfl
    | cons v vs => exact hr vs v
  have hv : valuesOf .point merge (pre ++ [rows]) = fun T y => if y = pre.length then
        (rowsOf rows T).foldl (fun _ v => some v) (valuesOf .point merge pre T y)
      else valuesOf .point merge pre T y := by
    funext T y
    rw [valuesOf_concat]
    split_ifs with hy
    · rw [hl _ _ (hy ▸ valuesOf_length .point pre T), slotMerge, if_pos (.inl rfl)]
    · rfl
  rw [hv]
  exact addPoints_filled h

variable {mode : Mode} {range : MapRange (Entry Tags V)}

lemma addSlotOf_spec (h : Filled base sel ts (valuesOf mode merge pre) st)
    (past : Past mode pre.length st)
    (had : addSlotOf mode merge range sel pre.length st rows = some st') :
    Filled base sel (addTags ts rows) (valuesOf mode merge (pre ++ [rows])) st' ∧
      Past mode (pre.length + 1) st' := by
  cases mode with
  | range => exact addSlot_spec h past had
  | point =>
    cases had
    exact ⟨pointSlot_spec rows h, fun hm => nomatch hm⟩

lemma addSlots_spec {slots : Slots Tags V} (h : Filled base sel ts (valuesOf mode merge pre) st)
    (past : Past mode pre.length st)
    (had : addSlots mode merge range sel pre.length st slots = some st') :
    Filled base sel (addTags ts slots.flatten) (valuesOf mode merge (pre ++ slots)) st' := by
  induction slots generalizing pre ts st with
  | nil =>
    cases had
    rw [append_nil]
    exact h
  | cons rows slots ih =>
    obtain ⟨st₁, hs, hr⟩ := bind_eq_some_iff.1 had
    have ho := addSlotOf_spec h past hs
    have hl : pre.length + 1 = (pre ++ [rows]).length := by simp
    rw [hl] at ho hr
    have h' := ih ho.1 ho.2 hr
    rw [append_assoc] at h'
    rw [flatten_cons, addTags_append]
    exact h'

lemma addSlots_append (k : Nat) (st : State Tags V) (slots slots' : Slots Tags V) :
    addSlots mode merge range sel k st (slots ++ slots') =
      (addSlots mode merge range sel k st slots).bind fun st =>
        addSlots mode merge range sel (k + slots.length) st slots' := by
  induction slots generalizing k st with
  | nil => rfl
  | cons rows slots ih =>
    simp [addSlots, ih, Option.bind_assoc, add_assoc, add_comm 1]

/-- The time index of a level is that of its first slot. -/
lemma addLods_eq (k : Nat) (st : State Tags V) (lods : List (Slots Tags V)) :
    addLods mode merge range sel k st lods = addSlots mode merge range sel k st lods.flatten := by
  induction lods generalizing k st with
  | nil => rfl
  | cons slots lods ih => simp [addLods, ih, addSlots_append]

/-- The slots of all levels of a group. -/
def GroupData.slots (g : GroupData Tags V) : Slots Tags V := g.lods.flatten

omit [Inhabited V] in
lemma filled_nil (base : List (SeriesData Tags V)) :
    Filled base sel [] (valuesOf mode merge []) { data := base, tagX := ∅ } where
  data := (append_nil base).symm
  nodup := nodup_nil
  keys T := by simp
  place T tagV h := by cases h
  empty T _ := rfl

omit [Inhabited V] in
lemma past_nil (data : List (SeriesData Tags V)) :
    Past mode 0 (State.mk data (∅ : AList fun _ : Tags => TagValue V)) := by
  intro _ T w tx hw
  cases hw

/-- The series of a group. -/
def seriesOf (mode : Mode) (merge : V → V → V) (g : GroupData Tags V) : List (SeriesData Tags V) :=
  layout g.what.sel (addTags [] g.slots.flatten) fun T _ fn =>
    { what := fn, tags := some T, values := valuesOf mode merge g.slots T }

lemma addGroup_eq {rows names : MapRange (Entry Tags V)} {data data' : List (SeriesData Tags V)}
    {g : GroupData Tags V} (h : addGroup mode merge rows names data g = some data') :
    data' = data ++ seriesOf mode merge g := by
  obtain ⟨st, hlo, rfl⟩ := map_eq_some_iff.1 h
  rw [addLods_eq] at hlo
  have hf := addSlots_spec (filled_nil data) (past_nil data) hlo
  rw [hf.data, nameSeries_layout data _ hf.nodup names hf.placed fun T hT => (hf.keys T).2 hT]
  rfl

theorem querySeries_eq {rows names : MapRange (Entry Tags V)} {res : List (SeriesData Tags V)}
    (h : querySeries mode merge rows names groups = some res) :
    res = groups.flatMap (seriesOf mode merge) := by
  have hn (groups : List (GroupData Tags V)) data
      (h : groups.foldlM (addGroup mode merge rows names) data = some res) :
      res = data ++ groups.flatMap (seriesOf mode merge) := by
    induction groups generalizing data with
    | nil =>
      cases h
      exact (append_nil _).symm
    | cons g groups ih =>
      obtain ⟨data₁, hg, hr⟩ := bind_eq_some_iff.1 h
      rw [ih data₁ hr, addGroup_eq hg, flatMap_cons, append_assoc]
  exact hn groups [] h

/-- There are not too many series for another one. -/
def Fits (base : List (SeriesData Tags V)) (sel : List SelectorWhat) (ts : List Tags) : Prop :=
  base.length + ts.length * sel.length ≤ maxSeriesRows

omit [Inhabited V] in
lemma Fits.of_addTags (h : Fits base sel (addTags ts rows)) : Fits base sel ts :=
  Nat.le_trans (Nat.add_le_add_left (Nat.mul_le_mul_right _ (length_addTags_le ts rows)) _) h

omit [Inhabited V] in
lemma addRows_returns (merge : V → V → V) (k : Nat) (h : Filled base sel ts values st)
    (fits : Fits base sel (addTags ts rows)) :
    ∃ st', rows.foldlM (addRow merge sel k) st = some st' := by
  induction rows generalizing ts st with
  | nil => exact ⟨_, rfl⟩
  | cons row rows ih =>
    have hf : ¬maxSeriesRows < st.data.length := by
      rw [h.length, not_lt]
      exact fits.of_addTags
    obtain ⟨st₁, hw⟩ : ∃ st₁, addRow merge sel k st row = some st₁ := by
      rw [addRow]
      cases st.tagX.lookup row.1 with
      | none => exact ⟨_, if_neg hf⟩
      | some tagV => exact ⟨_, rfl⟩
    obtain ⟨st', hr⟩ := ih (addRow_spec h hw).1 fits
    exact ⟨st', by rw [foldlM_cons, hw]; exact hr⟩

lemma addSlots_returns (range : MapRange (Entry Tags V)) {slots : Slots Tags V}
    (h : Filled base sel ts (valuesOf mode merge pre) st) (past : Past mode pre.length st)
    (fits : Fits base sel (addTags ts slots.flatten)) :
    ∃ st', addSlots mode merge range sel pre.length st slots = some st' := by
  induction slots generalizing pre ts st with
  | nil => exact ⟨_, rfl⟩
  | cons rows slots ih =>
    rw [flatten_cons, addTags_append] at fits
    obtain ⟨st₁, hs⟩ : ∃ st₁, addSlotOf mode merge range sel pre.length st rows = some st₁ := by
      cases mode with
      | range =>
        obtain ⟨st₁, hrows⟩ := addRows_returns merge pre.length h fits.of_addTags
        rw [addSlotOf, addSlot, hrows]
        split_ifs <;> exact ⟨_, rfl⟩
      | point => exact ⟨_, rfl⟩
    have ho := addSlotOf_spec h past hs
    have hl : pre.length + 1 = (pre ++ [rows]).length := by simp
    rw [hl] at ho
    obtain ⟨st', hr⟩ := ih ho.1 ho.2 fits
    refine ⟨st', ?_⟩
    rw [addSlots, hs, hl]
    exact hr

/-- A query whose series are not too many does not end with the error on too many rows. -/
theorem querySeries_not_refused (rows names : MapRange (Entry Tags V))
    (few : (groups.flatMap (seriesOf mode merge)).length ≤ maxSeriesRows) :
    querySeries mode merge rows names groups ≠ none := by
  have hr (groups : List (GroupData Tags V)) data
      (few : (data ++ groups.flatMap (seriesOf mode merge)).length ≤ maxSeriesRows) :
      ∃ res, groups.foldlM (addGroup mode merge rows names) data = some res := by
    induction groups generalizing data with
    | nil => exact ⟨data, rfl⟩
    | cons g groups ih =>
      rw [flatMap_cons, ← append_assoc] at few
      have hf : Fits data g.what.sel (addTags [] g.slots.flatten) := by
        rw [length_append, length_append, seriesOf, length_layout] at few
        rw [Fits]
        omega
      obtain ⟨st, hlo⟩ : ∃ st, addLods mode merge rows g.what.sel 0
          { data, tagX := ∅ } g.lods = some st := by
        rw [addLods_eq]
        exact addSlots_returns rows (filled_nil data) (past_nil data) hf
      have hg : addGroup mode merge rows names data g =
          some (nameSeries names g.what.sel st.tagX st.data) := by
        rw [addGroup, hlo]
        rfl
      rw [foldlM_cons, hg]
      exact ih _ (by rw [← addGroup_eq hg] at few; exact few)
  obtain ⟨res, h⟩ := hr groups [] few
  rw [querySeries, h]
  exact some_ne_none res

end SeriesQuery

namespace SeriesQuery

open HandlerWhat TsValues

variable {Tags Unique Digest : Type} [DecidableEq Tags]

instance [Inhabited Unique] : Inhabited (Values Unique Digest) := ⟨{ unique := default }⟩

/-- The rows of a tag set at a time index. -/
def GroupData.rowsAt {V : Type} (g : GroupData Tags V) (T : Tags) (k : Nat) : List V :=
  rowsOf (g.slots.getD k []) T

/-- The rows at this index come one after the other into an entry that does not merge. -/
def RowsReplaced {V : Type} (mode : Mode) (g : GroupData Tags V) (T : Tags) (k : Nat) : Prop :=
  (mode = .point ∨ k = 0) ∧ 1 < (g.rowsAt T k).length

/-- The series of a group: one for each tag set and function, computed at each time index from
the merge of its rows exactly when the rows do not replace one another. -/
structure GroupSeries (m : Mergers Unique Digest) (mode : Mode)
    (g : GroupData Tags (Values Unique Digest))
    (series : List (SeriesData Tags (Values Unique Digest))) : Prop where
  each : series.map (fun s => (s.tags, s.what)) =
    (addTags [] g.slots.flatten).flatMap fun T => g.what.sel.map fun fn => (some T, fn)
  merged (s : SeriesData Tags (Values Unique Digest)) (hs : s ∈ series) (T : Tags)
    (hT : s.tags = some T) (k : Nat) :
    s.values k = mergedRows m.merge (g.rowsAt T k) ↔ ¬RowsReplaced mode g T k

variable (m : Mergers Unique Digest)

lemma foldl_merge_mergeCount (v : Values Unique Digest)
    (vs : List (Values Unique Digest)) :
    (vs.foldl m.merge v).mergeCount = v.mergeCount + vs.length := by
  induction vs generalizing v with
  | nil => rfl
  | cons w vs ih =>
    rw [List.foldl_cons, ih]
    exact Nat.succ_add_eq_add_succ v.mergeCount vs.length

/-- The last row is the merge of all only when it is the only one: the merge counts. -/
lemma last_eq_merged_iff {vs : List (Values Unique Digest)}
    (merged : ∀ v ∈ vs, v.mergeCount = 0) :
    mergedRows (fun _ v => v) vs = mergedRows m.merge vs ↔ vs.length ≤ 1 := by
  cases vs with
  | nil => exact iff_of_true rfl (Nat.zero_le 1)
  | cons v vs =>
    have hl vs (v : Values Unique Digest)
        (merged : ∀ w ∈ v :: vs, w.mergeCount = 0) :
        (vs.foldl (fun _ w => w) v).mergeCount = 0 := by
      induction vs generalizing v with
      | nil => exact merged v List.mem_cons_self
      | cons w vs ih => exact ih w fun x hx => merged x (List.mem_cons_of_mem v hx)
    constructor
    · intro h
      have hc := congrArg Values.mergeCount (Option.some.inj h)
      rw [hl vs v merged, foldl_merge_mergeCount] at hc
      rw [List.length_cons]
      omega
    · intro hn
      obtain rfl : vs = [] :=
        List.eq_nil_of_length_eq_zero (Nat.le_zero.1 (Nat.le_of_succ_le_succ hn))
      rfl

/-- Every series of a query is computed from the merge of its rows at every time index, but for
the first one, and for point queries, where several rows replace one another. -/
theorem series_merge_iff [Inhabited Unique] (mode : Mode)
    (rows names : MapRange (Entry Tags (Values Unique Digest)))
    {groups : List (GroupData Tags (Values Unique Digest))}
    (hrows : ∀ g ∈ groups, ∀ slot ∈ g.slots, ∀ row ∈ slot, row.2.mergeCount = 0)
    {res : List (SeriesData Tags (Values Unique Digest))}
    (h : querySeries mode m.merge rows names groups = some res) :
    ∃ parts, res = parts.flatten ∧ List.Forall₂ (GroupSeries m mode) groups parts := by
  refine ⟨groups.map (seriesOf mode m.merge), ?_, ?_⟩
  · rw [querySeries_eq h, List.flatMap_def]
  · rw [List.forall₂_map_right_iff, List.forall₂_same]
    intro g hg
    refine ⟨?_, fun s hs T hT k => ?_⟩
    · simp only [seriesOf, layout, List.map_flatMap]
      refine List.flatMap_congr fun T _ => List.ext_getElem? fun i => ?_
      simp [Function.comp_def]
    · obtain ⟨T', -, hs⟩ := List.mem_flatMap.1 hs
      obtain ⟨i, hi, hc⟩ := List.mem_mapIdx.1 hs
      have ha : s.values = valuesOf mode m.merge g.slots T := by
        rw [← hc] at hT ⊢
        rw [Option.some.inj hT]
      rw [ha]
      have hz : ∀ v ∈ g.rowsAt T k, v.mergeCount = 0 := by
        intro v hv
        obtain ⟨row, hr, hv⟩ := List.mem_filterMap.1 hv
        split_ifs at hv
        cases hv
        rw [List.getD_eq_getElem?_getD] at hr
        cases hl : g.slots[k]? with
        | none =>
          rw [hl] at hr
          cases hr
        | some slot =>
          rw [hl] at hr
          exact hrows g hg slot (List.mem_of_getElem? hl) row hr
      by_cases hp : mode = .point ∨ k = 0
      · rw [RowsReplaced, and_iff_right hp, not_lt, ← last_eq_merged_iff m hz]
        simp only [valuesOf, slotMerge, if_pos hp]
        rfl
      · rw [RowsReplaced]
        simp only [valuesOf, slotMerge, hp, false_and, not_false_eq_true, iff_true]
        rfl

/-- Sets and digests that hold nothing. -/
def noMergers : Mergers Unit Unit where
  emptyUnique := ()
  mergeUnique _ _ := ()
  newDigest := ()
  mergeDigest _ _ := ()

def inOrder (α : Type) : MapRange α where
  order _ l := l
  perm _ _ := .refl _

/-- A count of one tag set in two slots, with these numbers of events. -/
def countOf (slots : List (List ℚ)) : GroupData Unit (Values Unit Unit) where
  what := .start { digest := .count }
  lods := [slots.map fun counts => counts.map fun count => ((), { count, unique := () })]

theorem querySeries_not_refused_slot :
    querySeries .range noMergers.merge (inOrder _) (inOrder _) [countOf [[1, 2]]] ≠ none :=
  querySeries_not_refused _ _ (by decide +kernel)

/-- Two rows of the second slot are merged. -/
theorem second_slot_merged :
    ∃ res, querySeries .range noMergers.merge (inOrder _) (inOrder _) [countOf [[5], [1, 2]]] =
        some res ∧
      ∀ s ∈ res, s.values 1 = mergedRows noMergers.merge ((countOf [[5], [1, 2]]).rowsAt () 1) := by
  obtain ⟨res, h⟩ : ∃ res, querySeries .range noMergers.merge (inOrder _) (inOrder _)
      [countOf [[5], [1, 2]]] = some res := ⟨_, rfl⟩
  have hrows : ∀ g ∈ [countOf [[5], [1, 2]]], ∀ slot ∈ g.slots, ∀ row ∈ slot,
      row.2.mergeCount = 0 := by
    decide +kernel
  obtain ⟨parts, rfl, ha⟩ := series_merge_iff noMergers .range _ _ hrows h
  obtain ⟨part, rfl, hp⟩ : ∃ part, parts = [part] ∧
      GroupSeries noMergers .range (countOf [[5], [1, 2]]) part := by
    cases ha with
    | cons hp hr =>
      cases hr
      exact ⟨_, rfl, hp⟩
  refine ⟨_, h, fun s hs => ?_⟩
  rw [List.flatten_singleton] at hs
  have he : part.map (fun s => (s.tags, s.what)) = [(some (), { digest := .count })] := hp.each
  have hm : (s.tags, s.what) ∈ part.map fun s => (s.tags, s.what) := List.mem_map_of_mem hs
  rw [he] at hm
  obtain ⟨ht, -⟩ := Prod.mk.inj (List.mem_singleton.1 hm)
  apply (hp.merged s hs () ht 1).2
  rintro ⟨hd | hk, -⟩
  · cases hd
  · cases hk

/-- Of two rows in the first slot the first one is lost. -/
theorem first_slot_replaced :
    ∃ res, querySeries .range noMergers.merge (inOrder _) (inOrder _) [countOf [[1, 2]]] =
        some res ∧
      (res.map fun s => (s.values 0).map Values.count) = [some 2] ∧
      (mergedRows noMergers.merge ((countOf [[1, 2]]).rowsAt () 0)).map Values.count = some 3 := by
  refine ⟨_, rfl, ?_, ?_⟩ <;> decide +kernel

end SeriesQuery
