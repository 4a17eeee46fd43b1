import StatsHouse.CacheKey

/-!
# Queries with one key

Behind the parts that the metric decides, a key lists the digests, the tags to group by and
the filters. As long as no filter writes a quote the text can be read back, so two keys are equal
exactly when these lists are. What the lists show of a filter is its regular expression or,
without one, the strings of its values: filters that differ in anything else share a key.
-/

namespace CacheKey

open MetricMeta (ascii maxTags tagID)
open HandlerWhat (DigestKind DigestSelector)
open Delimited ListItemSeparator Option List Nat Or TagValue TagFilter
variable {t : Nat} (sb : Text) (items : List Text) (f : TagFilters) (b : Query)

lemma toNat_of_mem_toDigits {n : Nat} {c : Char} (h : c ∈ toDigits 10 n) :
    48 ≤ c.toNat ∧ c.toNat ≤ 57 := by
  have hd := isDigit_of_mem_toDigits (by decide) (by decide) h
  simp only [Char.isDigit, Bool.and_eq_true, decide_eq_true_eq] at hd
  exact hd

lemma isDigit_of_mem_tagID {n : Nat} {a : UInt8} (h : a ∈ tagID n) :
    48 ≤ a.toNat ∧ a.toNat ≤ 57 := by
  obtain ⟨c, hc, rfl⟩ := mem_map.1 h
  have hd := toNat_of_mem_toDigits hc
  rw [UInt8.toNat_ofNat_of_lt' (lt_of_le_of_lt hd.2 (by decide))]
  exact hd

lemma tagID_injective : Function.Injective tagID := by
  have hba n : (tagID n).map (fun a => Char.ofNat a.toNat) = toDigits 10 n := by
    rw [tagID, List.map_map]
    refine (List.map_congr_left fun c hc => ?_).trans (List.map_id _)
    have hd := toNat_of_mem_toDigits hc
    rw [Function.comp_apply, UInt8.toNat_ofNat_of_lt' (lt_of_le_of_lt hd.2 (by decide)),
      Char.ofNat_toNat, id]
  intro n n' h
  rw [← ofDigitChars_ten_toDigits (n := n), ← hba, h, hba, ofDigitChars_ten_toDigits]

lemma mem_formatInt {n : Int} {a : UInt8} (h : a ∈ formatInt n) :
    a = 45 ∨ 48 ≤ a.toNat ∧ a.toNat ≤ 57 := by
  rw [formatInt] at h
  split_ifs at h
  · rcases mem_cons.1 h with rfl | h
    · exact inl rfl
    · exact inr (isDigit_of_mem_tagID h)
  · exact inr (isDigit_of_mem_tagID h)

lemma formatInt_injective : Function.Injective formatInt := by
  intro n n' h
  have hs m : 45 ∉ tagID m := fun hm => by
    have := isDigit_of_mem_tagID hm
    simp at this
  rw [formatInt, formatInt] at h
  split_ifs at h with hn hn' hn'
  · have := tagID_injective (cons.inj h).2
    omega
  · exact absurd (h ▸ mem_cons_self) (hs _)
  · exact absurd (h.symm ▸ mem_cons_self) (hs _)
  · have := tagID_injective h
    omega

def quoted (t : Text) : Text := quote :: (t ++ [quote])

/-- Items with commas between them, behind `sb`. -/
def written (sb : Text) (items : List Text) : ListItemSeparator × Text :=
  ({ value := ascii ",", listStarted := !items.isEmpty }, sb ++ [44].intercalate items)

lemma written_nil : written sb [] = (newListComma, sb) := by
  simp [written, newListComma]

lemma intercalate_concat (sep : UInt8) (items : List Text) (item : Text) :
    [sep].intercalate (items ++ [item]) =
      (if items = [] then [] else [sep].intercalate items ++ [sep]) ++ item := by
  induction items with
  | nil => simp
  | cons first items ih =>
    cases items with
    | nil => simp
    | cons second items => simpa using ih

lemma maybeWrite_written (item : Text) : (((written sb items).1.maybeWrite (written sb items).2).1,
      ((written sb items).1.maybeWrite (written sb items).2).2 ++ item) =
      written sb (items ++ [item]) := by
  rw [written, written, intercalate_concat]
  cases items with
  | nil => simp [maybeWrite]
  | cons first items => simp [maybeWrite, ascii]

lemma writeQuoted_written (item : Text) :
    writeQuoted (written sb items) item = written sb (items ++ [quoted item]) := by
  rw [← maybeWrite_written]
  simp [writeQuoted, quoted, quote, ascii]

lemma foldl_writeQuoted (new : List Text) :
    new.foldl writeQuoted (written sb items) = written sb (items ++ new.map quoted) := by
  induction new generalizing items with
  | nil => simp
  | cons item new ih => rw [foldl_cons, writeQuoted_written, ih]; simp

/-- The names of digests, each once where it is repeated. -/
def whatNames (last : DigestKind) : List DigestSelector → List Text
  | [] => []
  | w :: ws =>
    if last = w.what then whatNames last ws else digestString w.what :: whatNames w.what ws

lemma foldl_writeWhat (last : DigestKind) (ws : List DigestSelector) :
    (ws.foldl Query.writeWhat (last, written sb items)).2 =
      written sb (items ++ (whatNames last ws).map quoted) := by
  induction ws generalizing items last with
  | nil => simp [whatNames]
  | cons w ws ih =>
    rw [foldl_cons, Query.writeWhat, whatNames]
    split_ifs with hlt
    · exact ih items last
    · rw [writeQuoted_written, ih]
      simp

/-- A regular expression or strings. -/
abbrev Shown := Text ⊕ List Text

def listText (items : List Text) : Text := [44].intercalate (items.map quoted) ++ [93]

def shownText : Shown → Text :=
  Sum.elim (fun re2 => quote :: (re2 ++ [quote])) fun s => 91 :: listText s

def entryText (e : Text × Shown) : Text := quoted e.1 ++ (58 :: shownText e.2)

def objectText (es : List (Text × Shown)) : Text :=
  123 :: ([44].intercalate (es.map entryText) ++ [125])

lemma writeStrings_eq {s : List Text} (hs : s ≠ []) :
    writeStrings sb s = sb ++ shownText (.inr s) := by
  obtain ⟨first, rest, rfl⟩ := exists_cons_of_ne_nil hs
  have hr rest w first :
      rest.foldl (fun sb t => sb ++ ascii "\",\"" ++ t) (w ++ quote :: first) ++ ascii "\"]" =
        w ++ listText (first :: rest) := by
    induction rest generalizing w first with
    | nil => simp [listText, quoted, quote, ascii]
    | cons second rest ih =>
      have ha : w ++ quote :: first ++ ascii "\",\"" ++ second =
          (w ++ quoted first ++ [44]) ++ quote :: second := by
        simp [quoted, quote, ascii]
      rw [foldl_cons, ha, ih]
      simp [listText]
  have ha : sb ++ ascii "[\"" ++ first = (sb ++ [91]) ++ quote :: first := by
    simp [quote, ascii]
  rw [writeStrings, ha, hr]
  simp [shownText]

namespace TagFilter

/-- What the loop over the tags writes of a filter. -/
def shown (f : TagFilter) : Option Shown :=
  if f.re2 ≠ [] then some (.inl f.re2)
  else if f.values ≠ [] then some (.inr (sortStrings (f.values.map string)))
  else none

/-- What is written once more of the filter of the string top. -/
def shownTop (f : TagFilter) : Option Shown :=
  if f.re2 ≠ [] then some (.inl f.re2)
  else f.values.getLast?.map fun v => .inr [v.value]

end TagFilter

/-- The entries of a filter in the order of the tags. -/
def TagFilters.entries (f : TagFilters) : List (Text × Shown) :=
  (finRange maxTags).filterMap fun i => (f.tags i).shown.map fun s => (formatInt i, s)

def TagFilters.topEntry (f : TagFilters) : List (Text × Shown) :=
  ((f.tags stringTop).shownTop.map fun s => (ascii "_s", s)).toList

lemma writeTagFilter_written (sb : Text) (items : List Text) (i : Fin maxTags) :
    writeTagFilter f (written sb items) i =
      written sb (items ++ ((f.tags i).shown.map fun s => entryText (formatInt i, s)).toList) := by
  rw [writeTagFilter, empty, shown]
  by_cases hr : (f.tags i).re2 = []
  · by_cases hv : (f.tags i).values = []
    · simp [hr, hv]
    · have hs : sortStrings ((f.tags i).values.map string) ≠ [] := by
        have hl := length_insertionSort (· ≤ ·) ((f.tags i).values.map string)
        rw [sortStrings, ← length_pos_iff, hl, length_map]
        exact length_pos_iff.2 hv
      simp [hr, hv, writeStrings_eq _ hs, ← maybeWrite_written, entryText, quoted, quote, ascii]
  · simp [hr, ← maybeWrite_written, entryText, shownText, quoted, quote, ascii]

lemma foldl_writeTagFilter (sb : Text) (items : List Text) (l : List (Fin maxTags)) :
    l.foldl (writeTagFilter f) (written sb items) = written sb (items ++
      (l.filterMap fun i => (f.tags i).shown.map fun s => (formatInt i, s)).map entryText) := by
  induction l generalizing items with
  | nil => simp
  | cons i l ih =>
    rw [foldl_cons, writeTagFilter_written, ih, filterMap_cons]
    cases (f.tags i).shown <;> simp

lemma writeStringTop_written (f : TagFilter) (s : List Text) :
    (writeStringTop (written sb items) f s).1 =
      (written sb (items ++ (f.shownTop.map fun s => entryText (ascii "_s", s)).toList)).2 := by
  rw [writeStringTop, shownTop]
  by_cases hr : f.re2 = []
  · rcases eq_nil_or_concat f.values with hv | ⟨values, v, hv⟩
    · simp [hr, hv]
    · have hs : sortStrings [v.value] = [v.value] := rfl
      have hi sb : (writeQuoted (newListComma, sb) v.value).2 = sb ++ quoted v.value := by
        rw [← written_nil, writeQuoted_written]
        simp [written]
      simp [hr, hv, hs, hi, ← maybeWrite_written, entryText, shownText, listText,
        quoted, quote, ascii]
  · simp [hr, ← maybeWrite_written, entryText, shownText, quoted, quote, ascii]

lemma writeTagFiltersCacheKey_eq (s : List Text) :
    (writeTagFiltersCacheKey sb f s).1 = sb ++ objectText (f.entries ++ f.topEntry) := by
  rw [writeTagFiltersCacheKey, ← written_nil, foldl_writeTagFilter]
  simp only [writeStringTop_written]
  cases ht : (f.tags stringTop).shownTop <;>
    simp [written, objectText, TagFilters.entries, TagFilters.topEntry, ht, ascii]

namespace Query

/-- The part of a key that the metric decides. -/
def head (b : Query) : Text :=
  ascii "\x7b\"v\":" ++ version6 ++ ascii ",\"m\":" ++ formatInt b.metricID ++
    ascii ",\"pk\":\"" ++ formatInt b.preKeyTagX ++ ascii "\",\"st\":" ++
    formatBool b.isStringTop ++ ascii ",\"what\":["

/-- The names of the digests, with those of the hosts behind them. -/
def selects (b : Query) : List Text :=
  whatNames .unspecified b.specified ++ (if b.minMaxHost.1 then [ascii "minhost"] else []) ++
    (if b.minMaxHost.2 then [ascii "maxhost"] else [])

theorem buildCacheKey_eq : b.buildCacheKey = b.head ++ (listText b.selects ++
      (ascii ",\"by\":[" ++ listText ((sortInts b.byTags).map formatInt) ++
      (ascii ",\"inc\":" ++ objectText (b.filterIn.entries ++ b.filterIn.topEntry) ++
      (ascii ",\"exl\":" ++ objectText (b.filterNotIn.entries ++ b.filterNotIn.topEntry) ++
      (ascii ",\"sort\":" ++ (formatInt b.sort.number ++ [125])))))) := by
  have hl sb t items :
      (written sb (items.map quoted)).2 ++ (ascii "]" ++ t) = sb ++ (listText items ++ t) := by
    simp [written, listText, ascii]
  have hw sb items (host : Bool) name :
      (if host then writeQuoted (written sb (items.map quoted)) name
        else written sb (items.map quoted)) =
        written sb ((items ++ if host then [name] else []).map quoted) := by
    cases host <;> simp [writeQuoted_written]
  have hb : ascii "],\"by\":[" = ascii "]" ++ ascii ",\"by\":[" := rfl
  have hi : ascii "],\"inc\":" = ascii "]" ++ ascii ",\"inc\":" := rfl
  have hc : ascii "\x7d" = [125] := rfl
  rw [buildCacheKey, ← head, selects]
  simp only [← written_nil, foldl_writeWhat, nil_append, hw, foldl_writeQuoted,
    writeTagFiltersCacheKey_eq, hb, hi, hc, append_assoc, hl]

end Query

def Unquoted (t : Text) : Prop := quote ∉ t

instance (t : Text) : Decidable (Unquoted t) := inferInstanceAs (Decidable (quote ∉ t))

lemma selfDelimiting_closed : SelfDelimiting Unquoted fun t => t ++ [quote] :=
  SelfDelimiting.closed (p := (· ≠ quote)) (fun _ _ _ _ h => h)
    (fun _ ht _ ha hq => ht (hq ▸ ha)) (not_not.2 rfl)

lemma selfDelimiting_quoted : SelfDelimiting Unquoted quoted := selfDelimiting_closed.behind [quote]

lemma selfDelimiting_listText : SelfDelimiting (fun s => ∀ t ∈ s, Unquoted t) listText :=
  selfDelimiting_quoted.list (by decide) fun _ _ => ⟨quote, _, rfl, by decide⟩

def Shown.Unquoted : Shown → Prop :=
  Sum.elim CacheKey.Unquoted fun s => ∀ t ∈ s, CacheKey.Unquoted t

lemma selfDelimiting_shownText : SelfDelimiting Shown.Unquoted shownText :=
  selfDelimiting_closed.either (by decide) selfDelimiting_listText

lemma selfDelimiting_entryText :
    SelfDelimiting (fun e : Text × Shown => Unquoted e.1 ∧ e.2.Unquoted) entryText :=
  selfDelimiting_quoted.pair (selfDelimiting_shownText.behind [58])

lemma selfDelimiting_objectText :
    SelfDelimiting (fun es : List (Text × Shown) => ∀ e ∈ es, Unquoted e.1 ∧ e.2.Unquoted)
      objectText :=
  (selfDelimiting_entryText.list (by decide) fun _ _ => ⟨quote, _, rfl, by decide⟩).behind [123]

lemma unquoted_formatInt (n : Int) : Unquoted (formatInt n) := by
  intro h
  have := mem_formatInt h
  simp [quote] at this

lemma unquoted_digestString (w : DigestKind) : Unquoted (digestString w) := by
  cases w <;> decide

lemma unquoted_whatNames (last : DigestKind) (ws : List DigestSelector) :
    ∀ t ∈ whatNames last ws, Unquoted t := by
  induction ws generalizing last with
  | nil => exact forall_mem_nil _
  | cons w ws ih =>
    rw [whatNames]
    split_ifs
    · exact ih last
    · exact forall_mem_cons.2 ⟨unquoted_digestString _, ih _⟩

namespace Query

lemma unquoted_selects : ∀ t ∈ b.selects, Unquoted t := by
  have hh (host : Bool) {name : Text} (hn : Unquoted name) :
      ∀ t ∈ if host then [name] else [], Unquoted t := by
    cases host <;> simp [hn]
  intro t ht
  rcases mem_append.1 ht with ht | ht
  · rcases mem_append.1 ht with ht | ht
    · exact unquoted_whatNames _ _ t ht
    · exact hh b.minMaxHost.1 (by decide) t ht
  · exact hh b.minMaxHost.2 (by decide) t ht

end Query

/-- No text that is written of the filter has a quote: its regular expression or, without one,
the strings of its values. -/
def TagFilter.Unquoted (f : TagFilter) : Prop := CacheKey.Unquoted f.re2 ∧
    (f.re2 = [] → ∀ v ∈ f.values, CacheKey.Unquoted v.string)

/-- For the string top also the text of the last value is written. -/
def TagFilters.Unquoted (f : TagFilters) : Prop := (∀ t, (f.tags t).Unquoted) ∧
    ((f.tags stringTop).re2 = [] →
      ∀ v ∈ (f.tags stringTop).values.getLast?, CacheKey.Unquoted v.value)

lemma TagFilters.unquoted_entries {f : TagFilters} (h : f.Unquoted) :
    ∀ e ∈ f.entries ++ f.topEntry, CacheKey.Unquoted e.1 ∧ e.2.Unquoted := by
  intro e he
  rcases mem_append.1 he with he | he
  · obtain ⟨i, -, hh⟩ := mem_filterMap.1 he
    obtain ⟨s, hs, rfl⟩ := map_eq_some_iff.1 hh
    refine ⟨unquoted_formatInt i, ?_⟩
    rw [shown] at hs
    split_ifs at hs with hr <;> cases hs
    · exact (h.1 i).1
    · intro t ht
      obtain ⟨v, hv, rfl⟩ := mem_map.1 ((perm_insertionSort _ _).mem_iff.1 ht)
      exact (h.1 i).2 (not_not.1 hr) v hv
  · obtain ⟨s, hs, rfl⟩ := map_eq_some_iff.1 (mem_toList.1 he)
    have hk : CacheKey.Unquoted (ascii "_s") := by decide
    refine ⟨hk, ?_⟩
    rw [shownTop] at hs
    split_ifs at hs with hr
    · cases hs
      exact (h.1 _).1
    · obtain ⟨v, hv, rfl⟩ := map_eq_some_iff.1 hs
      intro t ht
      rw [mem_singleton.1 ht]
      exact h.2 (not_not.1 hr) v hv

lemma insertionSort_eq_iff {α : Type*} (r : α → α → Prop) [DecidableRel r] [Std.Total r]
    [IsTrans α r] (antisymm : ∀ a b, r a b → r b a → a = b) (l l' : List α) :
    l.insertionSort r = l'.insertionSort r ↔ l.Perm l' := by
  constructor
  · intro h
    have hl := (perm_insertionSort r l).symm
    rw [h] at hl
    exact hl.trans (perm_insertionSort r l')
  · intro h
    have hs := (perm_insertionSort r l).trans (h.trans (perm_insertionSort r l').symm)
    exact hs.eq_of_pairwise (fun a b _ _ => antisymm a b) (pairwise_insertionSort r l)
      (pairwise_insertionSort r l')

lemma sortStrings_eq_iff (s s' : List Text) : sortStrings s = sortStrings s' ↔ s.Perm s' := by
  exact insertionSort_eq_iff _ (fun _ _ => List.le_antisymm) s s'

lemma sortInts_eq_iff (s s' : List Int) : sortInts s = sortInts s' ↔ s.Perm s' :=
  insertionSort_eq_iff _ (fun _ _ => le_antisymm) s s'

namespace TagFilter

/-- The filters have one regular expression or, without one, values with the same strings. -/
def ReadsAs (f g : TagFilter) : Prop := f.re2 = g.re2 ∧
    (f.re2 = [] → (f.values.map string).Perm (g.values.map string))

/-- What is written once more for the string top: without a regular expression the last value,
and of it not its string but the text it holds. -/
def TopReadsAs (f g : TagFilter) : Prop := f.re2 = g.re2 ∧
    (f.re2 = [] → f.values.getLast?.map TagValue.value = g.values.getLast?.map TagValue.value)

def Same (f g : TagFilter) : Prop := (∀ v, v ∈ f.values ↔ v ∈ g.values) ∧ f.re2 = g.re2

lemma shown_eq_iff (f g : TagFilter) : f.shown = g.shown ↔ f.ReadsAs g := by
  rw [shown, shown, ReadsAs]
  by_cases hf : f.re2 = []
  · by_cases hg : g.re2 = []
    · have hn l : (l.map string).Perm [] ↔ l = [] := by
        rw [perm_nil, map_eq_nil_iff]
      by_cases hv : f.values = [] <;> by_cases ha : g.values = [] <;>
        simp [hf, hg, hv, ha, sortStrings_eq_iff]
    · by_cases hv : f.values = [] <;> simp [hf, hg]
  · by_cases hg : g.re2 = []
    · by_cases ha : g.values = [] <;> simp [hf, hg]
    · simp [hf, hg]

lemma shownTop_eq_iff (f g : TagFilter) : f.shownTop = g.shownTop ↔ f.TopReadsAs g := by
  rw [shownTop, shownTop, TopReadsAs]
  by_cases hf : f.re2 = []
  · by_cases hg : g.re2 = []
    · cases hv : f.values.getLast? <;> cases ha : g.values.getLast? <;> simp [hf, hg]
    · cases hv : f.values.getLast? <;> simp [hf, hg]
  · by_cases hg : g.re2 = []
    · cases ha : g.values.getLast? <;> simp [hf, hg]
    · simp [hf, hg]

end TagFilter

namespace TagFilters

variable {f g : TagFilters}

lemma formatInt_ne_top (n : Int) : formatInt n ≠ ascii "_s" := fun h => by
  simpa using mem_formatInt (h ▸ by decide : 95 ∈ formatInt n)

lemma mem_entries {i : Fin maxTags} {s : Shown} :
    (formatInt i, s) ∈ f.entries ++ f.topEntry ↔ (f.tags i).shown = some s := by
  rw [mem_append]
  constructor
  · rintro (h | h)
    · obtain ⟨j, -, hs⟩ := mem_filterMap.1 h
      obtain ⟨s', hs', heq⟩ := map_eq_some_iff.1 hs
      obtain ⟨hij, rfl⟩ := Prod.mk.inj heq
      have : j = i := Fin.ext (Int.ofNat.inj (formatInt_injective hij))
      rw [← this, hs']
    · obtain ⟨s', -, heq⟩ := map_eq_some_iff.1 (mem_toList.1 h)
      exact absurd (Prod.mk.inj heq).1.symm (formatInt_ne_top i)
  · intro h
    exact inl (mem_filterMap.2 ⟨i, mem_finRange i, by rw [h]; rfl⟩)

lemma mem_topEntry {s : Shown} :
    (ascii "_s", s) ∈ f.entries ++ f.topEntry ↔ (f.tags stringTop).shownTop = some s := by
  rw [mem_append]
  constructor
  · rintro (h | h)
    · obtain ⟨j, -, hs⟩ := mem_filterMap.1 h
      obtain ⟨s', -, heq⟩ := map_eq_some_iff.1 hs
      exact absurd (Prod.mk.inj heq).1 (formatInt_ne_top j)
    · obtain ⟨s', hs', heq⟩ := map_eq_some_iff.1 (mem_toList.1 h)
      rw [hs', (Prod.mk.inj heq).2]
  · intro h
    exact inr (mem_toList.2 (map_eq_some_iff.2 ⟨s, h, rfl⟩))

/-- Every tag reads the same. -/
def ReadsAs (f g : TagFilters) : Prop :=
  (∀ t, (f.tags t).ReadsAs (g.tags t)) ∧ (f.tags stringTop).TopReadsAs (g.tags stringTop)

lemma entries_eq_iff : f.entries ++ f.topEntry = g.entries ++ g.topEntry ↔ f.ReadsAs g := by
  constructor
  · intro h
    refine ⟨fun t => (shown_eq_iff _ _).1 (ext fun s => ?_),
      (shownTop_eq_iff _ _).1 (ext fun s => ?_)⟩
    · rw [← mem_entries, h, mem_entries]
    · rw [← mem_topEntry, h, mem_topEntry]
  · rintro ⟨ht, hp⟩
    rw [entries, entries, topEntry, topEntry, (shownTop_eq_iff _ _).2 hp]
    simp only [fun t => (shown_eq_iff _ _).2 (ht t)]

/-- Only the texts that are shown matter. -/
lemma objectText_congr
    (h : ∀ i, (f.tags i).shown.map shownText = (g.tags i).shown.map shownText)
    (ht : (f.tags stringTop).shownTop.map shownText = (g.tags stringTop).shownTop.map shownText) :
    objectText (f.entries ++ f.topEntry) = objectText (g.entries ++ g.topEntry) := by
  have he (key : Text) (s : Option Shown) : s.map (fun s => entryText (key, s)) =
      (s.map shownText).map fun text => quoted key ++ (58 :: text) := by
    cases s <;> rfl
  simp [objectText, entries, topEntry, map_filterMap, Function.comp_def, he, h, ht,
    ← Option.toList_map]

end TagFilters

namespace Query

/-- For every tag the filters have the same values, by flags, text and number, and the same
regular expression. -/
def SameFilters (b b' : Query) : Prop := ∀ t, ((b.filterIn.tags t).Same (b'.filterIn.tags t)) ∧
    (b.filterNotIn.tags t).Same (b'.filterNotIn.tags t)

/-- The same digests, tags to group by and order of rows. -/
structure SameSelection (b b' : Query) : Prop where
  selects : b.selects = b'.selects
  byTags : b.byTags.Perm b'.byTags
  sort : b.sort = b'.sort

/-- No filter writes a quote. -/
def Unquoted (b : Query) : Prop := b.filterIn.Unquoted ∧ b.filterNotIn.Unquoted

/-- The filters read the same in a key. -/
def ReadsAs (b b' : Query) : Prop :=
  b.filterIn.ReadsAs b'.filterIn ∧ b.filterNotIn.ReadsAs b'.filterNotIn

variable {b b' : Query}

lemma head_congr (h : b.singleMetric = b'.singleMetric) : b.head = b'.head := by
  simp [head, metricID, preKeyTagX, isStringTop, h]

lemma sameSelection_iff : b.SameSelection b' ↔ b.selects = b'.selects ∧
    (sortInts b.byTags).map formatInt = (sortInts b'.byTags).map formatInt ∧
    b.sort.number = b'.sort.number := by
  have hs : b.sort.number = b'.sort.number ↔ b.sort = b'.sort := by
    cases b.sort <;> cases b'.sort <;> decide
  rw [(map_injective_iff.2 formatInt_injective).eq_iff, sortInts_eq_iff, hs]
  exact ⟨fun h => ⟨h.selects, h.byTags, h.sort⟩, fun h => ⟨h.1, h.2.1, h.2.2⟩⟩

/-- With quotes or without, queries whose filters read the same share a key. -/
theorem buildCacheKey_congr (hmetric : b.singleMetric = b'.singleMetric)
    (sameSelection : b.SameSelection b') (readsAs : b.ReadsAs b') :
    b.buildCacheKey = b'.buildCacheKey := by
  obtain ⟨hs, hb, ho⟩ := sameSelection_iff.1 sameSelection
  rw [buildCacheKey_eq, buildCacheKey_eq, head_congr hmetric, hs, hb, ho,
    TagFilters.entries_eq_iff.2 readsAs.1, TagFilters.entries_eq_iff.2 readsAs.2]

/-- Without quotes no others do. -/
theorem buildCacheKey_eq_iff (hmetric : b.singleMetric = b'.singleMetric) (hb : b.Unquoted)
    (hb' : b'.Unquoted) :
    b.buildCacheKey = b'.buildCacheKey ↔ b.SameSelection b' ∧ b.ReadsAs b' := by
  refine ⟨fun h => ?_, fun h => buildCacheKey_congr hmetric h.1 h.2⟩
  have hf (s : List Int) : ∀ t ∈ s.map formatInt, CacheKey.Unquoted t := by
    intro t ht
    obtain ⟨n, -, rfl⟩ := mem_map.1 ht
    exact unquoted_formatInt n
  rw [buildCacheKey_eq, buildCacheKey_eq, head_congr hmetric, append_cancel_left_eq] at h
  obtain ⟨hs, h⟩ := selfDelimiting_listText b.unquoted_selects b'.unquoted_selects h
  obtain ⟨hy, h⟩ := selfDelimiting_listText.behind _ (hf _) (hf _) h
  obtain ⟨hin, h⟩ := selfDelimiting_objectText.behind _ (TagFilters.unquoted_entries hb.1)
    (TagFilters.unquoted_entries hb'.1) h
  obtain ⟨hn, h⟩ := selfDelimiting_objectText.behind _ (TagFilters.unquoted_entries hb.2)
    (TagFilters.unquoted_entries hb'.2) h
  have ho := formatInt_injective (append_cancel_right (append_cancel_left h))
  exact ⟨sameSelection_iff.2 ⟨hs, hy, ho⟩, TagFilters.entries_eq_iff.1 hin,
    TagFilters.entries_eq_iff.1 hn⟩

lemma buildCacheKey_sortInts :
    { b with byTags := sortInts b.byTags }.buildCacheKey = b.buildCacheKey :=
  buildCacheKey_congr rfl ⟨rfl, perm_insertionSort _ _, rfl⟩
    ⟨TagFilters.entries_eq_iff.1 rfl, TagFilters.entries_eq_iff.1 rfl⟩

end Query

/-- A query and its key, once that has been built. -/
structure QueryBuilder extends Query where
  cacheKey : Text := []
  memo : cacheKey = [] ∨ cacheKey = toQuery.buildCacheKey := by exact inl rfl

namespace QueryBuilder

/-- Sorts the tags to group by in place. -/
def getOrBuildCacheKey (b : QueryBuilder) : Text × QueryBuilder :=
  if b.cacheKey ≠ [] then (b.cacheKey, b)
  else
    (b.buildCacheKey, { b with
        byTags := sortInts b.byTags
        cacheKey := b.buildCacheKey
        memo := inr b.buildCacheKey_sortInts.symm })

lemma getOrBuildCacheKey_fst (b : QueryBuilder) : b.getOrBuildCacheKey.1 = b.buildCacheKey := by
  rw [getOrBuildCacheKey]
  split_ifs with hk
  · exact b.memo.resolve_left hk
  · rfl

/-- Without quotes the filters decide the key as far as they read differently. -/
theorem keys_apart_iff (b b' : QueryBuilder) (hmetric : b.singleMetric = b'.singleMetric)
    (hb : b.Unquoted) (hb' : b'.Unquoted) :
    (¬b.SameFilters b'.toQuery → b.getOrBuildCacheKey.1 ≠ b'.getOrBuildCacheKey.1) ↔
      b.SameFilters b'.toQuery ∨ ¬b.SameSelection b'.toQuery ∨ ¬b.ReadsAs b'.toQuery := by
  rw [getOrBuildCacheKey_fst, getOrBuildCacheKey_fst, Ne,
    Query.buildCacheKey_eq_iff hmetric hb hb', not_and_or]
  exact or_iff_not_imp_left.symm

/-- A query with a filter for one tag. -/
def ofTag (t : Nat) (values : List TagValue) : QueryBuilder :=
  { filterIn := { tags := fun i => if i.val = t then { values } else {} } }

variable {values : List TagValue}

lemma tags_ofTag (ht : t ≠ stringTop) : (ofTag t values).filterIn.tags stringTop = {} :=
  if_neg ht.symm

lemma unquoted_ofTag (ht : t ≠ stringTop) (h : ∀ v ∈ values, CacheKey.Unquoted v.string) :
    (ofTag t values).Unquoted := by
  refine ⟨⟨fun i => ?_, fun _ => ?_⟩, fun i => ⟨not_mem_nil, fun _ => forall_mem_nil _⟩,
    by simp [ofTag]⟩
  · simp only [ofTag]
    split_ifs
    · exact ⟨not_mem_nil, fun _ => h⟩
    · exact ⟨not_mem_nil, fun _ => forall_mem_nil _⟩
  · simp [tags_ofTag ht]

lemma not_sameFilters_ofTag {values' : List TagValue} (ht : t < maxTags) {v : TagValue}
    (hv : v ∈ values) (hv' : v ∉ values') :
    ¬(ofTag t values).SameFilters (ofTag t values').toQuery := by
  intro h
  have hm := (h ⟨t, ht⟩).1.1 v
  simp only [ofTag] at hm
  exact hv' (hm.1 hv)

theorem cpu_and_memory_apart :
    let b := ofTag 1 [.newTagValueS (ascii "cpu")]
    let b' := ofTag 1 [.newTagValueS (ascii "memory")]
    ¬b.SameFilters b'.toQuery → b.getOrBuildCacheKey.1 ≠ b'.getOrBuildCacheKey.1 := by
  intro b b'
  refine (keys_apart_iff b b' rfl (unquoted_ofTag (by decide) (by decide))
    (unquoted_ofTag (by decide) (by decide))).2 (inr (inr ?_))
  intro h
  have hp := (h.1.1 ⟨1, by decide⟩).2 rfl
  exact absurd hp (by decide +kernel)

/-- Two strings for a tag other than the string top share a key with the one string that has
`","` between them. -/
theorem quotes_share_key (hlt : t < maxTags) (ht : t ≠ stringTop) {x y : Text} (h : x ≤ y) :
    let b := ofTag t [.newTagValueS (x ++ ascii "\",\"" ++ y)]
    let b' := ofTag t [.newTagValueS x, .newTagValueS y]
    ¬b.SameFilters b'.toQuery ∧ b.getOrBuildCacheKey.1 = b'.getOrBuildCacheKey.1 := by
  intro b b'
  refine ⟨not_sameFilters_ofTag hlt (.head _) fun hm => ?_, ?_⟩
  · have hl : (x ++ ascii "\",\"" ++ y).length ≤ x.length + y.length := by
      rcases mem_pair.1 hm with hx | hy
      · exact (congrArg (·.value.length) hx).trans_le (Nat.le_add_right ..)
      · exact (congrArg (·.value.length) hy).trans_le (Nat.le_add_left ..)
    simp [ascii] at hl
    omega
  rw [getOrBuildCacheKey_fst, getOrBuildCacheKey_fst, Query.buildCacheKey_eq,
    Query.buildCacheKey_eq, TagFilters.objectText_congr]
  · rfl
  · intro i
    by_cases hi : i.val = t
    · simp [b, b', ofTag, hi, shown, string, newTagValueS, h, sortStrings, shownText, listText,
        quoted, quote, ascii]
    · simp [b, b', ofTag, hi]
  · rw [tags_ofTag ht, tags_ofTag ht]

/-- The string of five and the number five, and one string and the two that it looks like. -/
theorem keys_collide : (let b := ofTag 1 [.newTagValueS (ascii "5")]
      let b' := ofTag 1 [.newTagValueM 5]
      ¬b.SameFilters b'.toQuery ∧ b.getOrBuildCacheKey.1 = b'.getOrBuildCacheKey.1) ∧
    (let b := ofTag 1 [.newTagValueS (ascii "a" ++ ascii "\",\"" ++ ascii "b")]
      let b' := ofTag 1 [.newTagValueS (ascii "a"), .newTagValueS (ascii "b")]
      ¬b.SameFilters b'.toQuery ∧ b.getOrBuildCacheKey.1 = b'.getOrBuildCacheKey.1) :=
  ⟨⟨not_sameFilters_ofTag (by decide) (.head _) (by decide), by decide +kernel⟩,
    quotes_share_key (by decide) (by decide) (by decide)⟩

end QueryBuilder

end CacheKey
