import StatsHouse.TagMapping
import StatsHouse.TagTables

/-!
# Raw 64-bit tags and the end of the tag arrays

`RestoreCachedInfo` means to take the raw64 flag from the last tag, but it looks at the index
of the tag before it has assigned it. On a description that was just decoded all indices are
zero, so the flag stays, and an agent that maps such a tag writes behind the arrays.
-/

namespace MetricMeta

variable {m : MetricMetaValue} {ref : TagRef}

/-- Agents find no place behind the arrays by its name. -/
def Restoring.NamesInRange (m : MetricMetaValue) : Prop :=
  ∀ name i, m.name2TagAgent.lookup name = some i → i < maxTags

/-- The kind of a tag once the environment tag has lost its own. -/
def MetricMetaValue.keptRawKind (m : MetricMetaValue) (i : Nat) : List UInt8 :=
  if 0 = i then [] else (m.tags.getD i default).rawKind

section

variable (parseFloat32 : List UInt8 → Option ℚ) {m : MetricMetaValue}

lemma getElem?_restoreCachedInfo_tags (m : MetricMetaValue) (i : Nat) :
    (restoreCachedInfo parseFloat32 m).1.tags[i]? = m.tags[i]?.map fun tag =>
      let tag := if 0 = i then Restoring.envTag tag else tag
      if i < maxTags then { Restoring.restoredTag i tag with index := i } else tag := by
  rw [restoreCachedInfo_tags]
  simp only [List.getElem?_mapIdx, List.getElem?_modify, MetricMetaValue.tagCount]
  rcases Nat.lt_or_ge i m.tags.length with hi | hi
  · simp only [List.getElem?_eq_getElem hi, lt_min_iff, hi, true_and]
    by_cases h0 : 0 = i <;> by_cases hm : i < maxTags <;> simp [h0, hm]
  · simp [List.getElem?_eq_none hi]

/-- The flag of a place is that of its kind, also on the last place. -/
lemma restored_getD (hm : Decoded m) (i : Nat) :
    let tag := (restoreCachedInfo parseFloat32 m).1.tags.getD i default
    (tag.index = if i < maxTags ∧ i < m.tags.length then (i : Int) else 0) ∧
      tag.raw64 = (decide (i < maxTags) && isRaw64Kind (m.keptRawKind i)) := by
  intro tag
  have ht := getElem?_restoreCachedInfo_tags parseFloat32 m i
  have hp : 1 < maxTags := by decide
  have hd : (default : MetricMetaTag) = {} := rfl
  have hn : isRaw64Kind [] = false := rfl
  rcases Nat.lt_or_ge i m.tags.length with hi | hi
  · have ha := hm.index _ (List.getElem_mem hi)
    have hrw64 := hm.raw64 _ (List.getElem_mem hi)
    simp only [tag, List.getD_eq_getElem?_getD, ht, Option.getD_some,
      MetricMetaValue.keptRawKind, List.getElem?_eq_getElem hi]
    by_cases h0 : 0 = i <;> by_cases hx : i < maxTags <;>
      simp [h0, hx, hi, ha, hrw64, hp, Restoring.restoredTag, Restoring.envTag]
  · rw [List.getElem?_eq_none hi, Option.map_none] at ht
    simp only [tag, List.getD_eq_getElem?_getD, ht, Option.getD_none,
      MetricMetaValue.keptRawKind, List.getElem?_eq_none hi, Nat.not_lt_of_ge hi]
    by_cases h0 : 0 = i <;> simp [h0, hd, hn]

end

/-- The pointers an agent can get. -/
inductive AgentRef : TagRef → Prop
  | own (i : Nat) : AgentRef (.own i)
  | default {i : Nat} (hi : i < maxTags) : AgentRef (.default i)
  | host : AgentRef .defaultHTag

lemma numberedTag_agentRef {num : Nat} (h : m.numberedTag num = some ref) : AgentRef ref := by
  simp only [MetricMetaValue.numberedTag] at h
  split_ifs at h with how hd
  · cases h
    exact .own num
  · cases h
    exact .default hd

lemma name2TagAgentFastBytes_agentRef {name : List UInt8}
    (h : m.name2TagAgentFastBytes name = some ref) : AgentRef ref := by
  simp only [MetricMetaValue.name2TagAgentFastBytes] at h
  split_ifs at h
  · cases h
    exact .host
  · exact numberedTag_agentRef h
  · obtain ⟨num, -, hn⟩ := Option.bind_eq_some_iff.1 h
    exact numberedTag_agentRef hn

lemma name2TagAgentFastLegacyBytes_agentRef {name : List UInt8}
    (h : m.name2TagAgentFastLegacyBytes name = some ref) : AgentRef ref := by
  simp only [MetricMetaValue.name2TagAgentFastLegacyBytes] at h
  split at h
  · split at h
    · cases h
    · next num _ =>
      split_ifs at h with hold how
      · cases h
        exact .own num
      · cases h
        exact .default ((not_le.1 hold).trans (by decide))
  · cases h

/-- The lookup does not panic. -/
lemma name2TagAgentLookup_agentRef (hm : Restoring.NamesInRange m) (name : List UInt8) :
    ∃ found legacyName, m.name2TagAgentLookup name = some (found, legacyName) ∧
      ∀ ref, found = some ref → AgentRef ref := by
  simp only [MetricMetaValue.name2TagAgentLookup]
  split
  · next ref hr =>
    refine ⟨some ref, false, rfl, ?_⟩
    rintro _ ⟨⟩
    exact name2TagAgentFastBytes_agentRef hr
  · split
    · next i hi =>
      have hx := hm name i hi
      split_ifs
      · refine ⟨_, _, rfl, ?_⟩
        rintro _ ⟨⟩
        exact .own i
      · refine ⟨_, _, rfl, ?_⟩
        rintro _ ⟨⟩
        exact .default hx
    · split
      · next ref hr =>
        refine ⟨_, _, rfl, ?_⟩
        rintro _ ⟨⟩
        exact name2TagAgentFastLegacyBytes_agentRef hr
      · refine ⟨_, _, rfl, ?_⟩
        rintro _ ⟨⟩

end MetricMeta

namespace TagMapping

open MetricMeta List Option MetricMetaValue MappedMetricHeader
variable {tag : MetricMetaTag}

/-- A tag whose value fits the arrays, both halves of it if there are two. -/
def Fits (tag : MetricMetaTag) : Prop :=
  if tag.index = hostTagIndex then tag.raw64 = false
  else 0 ≤ tag.index ∧ tag.index + (if tag.raw64 then 1 else 0) < maxTags

/-- The write succeeded and left the description. -/
def Done (h : MappedMetricHeader) (result : Option MappedMetricHeader) : Prop :=
  ∃ h', result = some h' ∧ h'.metricMeta = h.metricMeta

lemma arrayIndex_of_lt {i : Int} (h0 : 0 ≤ i) (small : i < maxTags) :
    arrayIndex i = some ⟨i.toNat, by omega⟩ :=
  dif_pos ⟨h0, by omega⟩

lemma setTag_done (h : MappedMetricHeader) {i : Int} (value : TagUnion) (tagIDKey : Int)
    (hi : i = hostTagIndex ∨ 0 ≤ i ∧ i < maxTags) : Done h (h.setTag i value tagIDKey) := by
  by_cases hh : i = hostTagIndex
  · rw [setTag, if_pos hh]
    exact ⟨_, rfl, rfl⟩
  · obtain ⟨h0, hm⟩ := hi.resolve_left hh
    simp only [setTag, if_neg hh, arrayIndex_of_lt h0 hm]
    exact ⟨_, rfl, rfl⟩

lemma storeTag_done (h : MappedMetricHeader) {i : Int} (tagValue : TagUnion) (tagIDKey : Int)
    (value : List UInt8) (hi : i = hostTagIndex ∨ 0 ≤ i ∧ i < maxTags) :
    Done h (storeTag h i tagValue tagIDKey value) := by
  obtain ⟨h', hs, hm⟩ := setTag_done h tagValue tagIDKey hi
  simp only [storeTag, hs, bind_eq_bind, bind_some]
  split_ifs with hh
  · obtain ⟨h0, hx⟩ := hi.resolve_left hh
    simp only [setOriginalTagValue, arrayIndex_of_lt h0 hx]
    exact ⟨_, rfl, hm⟩
  · exact ⟨h', rfl, hm⟩

lemma Fits.of_place (h0 : 0 ≤ tag.index) (small : tag.index < maxTags)
    (raw : tag.raw64 = true → tag.index ≠ (maxTags : Int) - 1) : Fits tag := by
  have hh : tag.index ≠ hostTagIndex := by
    simp only [hostTagIndex]
    omega
  rw [Fits, if_neg hh]
  refine ⟨h0, ?_⟩
  split_ifs with h
  · have := raw h
    omega
  · omega

lemma Fits.place (h : Fits tag) :
    tag.index = hostTagIndex ∨ 0 ≤ tag.index ∧ tag.index < maxTags := by
  simp only [Fits] at h
  split_ifs at h with hh
  · exact .inl hh
  · exact .inr ⟨h.1, by omega⟩
  · exact .inr ⟨h.1, by omega⟩

lemma Fits.next_place (h : Fits tag) (raw : tag.raw64 = true) :
    0 ≤ tag.index + 1 ∧ tag.index + 1 < maxTags := by
  simp only [Fits, raw] at h
  split_ifs at h
  exact ⟨by omega, h.2⟩

section Mapping

variable (validString : List UInt8 → Option (List UInt8)) (hexString : List UInt8 → List UInt8)
  (mappings : List UInt8 → Option (BitVec 32))

variable (h : MappedMetricHeader)
include h

lemma mapTag_done {ref : TagRef} (tagIDKey : Int) (value : List UInt8)
    (fits : Fits (h.metricMeta.deref ref)) : Done h (mapTag mappings h ref tagIDKey value) := by
  simp only [mapTag]
  split_ifs with he hrw64 hw
  · exact storeTag_done h _ _ _ fits.place
  · split
    · exact ⟨_, rfl, rfl⟩
    · next lo hi _ =>
      obtain ⟨h', hs, hm⟩ := setTag_done h { i := hi } (tagIDKey + 1)
        (.inr (fits.next_place hrw64))
      obtain ⟨h'', hr, hmt'⟩ := storeTag_done h' { i := lo } tagIDKey value fits.place
      simp only [hs, bind_eq_bind, bind_some]
      exact ⟨h'', hr, hmt'.trans hm⟩
  · split
    · exact ⟨_, rfl, rfl⟩
    · exact storeTag_done h _ _ _ fits.place
  · exact storeTag_done h _ _ _ fits.place

lemma mapValidateTag_done (namesInRange : Restoring.NamesInRange h.metricMeta)
    (key value : List UInt8) :
    ∃ found h', mapValidateTag validString hexString h key value = some (found, h') ∧
      h'.metricMeta = h.metricMeta ∧
      ∀ ref tagIDKey value, found = .tag ref tagIDKey value → AgentRef ref := by
  obtain ⟨found, legacyName, hl, hr⟩ := name2TagAgentLookup_agentRef namesInRange key
  simp only [mapValidateTag, hl, bind_eq_bind, bind_some]
  split
  · split
    · exact ⟨_, _, rfl, rfl, by rintro _ _ _ ⟨⟩⟩
    · split_ifs <;> exact ⟨_, _, rfl, rfl, by rintro _ _ _ ⟨⟩⟩
  · next ref hlt =>
    have ha := hr ref (filter_eq_some_iff.1 hlt).1
    split
    · refine ⟨_, _, rfl, ?_, by rintro _ _ _ ⟨⟩⟩
      cases legacyName <;> rfl
    · split_ifs
      · exact ⟨_, _, rfl, rfl, by rintro _ _ _ ⟨⟩⟩
      · exact ⟨_, _, rfl, rfl, by rintro _ _ _ ⟨⟩⟩
      · exact ⟨_, _, rfl, rfl, by rintro _ _ _ ⟨⟩; exact ha⟩
      · exact ⟨_, _, rfl, rfl, by rintro _ _ _ ⟨⟩; exact ha⟩

/-- No event makes an agent write behind the arrays when every tag it can find fits. -/
lemma mapAllTags_isSome (namesInRange : Restoring.NamesInRange h.metricMeta)
    (fits : ∀ ref, AgentRef ref → Fits (h.metricMeta.deref ref)) (host : List UInt8)
    (tags : List (List UInt8 × List UInt8)) :
    (mapAllTags validString hexString mappings h host tags).isSome := by
  induction tags generalizing h with
  | nil =>
    simp only [mapAllTags, mapHost]
    split_ifs
    · obtain ⟨h', hs, -⟩ := setTag_done h (mappedValue mappings host) 0 (.inl rfl)
      rfl
    · rfl
  | cons tag rest ih =>
    obtain ⟨key, value⟩ := tag
    obtain ⟨found, h', hv, hm, hr⟩ :=
      mapValidateTag_done validString hexString h namesInRange key value
    simp only [mapAllTags, hv, bind_eq_bind, bind_some]
    rw [← hm] at namesInRange fits
    cases found with
    | invalidEvent => rfl
    | unknown => exact ih h' namesInRange fits
    | tag ref tagIDKey value =>
      obtain ⟨h'', hp, hmt'⟩ :=
        mapTag_done mappings h' tagIDKey value (fits ref (hr _ _ _ rfl))
      simp only [hp, bind_some]
      rw [← hmt'] at namesInRange fits
      exact ih h'' namesInRange fits

end Mapping

/-- The last tag that has a place is raw with 64 bits. -/
def LastTagRaw64 (m : MetricMetaValue) : Prop :=
  isRaw64Kind (m.tags.getD (maxTags - 1) default).rawKind = true

instance (m : MetricMetaValue) : Decidable (LastTagRaw64 m) :=
  inferInstanceAs (Decidable (_ = _))

/-- Raw tags stay inside the arrays, and so does every event. -/
def StaysInRange (restored : MetricMetaValue) : Prop :=
  (∀ tag ∈ restored.tags, tag.index = (maxTags : Int) - 1 → tag.raw64 = false) ∧
    ∀ validString hexString mappings host tags,
      (mapAllTags validString hexString mappings { metricMeta := restored } host tags).isSome

variable (parseFloat32 : List UInt8 → Option ℚ) {m : MetricMetaValue}

lemma restored_fits (hm : Decoded m) (hl : ¬LastTagRaw64 m) (ref : TagRef)
    (agentRef : AgentRef ref) : Fits ((restoreCachedInfo parseFloat32 m).1.deref ref) := by
  cases agentRef with
  | own i =>
    obtain ⟨hd, hrw64⟩ := restored_getD parseFloat32 hm i
    apply Fits.of_place
    · rw [deref, hd]
      split_ifs <;> omega
    · rw [deref, hd]
      split_ifs with hi
      · exact Int.ofNat_lt.2 hi.1
      · decide
    · intro hr hx
      rw [deref, hd] at hx
      rw [deref, hrw64, Bool.and_eq_true] at hr
      have hi : i = maxTags - 1 := by
        split_ifs at hx
        · simp only [maxTags] at hx ⊢
          omega
        · cases hx
      subst hi
      exact hl hr.2
  | @default i hi =>
    apply Fits.of_place
    · exact Int.natCast_nonneg i
    · exact Int.ofNat_lt.2 hi
    · intro hr
      cases hr
  | host => rfl

lemma lastTagRaw64_lt_length (hl : LastTagRaw64 m) : maxTags - 1 < m.tags.length := by
  by_contra hn
  rw [LastTagRaw64, getD_eq_default _ _ (not_lt.1 hn)] at hl
  exact absurd hl (by decide)

lemma getD_mem_restored {i : Nat} (hi : i < m.tags.length) :
    (restoreCachedInfo parseFloat32 m).1.tags.getD i default ∈
      (restoreCachedInfo parseFloat32 m).1.tags := by
  have hl : (restoreCachedInfo parseFloat32 m).1.tags.length = m.tags.length := by
    simp [restoreCachedInfo_tags]
  rw [getD_eq_getElem _ _ (hl ▸ hi)]
  exact getElem_mem _

/-- Nothing is written behind the arrays exactly when the last tag is not raw with 64 bits. -/
theorem staysInRange_iff (hm : Decoded m) :
    StaysInRange (restoreCachedInfo parseFloat32 m).1 ↔ ¬LastTagRaw64 m := by
  constructor
  · rintro ⟨ha, -⟩ hl
    obtain ⟨hd, hrw64⟩ := restored_getD parseFloat32 hm (maxTags - 1)
    have hn := lastTagRaw64_lt_length hl
    have he := getD_mem_restored parseFloat32 hn
    rw [if_pos ⟨by decide, hn⟩] at hd
    have hk : isRaw64Kind (m.keptRawKind (maxTags - 1)) = true := hl
    rw [hk, ha _ he hd] at hrw64
    exact absurd hrw64 (by decide)
  · intro hl
    constructor
    · intro tag ht hd
      obtain ⟨i, hi, rfl⟩ := mem_iff_getElem.1 ht
      have hf := restored_fits parseFloat32 hm hl _ (.own i)
      rw [deref, getD_eq_getElem _ _ hi] at hf
      by_contra hr
      have := (hf.next_place (Bool.not_eq_false _ ▸ hr)).2
      omega
    · intro validString hexString mappings host tags
      have hs : Restoring.NamesInRange _ := fun _ _ => restoreCachedInfo_names parseFloat32 hm
      have hf := restored_fits parseFloat32 hm hl
      generalize (restoreCachedInfo parseFloat32 m).1 = restored at hs hf ⊢
      exact mapAllTags_isSome validString hexString mappings { metricMeta := restored } hs
        hf host tags

/-- All the tags there can be, the last one raw. -/
def fullDescription (lastRawKind : List UInt8) : MetricMetaValue :=
  { name := ascii "full"
    kind := ascii "counter"
    tags := List.replicate 47 {} ++ [{ rawKind := lastRawKind }] }

lemma decoded_fullDescription (lastRawKind : List UInt8) :
    Decoded (fullDescription lastRawKind) where
  index tag h := by
    simp only [fullDescription, mem_append, mem_replicate, mem_singleton] at h
    rcases h with ⟨-, rfl⟩ | rfl <;> rfl
  raw64 tag h := by
    simp only [fullDescription, mem_append, mem_replicate, mem_singleton] at h
    rcases h with ⟨-, rfl⟩ | rfl <;> rfl
  name2TagAgent := rfl

theorem staysInRange_full :
    StaysInRange (restoreCachedInfo (fun _ => none) (fullDescription (ascii "int"))).1 :=
  (staysInRange_iff (fun _ => none) (decoded_fullDescription (ascii "int"))).2 (by decide)

/-- The description is accepted without an error, keeps the flag on its last tag, and the first
event with a number in that tag is a panic. -/
theorem last_raw64_tag_panics :
    let restored := restoreCachedInfo (fun _ => none) (fullDescription (ascii "int64"))
    restored.2 = [] ∧ ((restored.1.tags.getD 47 default).index = 47 ∧
        (restored.1.tags.getD 47 default).raw64 = true) ∧
      (mapAllTags some id (fun _ => none) { metricMeta := restored.1 } []
        [(ascii "47", ascii "1")]).isNone := by
  intro restored
  refine ⟨?_, ⟨?_, ?_⟩, ?_⟩ <;> decide +kernel

end TagMapping
