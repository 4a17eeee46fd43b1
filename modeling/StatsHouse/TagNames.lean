import StatsHouse.TagTables

/-!
# What a name means to agents and to the API

Agents and the API look a tag up in two tables that `RestoreCachedInfo` fills side by side. In
the table of the API the first tag with a name keeps it, in that of the agents the last one
gets it, and the agents have short cuts of their own, for `_s` and `_h` before their table and
for the legacy names behind it.
-/

namespace MetricMeta

variable {name : List UInt8} {m : MetricMetaValue} {i : Nat}

lemma placeAt_inj {j : Nat} : placeAt i = placeAt j ↔ i = j := by
  constructor
  · intro h
    by_cases hi : i = stringTopTagIndexV3 <;> by_cases hj : j = stringTopTagIndexV3 <;>
      simp_all [placeAt]
  · exact congrArg placeAt

lemma placeAt_eq_stringTop : placeAt i = .stringTop ↔ i = stringTopTagIndexV3 := by
  by_cases hi : i = stringTopTagIndexV3 <;> simp [placeAt, hi]

lemma placeAt_ne_host (i : Nat) : placeAt i ≠ .host := by
  by_cases hi : i = stringTopTagIndexV3 <;> simp [placeAt, hi]

namespace MetricMetaValue

/-- Agents and the API find the same tag, or both find none. -/
def SameTag (m : MetricMetaValue) (name : List UInt8) : Prop :=
  ∃ tag legacy, m.name2TagAgentLookup name = some (tag, legacy) ∧
    tag.map TagRef.place = (m.name2TagLookup name).map TagRef.place

def Named (m : MetricMetaValue) (name : List UInt8) (i : Nat) : Prop :=
  i < m.tagCount ∧ m.NameOf name i

/-- A name that is not a number has one owner at most, and a fixed name no other than its own. -/
structure OneOwner (m : MetricMetaValue) (name : List UInt8) : Prop where
  unique (i j : Nat) (hi : m.Named name i) (hj : m.Named name j) : i = j
  stringTop (h : name = stringTopTagID ∨ m.StringTopOf name) (i : Nat) (hi : m.Named name i) :
    i = stringTopTagIndexV3
  host (h : name = hostTagID) : (∀ i, ¬m.Named name i) ∧ ¬m.StringTopOf name
  legacy (h : (m.name2TagAgentFastLegacyBytes name).isSome) :
    (∃ i, m.Named name i) ∨ m.StringTopOf name

end MetricMetaValue

section Lookups

open Restoring List Option Prod MetricMetaValue

variable (parseFloat32 : List UInt8 → Option ℚ)

/-- The first owner of a name that is not a number. -/
def MetricMetaValue.firstOwner (m : MetricMetaValue) (name : List UInt8) : Option TagPlace :=
  ((firstBelow (m.NameOf name) m.tagCount).map placeAt).or
    (if name = stringTopTagID ∨ m.StringTopOf name then some .stringTop
    else if name = hostTagID then some .host else none)

/-- A name that is not a number leads the API to its first owner. -/
lemma apiPlace (missing : m.name2TagFast name = none) :
    ((restoreCachedInfo parseFloat32 m).1.name2TagLookup name).map TagRef.place =
      m.firstOwner name := by
  have hc := (name2TagFast_congr (checked_length m) name).trans missing
  have hl : (looped m).m.name2TagFast name = none :=
    (name2TagFast_congr ((checked m).foldl_indexTag_length m.tagCount) name).trans hc
  have ht := (name2TagFast_congr (restoreCachedInfo_length parseFloat32 m) name).trans missing
  have hp := looped_stringTopName m
  have he : (checked m).m.name2Tag = ∅ := congrArg snd (checked_apiView m)
  obtain ⟨r, hr, ha, -⟩ := restoreCachedInfo_views parseFloat32 m
  have hb : r.m.name2Tag = (looped m).restoreStringTop.m.name2Tag := congrArg snd ha
  have how : (looped m).m.name2Tag.lookup name =
      (firstBelow (m.NameOf name) m.tagCount).map .own := by
    rw [looped, lookup_foldl_indexTag _ hc nameOf_iff, he, AList.lookup_empty, none_or]
  rw [MetricMetaValue.name2TagLookup, ht, hr, hb,
    lookup_restoreStringTop _ hl, hp, how, Option.map_map]
  rfl

lemma numberedTag_place {num : Nat} {tag : TagRef} (h : m.numberedTag num = some tag) :
    tag.place = placeAt num := by
  simp only [MetricMetaValue.numberedTag] at h
  split_ifs at h <;> cases h <;> rfl

lemma agentLookup_of_table (missing : m.name2TagAgentFastBytes name = none)
    (found : m.name2TagAgent.lookup name = some i) (hi : i < maxTags) :
    ∃ tag, m.name2TagAgentLookup name = some (some tag, false) ∧ tag.place = placeAt i := by
  by_cases how : i < m.tags.length
  · refine ⟨.own i, ?_, rfl⟩
    simp [name2TagAgentLookup, missing, found, if_pos how]
  · refine ⟨.default i, ?_, rfl⟩
    simp [name2TagAgentLookup, missing, found, if_neg how, if_pos hi]

/-- A name that is not a number leads agents to its last owner. -/
lemma agentPlace (hm : Decoded m) (missing : m.name2TagFast name = none) :
    ∃ tag legacy, (restoreCachedInfo parseFloat32 m).1.name2TagAgentLookup name =
        some (tag, legacy) ∧
      tag.map TagRef.place = if name = hostTagID then some .host
        else if name = stringTopTagID ∨ m.StringTopOf name then some .stringTop
        else ((lastBelow (m.NameOf name) m.tagCount).map placeAt).or
          ((m.name2TagAgentFastLegacyBytes name).map TagRef.place) := by
  set restored := (restoreCachedInfo parseFloat32 m).1 with hr
  have hn := restoreCachedInfo_length parseFloat32 m
  have hu : (tagNumber name).bind restored.numberedTag = none :=
    (name2TagFast_congr hn name).trans missing
  by_cases hh : name = hostTagID
  · refine ⟨some .defaultHTag, false, ?_, ?_⟩
    · simp [name2TagAgentLookup, name2TagAgentFastBytes, hh]
    · rw [if_pos hh]
      rfl
  rw [if_neg hh]
  by_cases ht : name = stringTopTagID
  · obtain ⟨tag, ha⟩ : ∃ tag, restored.numberedTag stringTopTagIndexV3 = some tag := by
      simp only [MetricMetaValue.numberedTag]
      split_ifs with h1 h2
      · exact ⟨_, rfl⟩
      · exact ⟨_, rfl⟩
      · exact absurd (by decide) h2
    refine ⟨some tag, false, ?_, ?_⟩
    · simp [name2TagAgentLookup, name2TagAgentFastBytes, if_neg hh, if_pos ht, ha]
    · rw [if_pos (.inl ht), map_some, numberedTag_place ha]
      rfl
  have hs : restored.name2TagAgentFastBytes name = none := by
    simp [name2TagAgentFastBytes, if_neg hh, if_neg ht, hu]
  have hc := agentTable parseFloat32 hm name
  have hp : Option.map placeAt (restored.name2TagAgent.lookup name) =
      if m.StringTopOf name then some .stringTop
      else (lastBelow (m.NameOf name) m.tagCount).map placeAt := by
    rw [hc]
    split_ifs <;> rfl
  simp only [ht, false_or]
  cases hl : restored.name2TagAgent.lookup name with
  | some i =>
    have hi := restoreCachedInfo_names parseFloat32 hm hl
    obtain ⟨tag, ho, hd⟩ := agentLookup_of_table hs hl hi
    refine ⟨some tag, false, ho, ?_⟩
    rw [hl, map_some] at hp
    rw [map_some, hd, hp]
    split_ifs with hg
    · rfl
    · rw [if_neg hg] at hp
      rw [← hp, some_or]
  | none =>
    rw [hl, map_none] at hp
    have hg : ¬m.StringTopOf name := by
      intro hg
      rw [if_pos hg] at hp
      cases hp
    rw [if_neg hg] at hp
    have he : m.name2TagAgentFastLegacyBytes name =
        restored.name2TagAgentFastLegacyBytes name := by
      simp only [hr, name2TagAgentFastLegacyBytes, hn]
    rw [if_neg hg, ← hp, none_or, he]
    cases hb : restored.name2TagAgentFastLegacyBytes name with
    | some tag =>
      exact ⟨some tag, true, by simp only [name2TagAgentLookup, hs, hl,
        hb], rfl⟩
    | none =>
      exact ⟨none, false, by simp only [name2TagAgentLookup, hs, hl,
        hb], rfl⟩

/-- A number is looked up in the same way on both sides. -/
lemma sameTag_of_number (h : (m.name2TagFast name).isSome) : m.SameTag name := by
  obtain ⟨tag, ht⟩ := isSome_iff_exists.1 h
  have hn : tagNumber hostTagID = none ∧ tagNumber stringTopTagID = none := by decide
  have hh : name ≠ hostTagID := by
    rintro rfl
    cases ht
  have hp : name ≠ stringTopTagID := by
    rintro rfl
    cases ht
  have ha : m.name2TagAgentFastBytes name = some tag := by
    rw [name2TagAgentFastBytes, if_neg hh, if_neg hp]
    exact ht
  refine ⟨some tag, false, ?_, ?_⟩
  · simp only [name2TagAgentLookup, ha]
  · simp only [MetricMetaValue.name2TagLookup, ht]

lemma fixed_not_legacy (h : name = hostTagID ∨ name = stringTopTagID) :
    (m.name2TagAgentFastLegacyBytes name).isSome = false := by
  have hl : ¬legacyTagIDPrefix.isPrefixOf hostTagID ∧
      ¬legacyTagIDPrefix.isPrefixOf stringTopTagID := by decide
  rcases h with rfl | rfl
  · rw [name2TagAgentFastLegacyBytes, if_neg hl.1]
    rfl
  · rw [name2TagAgentFastLegacyBytes, if_neg hl.2]
    rfl

lemma not_named_of_first (h : firstBelow (m.NameOf name) m.tagCount = none) (i : Nat) :
    ¬m.Named name i :=
  fun hi => firstBelow_eq_none.1 h i hi.1 hi.2

lemma named_of_first (h : firstBelow (m.NameOf name) m.tagCount = some i) : m.Named name i :=
  ⟨(firstBelow_eq_some h).1, (firstBelow_eq_some h).2.1⟩

/-- The last place of all is the first owner only if it is the only one. -/
lemma only_stringTop_iff (h : firstBelow (m.NameOf name) m.tagCount = some i) :
    i = stringTopTagIndexV3 ↔ ∀ j, m.Named name j → j = stringTopTagIndexV3 := by
  constructor
  · rintro rfl j hj
    have hlo := Nat.le_of_not_lt fun hlt => (firstBelow_eq_some h).2.2 j hlt hj.2
    have hhi := hj.1.trans_le (min_le_right _ _)
    exact Nat.le_antisymm (Nat.lt_succ_iff.1 hhi) hlo
  · exact fun ha => ha i (named_of_first h)

lemma host_iff (host : name = hostTagID) :
    some TagPlace.host = m.firstOwner name ↔ m.OneOwner name := by
  have ht : name ≠ stringTopTagID := by
    rw [host]
    decide
  have ho : m.OneOwner name ↔ (∀ i, ¬m.Named name i) ∧ ¬m.StringTopOf name := by
    refine ⟨fun h => h.host host, fun h => ⟨?_, ?_, fun _ => h, ?_⟩⟩
    · exact fun i j hi => absurd hi (h.1 i)
    · exact fun _ i hi => absurd hi (h.1 i)
    · intro hl
      rw [fixed_not_legacy (.inl host)] at hl
      cases hl
  rw [ho, MetricMetaValue.firstOwner]
  cases hf : firstBelow (m.NameOf name) m.tagCount with
  | some i =>
    refine iff_of_false ?_ fun h => h.1 i (named_of_first hf)
    rw [map_some, some_or, some.injEq]
    exact (placeAt_ne_host i).symm
  | none =>
    by_cases hg : m.StringTopOf name
    · simp [hg]
    · rw [if_neg (not_or.2 ⟨ht, hg⟩), if_pos host]
      exact iff_of_true rfl ⟨not_named_of_first hf, hg⟩

lemma stringTop_iff (notHost : name ≠ hostTagID)
    (isTop : name = stringTopTagID ∨ m.StringTopOf name) :
    some TagPlace.stringTop = m.firstOwner name ↔ m.OneOwner name := by
  have ho : m.OneOwner name ↔ ∀ i, m.Named name i → i = stringTopTagIndexV3 := by
    refine ⟨fun h => h.stringTop isTop, fun h => ⟨?_, fun _ => h, ?_, ?_⟩⟩
    · exact fun i j hi hj => (h i hi).trans (h j hj).symm
    · exact fun heq => absurd heq notHost
    · intro hl
      rcases isTop with heq | hg
      · rw [fixed_not_legacy (.inr heq)] at hl
        cases hl
      · exact .inr hg
  rw [ho, MetricMetaValue.firstOwner, if_pos isTop]
  cases hf : firstBelow (m.NameOf name) m.tagCount with
  | some i =>
    rw [← only_stringTop_iff hf, map_some, some_or, some.injEq, eq_comm, placeAt_eq_stringTop]
  | none => exact iff_of_true rfl fun i hi => absurd hi (not_named_of_first hf i)

lemma table_iff (notHost : name ≠ hostTagID)
    (notTop : ¬(name = stringTopTagID ∨ m.StringTopOf name)) :
    ((lastBelow (m.NameOf name) m.tagCount).map placeAt).or
          ((m.name2TagAgentFastLegacyBytes name).map TagRef.place) =
        m.firstOwner name ↔ m.OneOwner name := by
  rw [MetricMetaValue.firstOwner, if_neg notTop, if_neg notHost, or_none]
  cases hf : firstBelow (m.NameOf name) m.tagCount with
  | some i =>
    have hi := named_of_first hf
    have hu := firstBelow_eq_lastBelow_iff (p := m.NameOf name) (n := m.tagCount)
    cases hs : lastBelow (m.NameOf name) m.tagCount with
    | none => exact absurd hi.2 (lastBelow_eq_none.1 hs i hi.1)
    | some k =>
      rw [hf, hs, some.injEq] at hu
      rw [map_some, some_or, map_some, some.injEq, placeAt_inj, eq_comm, hu]
      refine ⟨fun h => ⟨?_, ?_, ?_, ?_⟩, fun h j hj l hl hp ha => ?_⟩
      · exact fun j l hj hl => h j hj.1 l hl.1 hj.2 hl.2
      · exact fun h => absurd h notTop
      · exact fun h => absurd h notHost
      · exact fun _ => .inl ⟨i, hi⟩
      · exact h.unique j l ⟨hj, hp⟩ ⟨hl, ha⟩
  | none =>
    have hn := not_named_of_first hf
    rw [lastBelow_eq_none.2 (firstBelow_eq_none.1 hf), map_none, none_or, map_eq_none_iff]
    refine ⟨fun h => ⟨?_, ?_, ?_, ?_⟩, fun h => ?_⟩
    · exact fun i j hi => absurd hi (hn i)
    · exact fun _ i hi => absurd hi (hn i)
    · exact fun heq => absurd heq notHost
    · intro hg
      rw [h] at hg
      cases hg
    · by_contra hg
      rcases h.legacy (isSome_iff_ne_none.2 hg) with ⟨i, hi⟩ | hv
      · exact hn i hi
      · exact notTop (.inr hv)

/-- Agents and the API agree on the numbers, and on the names that have one owner. -/
theorem sameTag_iff (hm : Decoded m) (name : List UInt8) :
    (restoreCachedInfo parseFloat32 m).1.SameTag name ↔
      (m.name2TagFast name).isSome ∨ m.OneOwner name := by
  by_cases hf : (m.name2TagFast name).isSome
  · refine iff_of_true (sameTag_of_number ?_) (.inl hf)
    rwa [name2TagFast_congr (restoreCachedInfo_length parseFloat32 m)]
  · have hs := not_isSome_iff_eq_none.1 hf
    obtain ⟨tag, legacy, ho, hp⟩ := agentPlace parseFloat32 hm hs
    have ha : (restoreCachedInfo parseFloat32 m).1.SameTag name ↔ tag.map TagRef.place =
          ((restoreCachedInfo parseFloat32 m).1.name2TagLookup name).map TagRef.place := by
      refine ⟨?_, fun h => ⟨tag, legacy, ho, h⟩⟩
      rintro ⟨tag', legacy', hou', h⟩
      rw [ho, some.injEq, Prod.mk.injEq] at hou'
      exact hou'.1 ▸ h
    rw [ha, hp, apiPlace parseFloat32 hs, or_iff_right hf]
    by_cases hh : name = hostTagID
    · rw [if_pos hh, host_iff hh]
    · rw [if_neg hh]
      by_cases ht : name = stringTopTagID ∨ m.StringTopOf name
      · rw [if_pos ht, stringTop_iff hh ht]
      · rw [if_neg ht, table_iff hh ht]

end Lookups

/-- Tags with these names behind the environment tag. -/
def namedTags (names : List String) : MetricMetaValue :=
  { tags := {} :: names.map fun name => { name := ascii name } }

lemma decoded_namedTags (names : List String) : Decoded (namedTags names) where
  index tag h := by
    rcases List.mem_cons.1 h with rfl | h
    · rfl
    · obtain ⟨name, -, rfl⟩ := List.mem_map.1 h
      rfl
  raw64 tag h := by
    rcases List.mem_cons.1 h with rfl | h
    · rfl
    · obtain ⟨name, -, rfl⟩ := List.mem_map.1 h
      rfl
  name2TagAgent := rfl

/-- A legacy name that is also that of another tag is this tag for both. -/
theorem sameTag_legacy_name :
    Decoded (namedTags ["key2"]) ∧
      (restoreCachedInfo (fun _ => none) (namedTags ["key2"])).1.SameTag (ascii "key2") := by
  refine ⟨decoded_namedTags _, (sameTag_iff _ (decoded_namedTags _) _).2 (.inr ?_)⟩
  have ho i (h : (namedTags ["key2"]).Named (ascii "key2") i) : i = 1 := by
    obtain ⟨hi, h⟩ := h
    have hc : (namedTags ["key2"]).tagCount = 2 := by decide
    have hz : ¬(namedTags ["key2"]).NameOf (ascii "key2") 0 := by decide
    rcases Nat.eq_zero_or_pos i with rfl | hp
    · exact absurd h hz
    · omega
  exact
    { unique := fun i j hi hj => (ho i hi).trans (ho j hj).symm
      stringTop := fun h => absurd h (by decide)
      host := fun h => absurd h (by decide)
      legacy := fun _ => .inl ⟨1, by decide, by decide⟩ }

/-- Two tags with one name: agents write the second, the API reads the first. -/
theorem two_tags_one_name :
    ¬(restoreCachedInfo (fun _ => none) (namedTags ["a", "a"])).1.SameTag (ascii "a") := by
  rintro ⟨tag, legacy, ha, hs⟩
  have hl : (restoreCachedInfo (fun _ => none)
      (namedTags ["a", "a"])).1.name2TagAgentLookup (ascii "a") = some (some (.own 2), false) := by
    decide +kernel
  have hp : (restoreCachedInfo (fun _ => none)
      (namedTags ["a", "a"])).1.name2TagLookup (ascii "a") = some (.own 1) := by decide +kernel
  rw [hl] at ha
  cases ha
  rw [hp] at hs
  exact absurd hs (by decide)

end MetricMeta
