import Mathlib.Data.List.GetD
import StatsHouse.MetricMeta

/-!
# Filling the tables of names

`RestoreCachedInfo` puts the names of the tags and of the string top into a table for the API
and one for the agents. In the first a name stays with the first tag that has it, in the second
it goes to the last one.
-/

namespace MetricMeta

variable {name : List UInt8} {m : MetricMetaValue} {i n : Nat}

section Holders

variable (p : Nat → Prop) [DecidablePred p]

def firstBelow : Nat → Option Nat
  | 0 => none
  | n + 1 => (firstBelow n).or (if p n then some n else none)

def lastBelow : Nat → Option Nat
  | 0 => none
  | n + 1 => if p n then some n else lastBelow n

variable {p}

lemma firstBelow_eq_none : firstBelow p n = none ↔ ∀ i < n, ¬p i := by
  induction n with
  | zero => simp [firstBelow]
  | succ n ih =>
    rw [firstBelow, Option.or_eq_none_iff, ih, Nat.forall_lt_succ_right]
    simp

lemma firstBelow_eq_some (h : firstBelow p n = some i) : i < n ∧ p i ∧ ∀ j < i, ¬p j := by
  induction n with
  | zero => cases h
  | succ n ih =>
    rw [firstBelow, Option.or_eq_some_iff] at h
    rcases h with h | ⟨hn, h⟩
    · obtain ⟨hlt, hr⟩ := ih h
      exact ⟨Nat.lt_succ_of_lt hlt, hr⟩
    · split_ifs at h with hp
      cases h
      exact ⟨Nat.lt_succ_self _, hp, firstBelow_eq_none.1 hn⟩

lemma lastBelow_eq_none : lastBelow p n = none ↔ ∀ i < n, ¬p i := by
  induction n with
  | zero => simp [lastBelow]
  | succ n ih =>
    rw [lastBelow, Nat.forall_lt_succ_right, ← ih]
    split_ifs with hp <;> simp [hp]

lemma lastBelow_eq_some (h : lastBelow p n = some i) : i < n ∧ p i ∧ ∀ j < n, p j → j ≤ i := by
  induction n with
  | zero => cases h
  | succ n ih =>
    rw [lastBelow] at h
    split_ifs at h with hp
    · cases h
      exact ⟨Nat.lt_succ_self _, hp, fun j hj _ => Nat.lt_succ_iff.1 hj⟩
    · obtain ⟨hlt, hi, hl⟩ := ih h
      refine ⟨Nat.lt_succ_of_lt hlt, hi, fun j hj ha => ?_⟩
      rcases Nat.lt_succ_iff_lt_or_eq.1 hj with hn | rfl
      · exact hl j hn ha
      · exact absurd ha hp

/-- The two rules give a name to the same holder when there is at most one. -/
lemma firstBelow_eq_lastBelow_iff :
    firstBelow p n = lastBelow p n ↔ ∀ i < n, ∀ j < n, p i → p j → i = j := by
  cases hf : firstBelow p n with
  | none =>
    have hn := firstBelow_eq_none.1 hf
    rw [lastBelow_eq_none.2 hn]
    exact iff_of_true rfl fun i hi _ _ hp => absurd hp (hn i hi)
  | some i =>
    obtain ⟨hi, ha, hlo⟩ := firstBelow_eq_some hf
    cases hs : lastBelow p n with
    | none => exact absurd ha (lastBelow_eq_none.1 hs i hi)
    | some k =>
      obtain ⟨hk, hd, hhi⟩ := lastBelow_eq_some hs
      constructor
      · intro heq j hj l hl hb hc
        cases heq
        have he := hhi j hj hb
        have hg := hhi l hl hc
        have hm := Nat.le_of_not_lt fun hlt => hlo j hlt hb
        have hw := Nat.le_of_not_lt fun hlt => hlo l hlt hc
        omega
      · intro hu
        rw [hu i hi k hk ha hd]

end Holders

/-- The string top has two indices, one as a flag and one in the arrays. -/
inductive TagPlace where
  | tag (i : Nat)
  | stringTop
  | host
deriving Repr, DecidableEq

def placeAt (i : Nat) : TagPlace := if i = stringTopTagIndexV3 then .stringTop else .tag i

def TagRef.place : TagRef → TagPlace
  | .own i => placeAt i
  | .default i => placeAt i
  | .defaultSTag => .stringTop
  | .defaultHTag => .host
  | .sTag _ _ => .stringTop

namespace MetricMetaValue

/-- The environment tag has no name, and none is its own number. -/
def givenName (m : MetricMetaValue) (i : Nat) : List UInt8 :=
  let name := (m.tags.getD i default).name
  if i = 0 ∨ name = tagID i then [] else name

def givenStringTop (m : MetricMetaValue) : List UInt8 :=
  if m.stringTopName = stringTopTagID then [] else m.stringTopName

/-- The author of the description gives the name to this place. -/
def NameOf (m : MetricMetaValue) (name : List UInt8) (i : Nat) : Prop :=
  name ≠ [] ∧ m.givenName i = name

instance (m : MetricMetaValue) (name : List UInt8) : DecidablePred (m.NameOf name) :=
  fun _ => inferInstanceAs (Decidable (_ ∧ _))

/-- The author of the description gives the name to the string top. -/
def StringTopOf (m : MetricMetaValue) (name : List UInt8) : Prop :=
  name ≠ [] ∧ name = m.givenStringTop

instance (m : MetricMetaValue) (name : List UInt8) : Decidable (m.StringTopOf name) :=
  inferInstanceAs (Decidable (_ ∧ _))

end MetricMetaValue

/-- What is not saved has the zero values of the language. -/
structure Decoded (m : MetricMetaValue) : Prop where
  index (tag : MetricMetaTag) (h : tag ∈ m.tags) : tag.index = 0
  raw64 (tag : MetricMetaTag) (h : tag ∈ m.tags) : tag.raw64 = false
  name2TagAgent : m.name2TagAgent = ∅

lemma name2TagFast_congr {m' : MetricMetaValue} (h : m.tags.length = m'.tags.length)
    (name : List UInt8) : m.name2TagFast name = m'.name2TagFast name := by
  simp only [MetricMetaValue.name2TagFast, funext fun num => show m.numberedTag num =
    m'.numberedTag num by simp only [MetricMetaValue.numberedTag, h]]

namespace Restoring

variable (r : Restoring)

@[simp] lemma fail_m (e : MetaError) : (r.fail e).m = r.m := rfl

@[simp] lemma failIf_m (cond : Bool) (e : MetaError) : (r.failIf cond e).m = r.m := by
  cases cond <;> rfl

/-- The tags, and the positions that agents find by name. -/
def agentView : List MetricMetaTag × AList (fun _ : List UInt8 => Nat) :=
  (r.m.tags, r.m.name2TagAgent)

/-- The name of the string top, and the table of the API. -/
def apiView : List UInt8 × AList (fun _ : List UInt8 => TagRef) :=
  (r.m.stringTopName, r.m.name2Tag)

@[simp] lemma setName2Tag_agentView (name : List UInt8) (newTag : TagRef) (canonical : Bool) :
    (r.setName2Tag name newTag canonical).agentView = r.agentView := by
  simp only [setName2Tag]
  split <;> split <;> rfl

@[simp] lemma checkName_views :
    r.checkName.agentView = r.agentView ∧ r.checkName.apiView = r.apiView := by
  simp only [checkName, agentView, apiView, failIf_m]
  split <;> simp

@[simp] lemma restorePreKey_views (i : Nat) :
    (r.restorePreKey i).agentView = r.agentView ∧ (r.restorePreKey i).apiView = r.apiView := by
  simp only [restorePreKey]
  split_ifs <;> exact ⟨rfl, rfl⟩

@[simp] lemma checkPreKey_views :
    r.checkPreKey.agentView = r.agentView ∧ r.checkPreKey.apiView = r.apiView := by
  simp only [checkPreKey, agentView, apiView]
  split_ifs <;> simp

@[simp] lemma restoreNumbers_views :
    r.restoreNumbers.agentView = r.agentView ∧ r.restoreNumbers.apiView = r.apiView := by
  simp only [restoreNumbers, agentView, apiView]
  split_ifs <;> simp

@[simp] lemma restoreBuckets_views (parseFloat32 : List UInt8 → Option ℚ) :
    (r.restoreBuckets parseFloat32).agentView = r.agentView ∧
      (r.restoreBuckets parseFloat32).apiView = r.apiView := by
  simp only [restoreBuckets]
  split
  · exact ⟨rfl, rfl⟩
  · split_ifs <;> exact ⟨rfl, rfl⟩

@[simp] lemma restoreGroup_views :
    r.restoreGroup.agentView = r.agentView ∧ r.restoreGroup.apiView = r.apiView := ⟨rfl, rfl⟩

@[simp] lemma restoreFairKeys_views :
    r.restoreFairKeys.agentView = r.agentView ∧ r.restoreFairKeys.apiView = r.apiView := by
  simp only [restoreFairKeys]
  split_ifs <;> exact ⟨rfl, rfl⟩

@[simp] lemma restoreTag_apiView (i : Nat) : (r.restoreTag i).apiView = r.apiView := by
  have hv (r : Restoring) cond e :
      (r.failIf cond e).apiView = r.apiView := by simp only [apiView, failIf_m]
  have hr cond cond' e e' :
      (((r.failIf cond e).restorePreKey i).failIf cond' e').apiView = r.apiView := by
    rw [hv, (restorePreKey_views _ i).2, hv]
  simp only [restoreTag]
  split_ifs <;> exact hr _ _ _ _

/-- What the first loop makes of a tag. -/
def restoredTag (i : Nat) (tag : MetricMetaTag) : MetricMetaTag :=
  { tag with
    name := if tag.name = tagID i then [] else tag.name
    raw64 := isRaw64Kind tag.rawKind && !decide (tag.index ≥ (maxTags : Int) - 1) }

lemma set_getD_eq_modify {α : Type*} [Inhabited α] (l : List α) (i : Nat) (f : α → α) :
    l.set i (f (l.getD i default)) = l.modify i f := by
  rw [List.modify_eq_set_getElem?]
  rcases Nat.lt_or_ge i l.length with hi | hi
  · simp [hi]
  · rw [List.set_eq_of_length_le hi, List.getElem?_eq_none hi]
    rfl

lemma restoreTag_agentView (i : Nat) : (r.restoreTag i).agentView =
      (r.m.tags.modify i (restoredTag i), r.m.name2TagAgent) := by
  have ht (r : Restoring) : (r.restorePreKey i).m.tags = r.m.tags :=
    congrArg Prod.fst (r.restorePreKey_views i).1
  have hn (r : Restoring) : (r.restorePreKey i).m.name2TagAgent = r.m.name2TagAgent :=
    congrArg Prod.snd (r.restorePreKey_views i).1
  rw [← set_getD_eq_modify]
  simp only [restoreTag]
  generalize r.m.tags.getD i default = tag
  by_cases hm : tag.name = tagID i <;> by_cases hk : isRaw64Kind tag.rawKind = true <;>
    by_cases hl : tag.index ≥ maxTags - 1 <;>
    simp [agentView, restoredTag, ht, hn, hm, hk, hl, -ge_iff_le]

/-- In the table of the agents a name goes to its last owner. -/
lemma lookup_insert_name (names : AList fun _ : List UInt8 => Nat) (key : List UInt8) (i : Nat) :
    (if key ≠ [] then names.insert key i else names).lookup name =
      if name ≠ [] ∧ name = key then some i else names.lookup name := by
  by_cases hne : key = []
  · rw [if_neg (not_not.2 hne), if_neg fun h => h.1 (h.2.trans hne)]
  · rw [if_pos hne]
    by_cases heq : name = key
    · rw [if_pos ⟨heq ▸ hne, heq⟩, heq, AList.lookup_insert]
    · rw [if_neg fun h => heq h.2, AList.lookup_insert_ne heq]

/-- In the table of the API a name stays with its first owner. -/
lemma lookup_setName2Tag (missing : r.m.name2TagFast name = none) (key : List UInt8)
    (newTag : TagRef)
    (canonical : Bool) :
    (r.setName2Tag key newTag canonical).m.name2Tag.lookup name =
      (r.m.name2Tag.lookup name).or (if key = name then some newTag else none) := by
  set r' : Restoring :=
    if !canonical && !validTagName key then { r with err := [.invalidName key] } else r with hr'
  have hm : r'.m = r.m := by
    rw [hr']
    split <;> rfl
  have ho : (r.setName2Tag key newTag canonical).m.name2Tag =
      if (r.m.name2TagLookup key).isSome then r.m.name2Tag
      else r.m.name2Tag.insert key newTag := by
    simp only [setName2Tag, ← hr', hm]
    cases r.m.name2TagLookup key <;> simp
  rw [ho]
  by_cases hk : key = name
  · subst hk
    cases hl : r.m.name2Tag.lookup key <;>
      simp [MetricMetaValue.name2TagLookup, missing, hl]
  · split <;> simp [AList.lookup_insert_ne (Ne.symm hk)]

lemma setName2Tag_fast (key : List UInt8) (newTag : TagRef) (canonical : Bool)
    (name : List UInt8) :
    (r.setName2Tag key newTag canonical).m.name2TagFast name = r.m.name2TagFast name := by
  have ht := congrArg Prod.fst (r.setName2Tag_agentView key newTag canonical)
  exact name2TagFast_congr (congrArg List.length ht) name

/-- A name goes into both tables. -/
def addName (key : List UInt8) (newTag : TagRef) (i : Nat) : Restoring :=
  if key ≠ [] then (r.setName2Tag key newTag false).setName2TagAgent key i else r

lemma addName_agentView (key : List UInt8) (newTag : TagRef) (i : Nat) :
    (r.addName key newTag i).agentView =
      (r.m.tags, if key ≠ [] then r.m.name2TagAgent.insert key i else r.m.name2TagAgent) := by
  have h := r.setName2Tag_agentView key newTag false
  simp only [agentView, Prod.mk.injEq] at h
  unfold addName
  split
  · simp only [agentView, setName2TagAgent, h]
  · rfl

lemma addName_fast (key : List UInt8) (newTag : TagRef) (i : Nat) (name : List UInt8) :
    (r.addName key newTag i).m.name2TagFast name = r.m.name2TagFast name := by
  have ht := congrArg Prod.fst (r.addName_agentView key newTag i)
  exact name2TagFast_congr (congrArg List.length ht) name

lemma lookup_addName (missing : r.m.name2TagFast name = none) (key : List UInt8) (newTag : TagRef)
    (i : Nat) : (r.addName key newTag i).m.name2Tag.lookup name =
      (r.m.name2Tag.lookup name).or (if name ≠ [] ∧ name = key then some newTag else none) := by
  by_cases hne : key = []
  · rw [addName, if_neg (not_not.2 hne), if_neg fun h => h.1 (h.2.trans hne), Option.or_none]
  · rw [addName, if_pos hne]
    apply (r.lookup_setName2Tag missing key newTag false).trans
    by_cases heq : key = name
    · rw [if_pos heq, if_pos ⟨heq ▸ hne, heq.symm⟩]
    · rw [if_neg heq, if_neg fun h => heq h.2.symm]

lemma foldl_modify {α : Type*} (l : List α) (f : Nat → α → α) (n : Nat) :
    (List.range n).foldl (fun l i => l.modify i (f i)) l =
      l.mapIdx fun i x => if i < n then f i x else x := by
  induction n with
  | zero => exact List.ext_getElem? fun i => by simp
  | succ n ih =>
    rw [List.range_succ, List.foldl_append, ih, List.foldl_cons, List.foldl_nil]
    refine List.ext_getElem? fun i => ?_
    simp only [List.getElem?_modify, List.getElem?_mapIdx]
    rcases Nat.lt_trichotomy i n with hi | rfl | hi
    · simp [hi, Nat.lt_succ_of_lt hi, Nat.ne_of_gt hi]
    · cases l[i]? <;> simp
    · simp [Nat.not_lt_of_gt hi, Nat.ne_of_lt hi, show ¬i < n + 1 by omega]

lemma foldl_tags {step : Restoring → Nat → Restoring} {f : Nat → MetricMetaTag → MetricMetaTag}
    (h : ∀ r i, (step r i).m.tags = r.m.tags.modify i (f i)) (n : Nat) :
    ((List.range n).foldl step r).m.tags =
      r.m.tags.mapIdx fun i tag => if i < n then f i tag else tag := by
  rw [← foldl_modify]
  exact (List.foldl_hom (fun r : Restoring => r.m.tags) fun r i => (h r i).symm).symm

/-- The name in the second loop. -/
def nameAt (i : Nat) : List UInt8 := (r.m.tags.getD i default).name

/-- The tag gets its index first. -/
lemma indexTag_eq (i : Nat) : ∃ r' : Restoring,
    r'.m.tags = r.m.tags.modify i (fun tag => { tag with index := i }) ∧
    r'.m.name2Tag = r.m.name2Tag ∧ r'.m.name2TagAgent = r.m.name2TagAgent ∧
    r.indexTag i = r'.addName (r.nameAt i) (.own i) i :=
  ⟨{ r with m := { r.m with tags := r.m.tags.set i { r.m.tags.getD i default with index := i } } },
    set_getD_eq_modify r.m.tags i fun tag => { tag with index := i }, rfl, rfl, rfl⟩

lemma indexTag_tags (i : Nat) :
    (r.indexTag i).m.tags = r.m.tags.modify i (fun tag => { tag with index := i }) := by
  obtain ⟨r', ht, -, -, hs⟩ := r.indexTag_eq i
  rw [hs, ← ht]
  exact congrArg Prod.fst (r'.addName_agentView (r.nameAt i) (.own i) i)

lemma indexTag_nameAt (i j : Nat) : (r.indexTag i).nameAt j = r.nameAt j := by
  simp only [nameAt, indexTag_tags, List.getD_eq_getElem?_getD, List.getElem?_modify]
  split_ifs <;> cases r.m.tags[j]? <;> rfl

lemma indexTag_stringTopName (i : Nat) : (r.indexTag i).m.stringTopName = r.m.stringTopName := by
  simp only [indexTag]
  split_ifs
  · simp only [setName2Tag]
    split <;> split <;> rfl
  · rfl

lemma foldl_indexTag_stringTopName (is : List Nat) :
    (is.foldl indexTag r).m.stringTopName = r.m.stringTopName := by
  induction is generalizing r with
  | nil => rfl
  | cons i is ih => rw [List.foldl_cons, ih, indexTag_stringTopName]

lemma foldl_indexTag_nameAt (n j : Nat) :
    ((List.range n).foldl indexTag r).nameAt j = r.nameAt j := by
  induction n with
  | zero => rfl
  | succ n ih => rw [List.range_succ, List.foldl_append, List.foldl_cons, List.foldl_nil,
      indexTag_nameAt, ih]

lemma foldl_indexTag_length (n : Nat) :
    ((List.range n).foldl indexTag r).m.tags.length = r.m.tags.length := by
  rw [foldl_tags r fun r i => r.indexTag_tags i, List.length_mapIdx]

section Owners

variable {p : Nat → Prop} [DecidablePred p]

lemma lookup_foldl_indexTag (missing : r.m.name2TagFast name = none)
    (hp : ∀ i < n, p i ↔ name ≠ [] ∧ name = r.nameAt i) :
    ((List.range n).foldl indexTag r).m.name2Tag.lookup name =
      (r.m.name2Tag.lookup name).or ((firstBelow p n).map .own) := by
  induction n with
  | zero => simp [firstBelow]
  | succ n ih =>
    obtain ⟨r', ht, hb, -, hs⟩ := ((List.range n).foldl indexTag r).indexTag_eq n
    have hn : r'.m.tags.length = r.m.tags.length := by
      rw [ht, List.length_modify, foldl_indexTag_length]
    have hfa' := (name2TagFast_congr hn name).trans missing
    rw [List.range_succ, List.foldl_append, List.foldl_cons, List.foldl_nil, hs,
      lookup_addName _ hfa', hb, ih fun i hi => hp i (Nat.lt_succ_of_lt hi),
      foldl_indexTag_nameAt, firstBelow, Option.or_assoc]
    simp only [hp n (Nat.lt_succ_self n)]
    cases firstBelow p n <;> split_ifs <;> rfl

lemma lookupAgent_foldl_indexTag (hp : ∀ i < n, p i ↔ name ≠ [] ∧ name = r.nameAt i) :
    ((List.range n).foldl indexTag r).m.name2TagAgent.lookup name =
      (lastBelow p n).or (r.m.name2TagAgent.lookup name) := by
  induction n with
  | zero => simp [lastBelow]
  | succ n ih =>
    obtain ⟨r', -, -, ht, hs⟩ := ((List.range n).foldl indexTag r).indexTag_eq n
    have ha := congrArg Prod.snd (r'.addName_agentView
      (((List.range n).foldl indexTag r).nameAt n) (.own n) n)
    simp only [agentView] at ha
    rw [List.range_succ, List.foldl_append, List.foldl_cons, List.foldl_nil, hs, ha,
      lookup_insert_name, ht, ih fun i hi => hp i (Nat.lt_succ_of_lt hi),
      foldl_indexTag_nameAt, lastBelow]
    simp only [hp n (Nat.lt_succ_self n)]
    split_ifs <;> rfl

end Owners

/-- With a name the string top is put into both tables. -/
lemma restoreStringTop_eq : ∃ sTag : TagRef, sTag.place = .stringTop ∧ r.restoreStringTop =
    ((r.addName r.m.stringTopName sTag stringTopTagIndexV3).setName2Tag stringTopTagID sTag
      true).setName2Tag hostTagID .defaultHTag true := by
  by_cases hn : r.m.stringTopName = [] ∧ r.m.stringTopDescription = []
  · refine ⟨.defaultSTag, rfl, ?_⟩
    rw [restoreStringTop, if_pos hn, addName, if_neg (not_not.2 hn.1)]
  · refine ⟨.sTag r.m.stringTopName r.m.stringTopDescription, rfl, ?_⟩
    rw [restoreStringTop, if_neg hn]
    rfl

lemma restoreStringTop_agentView : r.restoreStringTop.agentView = (r.m.tags,
    if r.m.stringTopName ≠ [] then
      r.m.name2TagAgent.insert r.m.stringTopName stringTopTagIndexV3
    else r.m.name2TagAgent) := by
  obtain ⟨sTag, -, ho⟩ := r.restoreStringTop_eq
  rw [ho, setName2Tag_agentView, setName2Tag_agentView, addName_agentView]

/-- In the table of the API the string top comes behind all tags. -/
lemma lookup_restoreStringTop (missing : r.m.name2TagFast name = none) :
    (r.restoreStringTop.m.name2Tag.lookup name).map TagRef.place =
      ((r.m.name2Tag.lookup name).map TagRef.place).or
        (if name = stringTopTagID ∨ (name ≠ [] ∧ name = r.m.stringTopName) then some .stringTop
        else if name = hostTagID then some .host else none) := by
  obtain ⟨sTag, hp, ho⟩ := r.restoreStringTop_eq
  have hfa' := (r.addName_fast r.m.stringTopName sTag stringTopTagIndexV3 name).trans missing
  rw [ho, lookup_setName2Tag _ (by rw [setName2Tag_fast, hfa']), lookup_setName2Tag _ hfa',
    lookup_addName _ missing]
  cases r.m.name2Tag.lookup name with
  | some tag => simp
  | none =>
    by_cases ht : name ≠ [] ∧ name = r.m.stringTopName
    · have hr := Or.inr ht (a := name = stringTopTagID)
      rw [if_pos ht, if_pos hr]
      simp [hp]
    · rw [if_neg ht]
      by_cases hs : name = stringTopTagID
      · simp [hs, hp]
      · by_cases hh : name = hostTagID
        · subst hh
          simp [ht, hs, Ne.symm hs, TagRef.place]
        · simp [hs, Ne.symm hs, hh, Ne.symm hh, ht]

/-- Both loops start here. -/
def started (m : MetricMetaValue) : Restoring :=
  let r := ((Restoring.mk m []).checkName.resetMaps).failIf
    (decide (maxTags < m.tags.length)) .tooManyTags
  { r with m := { r.m with tagsDraft := nameDraft r.m.tagsDraft } }

/-- The second loop starts here. -/
def checked (m : MetricMetaValue) : Restoring :=
  ((List.range m.tagCount).foldl restoreTag (started m)).checkPreKey

def looped (m : MetricMetaValue) : Restoring :=
  (List.range m.tagCount).foldl indexTag (checked m)

end Restoring

section Tables

open Restoring List Option Prod MetricMetaValue

variable (parseFloat32 : List UInt8 → Option ℚ) (m : MetricMetaValue)

/-- What comes behind the string top leaves the tags and both tables. -/
lemma restoreCachedInfo_views : ∃ r : Restoring, (restoreCachedInfo parseFloat32 m).1 = r.m ∧
    r.apiView = (looped m).restoreStringTop.apiView ∧
    r.agentView = (looped m).restoreStringTop.agentView := by
  refine ⟨(((looped m).restoreStringTop.restoreNumbers.restoreBuckets
    parseFloat32).restoreGroup).restoreFairKeys, rfl, ?_, ?_⟩ <;> simp

lemma started_apiView : (started m).apiView = (m.givenStringTop, ∅) := by
  have h := (Restoring.mk m []).checkName_views.2
  simp only [apiView, Prod.mk.injEq] at h
  simp [started, apiView, resetMaps, h.1, givenStringTop]

lemma started_agentView : (started m).agentView = (m.tags.modify 0 envTag, m.name2TagAgent) := by
  have h := (Restoring.mk m []).checkName_views.1
  simp only [agentView, Prod.mk.injEq] at h
  simp [started, agentView, resetMaps, h]

lemma checked_apiView : (checked m).apiView = (m.givenStringTop, ∅) := by
  have hl (is : List Nat) r : (is.foldl restoreTag r).apiView = r.apiView := by
    induction is generalizing r with
    | nil => rfl
    | cons i is ih => rw [foldl_cons, ih, restoreTag_apiView]
  rw [checked, (checkPreKey_views _).2, hl, started_apiView]

lemma checked_tags : (checked m).m.tags = (m.tags.modify 0 envTag).mapIdx fun i tag =>
      if i < m.tagCount then restoredTag i tag else tag := by
  have hc (r : Restoring) : r.checkPreKey.m.tags = r.m.tags :=
    congrArg fst r.checkPreKey_views.1
  have hs : (started m).m.tags = m.tags.modify 0 envTag :=
    congrArg fst (started_agentView m)
  rw [checked, hc, foldl_tags _ fun r i => congrArg fst (r.restoreTag_agentView i), hs]

lemma checked_name2TagAgent : (checked m).m.name2TagAgent = m.name2TagAgent := by
  have hc (r : Restoring) : r.checkPreKey.m.name2TagAgent = r.m.name2TagAgent :=
    congrArg snd r.checkPreKey_views.1
  have hl (is : List Nat) r :
      (is.foldl restoreTag r).m.name2TagAgent = r.m.name2TagAgent := by
    induction is generalizing r with
    | nil => rfl
    | cons i is ih => exact (ih _).trans (congrArg snd (r.restoreTag_agentView i))
  rw [checked, hc, hl]
  exact congrArg snd (started_agentView m)

lemma checked_nameAt (hi : i < m.tagCount) : (checked m).nameAt i = m.givenName i := by
  have hl := hi.trans_le (min_le_left _ _)
  simp only [nameAt, checked_tags, getD_eq_getElem?_getD, getElem?_mapIdx,
    getElem?_modify, getElem?_eq_getElem hl, hi, if_true, getD_some,
    givenName]
  by_cases h0 : 0 = i
  · simp [← h0, restoredTag, envTag]
  · simp [h0, Ne.symm h0, restoredTag]

lemma looped_stringTopName : (looped m).m.stringTopName = m.givenStringTop := by
  rw [looped, foldl_indexTag_stringTopName]
  exact congrArg fst (checked_apiView m)

lemma checked_length : (checked m).m.tags.length = m.tags.length := by
  rw [checked_tags, length_mapIdx, length_modify]

lemma restoreCachedInfo_tags : (restoreCachedInfo parseFloat32 m).1.tags =
      ((m.tags.modify 0 envTag).mapIdx fun i tag =>
        if i < m.tagCount then restoredTag i tag else tag).mapIdx fun i tag =>
          if i < m.tagCount then { tag with index := i } else tag := by
  obtain ⟨r, hr, -, ha⟩ := restoreCachedInfo_views parseFloat32 m
  rw [restoreStringTop_agentView] at ha
  have ht : r.m.tags = (looped m).m.tags := congrArg fst ha
  rw [hr, ht, looped, foldl_tags _ indexTag_tags, checked_tags]

lemma restoreCachedInfo_length :
    (restoreCachedInfo parseFloat32 m).1.tags.length = m.tags.length := by
  rw [restoreCachedInfo_tags, length_mapIdx, length_mapIdx, length_modify]

variable {m} {name : List UInt8}

lemma nameOf_iff (i : Nat) (hi : i < m.tagCount) :
    m.NameOf name i ↔ name ≠ [] ∧ name = (checked m).nameAt i := by
  rw [checked_nameAt m hi, MetricMetaValue.NameOf, eq_comm]

/-- What the table of the agents says of a name. -/
lemma agentTable (hm : Decoded m) (name : List UInt8) :
    (restoreCachedInfo parseFloat32 m).1.name2TagAgent.lookup name =
      if m.StringTopOf name then some stringTopTagIndexV3
      else lastBelow (m.NameOf name) m.tagCount := by
  obtain ⟨r, hr, -, ha⟩ := restoreCachedInfo_views parseFloat32 m
  rw [restoreStringTop_agentView] at ha
  have ht : r.m.name2TagAgent = _ := congrArg snd ha
  rw [hr, ht, lookup_insert_name, looped_stringTopName, looped,
    lookupAgent_foldl_indexTag _ nameOf_iff, checked_name2TagAgent, hm.name2TagAgent,
    AList.lookup_empty, or_none]
  rfl

/-- Agents find no place behind the arrays by its name. -/
lemma restoreCachedInfo_names (hm : Decoded m)
    (h : (restoreCachedInfo parseFloat32 m).1.name2TagAgent.lookup name = some i) :
    i < maxTags := by
  rw [agentTable parseFloat32 hm] at h
  split_ifs at h
  · cases h
    decide
  · exact (lastBelow_eq_some h).1.trans_le (min_le_right _ _)

end Tables

end MetricMeta
