import StatsHouse.ChUniqueRuns
import StatsHouse.MultiValue

/-!
# Transfer of values from agents to aggregators

An agent encodes a value as a record of optional fields and an aggregator merges the record
into its own value. A field that is not marked in the mask is not written and is read as
zero, so the record that arrives is the record that was filled in. Fields that the receiver
can derive are left out: a counter of one, extremes and sums of values that are all equal,
and hosts that equal the host of the maximum.

Numbers are rational, so the conversion of centroids to single precision is not modelled.
-/

open Sampling ChUniqueSet Function TagUnion

/-- The three hosts of a record. Each has an integer field and a string field. -/
inductive HostField where
  | max
  | min
  | maxCounter
deriving DecidableEq

namespace HostField

/-- The mask bits of `max_host_tag`, `min_host_tag` and `max_counter_host_tag`. -/
def tagBit : HostField → Nat
  | max => 7
  | min => 8
  | maxCounter => 9

/-- The mask bits of `max_host_stag`, `min_host_stag` and `max_counter_host_stag`. -/
def stagBit : HostField → Nat
  | max => 14
  | min => 15
  | maxCounter => 16

end HostField

/-- `statshouse.multiValue` with its field mask. -/
structure TLMultiValue where
  fieldsMask : BitVec 32 := 0
  counter : ℚ := 0
  valueMin : ℚ := 0
  valueMax : ℚ := 0
  valueSum : ℚ := 0
  valueSumSquare : ℚ := 0
  uniques : List UInt8 := []
  centroids : List (ℚ × ℚ) := []
  hostTag : HostField → BitVec 32 := fun _ => 0
  hostStag : HostField → List UInt8 := fun _ => []

namespace TLMultiValue

def mark (t : TLMultiValue) (n : Nat) : TLMultiValue :=
  { t with fieldsMask := t.fieldsMask ||| BitVec.twoPow 32 n }

def isSet (t : TLMultiValue) (n : Nat) : Bool := t.fieldsMask.getLsbD n

def setCounter (t : TLMultiValue) (x : ℚ) : TLMultiValue := { t with counter := x }.mark 0

def setCounterEq1 (t : TLMultiValue) : TLMultiValue := t.mark 1

def isSetCounterEq1 (t : TLMultiValue) : Bool := t.isSet 1

def setValueSet (t : TLMultiValue) : TLMultiValue := t.mark 2

def isSetValueSet (t : TLMultiValue) : Bool := t.isSet 2

def setValueMin (t : TLMultiValue) (x : ℚ) : TLMultiValue := { t with valueMin := x }.mark 3

def setValueMax (t : TLMultiValue) (x : ℚ) : TLMultiValue := { t with valueMax := x }.mark 4

def isSetValueMax (t : TLMultiValue) : Bool := t.isSet 4

def setValueSum (t : TLMultiValue) (x : ℚ) : TLMultiValue := { t with valueSum := x }.mark 4

def setValueSumSquare (t : TLMultiValue) (x : ℚ) : TLMultiValue :=
  { t with valueSumSquare := x }.mark 4

def setUniques (t : TLMultiValue) (x : List UInt8) : TLMultiValue := { t with uniques := x }.mark 5

def setCentroids (t : TLMultiValue) (x : List (ℚ × ℚ)) : TLMultiValue :=
  { t with centroids := x }.mark 6

def setImplicitCentroid (t : TLMultiValue) : TLMultiValue := t.mark 18

def isSetImplicitCentroid (t : TLMultiValue) : Bool := t.isSet 18

def setHostTag (f : HostField) (t : TLMultiValue) (x : BitVec 32) : TLMultiValue :=
  { t with hostTag := update t.hostTag f x }.mark f.tagBit

def setHostStag (f : HostField) (t : TLMultiValue) (x : List UInt8) : TLMultiValue :=
  { t with hostStag := update t.hostStag f x }.mark f.stagBit

/-- `IsSet` of the integer field or of the string field. -/
def isSetHost (f : HostField) (t : TLMultiValue) : Bool := t.isSet f.tagBit || t.isSet f.stagBit

lemma isSet_mark (t : TLMultiValue) {n : Nat} (hn : n < 32) (k : Nat) :
    (t.mark n).isSet k = (t.isSet k || decide (n = k)) := by
  simp [mark, isSet, BitVec.getLsbD_twoPow, hn]

end TLMultiValue

namespace MultiValue

/-- A host is sent as an integer or as a string, and not at all when it is empty. -/
def hostToTL (f : HostField) (host : TagUnion) (t : TLMultiValue) : TLMultiValue :=
  if host.i ≠ 0 then t.setHostTag f host.i
  else if host.s.length > 0 then t.setHostStag f host.s
  else t

def hostsToTL (v : ItemValue) (t : TLMultiValue) : TLMultiValue :=
  let t := hostToTL .max v.maxHostTag t
  let t := if v.minHostTag ≠ v.maxHostTag then hostToTL .min v.minHostTag t else t
  if v.maxCounterHostTag ≠ v.maxHostTag then hostToTL .maxCounter v.maxCounterHostTag t else t

def uniquesToTL (s : MultiValue) (t : TLMultiValue) : TLMultiValue :=
  if s.hll.itemsCount ≠ 0 then t.setUniques (s.hll.marshallAppend []) else t

def counterToTL (cou : ℚ) (t : TLMultiValue) : TLMultiValue :=
  if cou = 1 then t.setCounterEq1 else t.setCounter cou

def centroidsToTL (s : MultiValue) (sampleFactor : ℚ) (t : TLMultiValue) : TLMultiValue :=
  match s.valueTDigest with
  | some d =>
    let cc := d.map fun c => (c.1, c.2 * sampleFactor)
    if cc.length ≠ 0 then t.setCentroids cc else t
  | none => t.setImplicitCentroid

def valueToTL (v : ItemValue) (sampleFactor : ℚ) (t : TLMultiValue) : TLMultiValue :=
  let t := t.setValueSet
  let t := if v.valueMin ≠ 0 then t.setValueMin v.valueMin else t
  if v.valueMin ≠ v.valueMax then
    ((t.setValueMax v.valueMax).setValueSum (v.valueSum * sampleFactor)).setValueSumSquare
      (v.valueSumSquare * sampleFactor)
  else t

def multiValueToTL (hasPercentiles : Bool) (s : MultiValue) (sampleFactor : ℚ) : TLMultiValue :=
  let cou := s.value.counter * sampleFactor
  if cou ≤ 0 then {}
  else
    let t := counterToTL cou (s.uniquesToTL (hostsToTL s.value {}))
    if s.value.valueSet = false then t
    else valueToTL s.value sampleFactor
      (if hasPercentiles then s.centroidsToTL sampleFactor t else t)

end MultiValue

/-- `math.MaxFloat32`. -/
def maxFloat32 : ℚ := (2 ^ 24 - 1) * 2 ^ 104

/-- The ingestion errors of numbers. -/
inductive IngestionError where
  | negativeCounter
  | tooBigCounter
  | tooBigValue
deriving DecidableEq

/-- Numbers are rational, so the error on NaN is left out here and below. -/
def validateCounter (f : ℚ) : Option IngestionError :=
  if f < 0 then some .negativeCounter
  else if f > maxFloat32 then some .tooBigCounter
  else none

def validateValue (f : ℚ) : Option IngestionError :=
  if f > maxFloat32 then some .tooBigValue
  else if f < -maxFloat32 then some .tooBigValue
  else none

namespace TLMultiValue

def restoreCounter (t : TLMultiValue) : TLMultiValue :=
  if t.isSetCounterEq1 then { t with counter := 1 } else t

def host (f : HostField) (t : TLMultiValue) : TagUnion := ⟨t.hostStag f, t.hostTag f⟩

def restoreHost (f : HostField) (hostTag : TagUnion) (t : TLMultiValue) : TLMultiValue :=
  if t.isSetHost f = false then
    { t with
      hostTag := update t.hostTag f hostTag.i
      hostStag := update t.hostStag f hostTag.s }
  else t

/-- Hosts that were not sent: the host of the maximum is the sender, and the others are the
host of the maximum. -/
def restoreHosts (t : TLMultiValue) (hostTag : TagUnion) : TLMultiValue :=
  let t := t.restoreHost .max hostTag
  let t := t.restoreHost .min (t.host .max)
  t.restoreHost .maxCounter (t.host .max)

/-- Values that are all equal are sent without their sums. -/
def restoreValues (t : TLMultiValue) : TLMultiValue :=
  if t.isSetValueMax = false then
    { t with
      valueSum := t.valueMin * t.counter
      valueSumSquare := t.valueMin * t.counter * t.valueMin
      valueMax := t.valueMin }
  else t

end TLMultiValue

def ItemValue.mergeWithTLItem2 (s : ItemValue) (s2 : TLMultiValue) : ItemValue :=
  let s2 := s2.restoreValues
  { s with
    valueSum := s.valueSum + s2.valueSum
    valueSumSquare := s.valueSumSquare + s2.valueSumSquare
    valueMin := if s.valueSet = false ∨ s2.valueMin < s.valueMin then s2.valueMin else s.valueMin
    minHostTag :=
      if s.valueSet = false ∨ s2.valueMin < s.valueMin then s2.host .min else s.minHostTag
    valueMax := if s.valueSet = false ∨ s2.valueMax > s.valueMax then s2.valueMax else s.valueMax
    maxHostTag :=
      if s.valueSet = false ∨ s2.valueMax > s.valueMax then s2.host .max else s.maxHostTag
    valueSet := true }

namespace MultiValue

/-- An error in the middle leaves the centroids before it in the digest. -/
def mergeCentroids : List (ℚ × ℚ) → List (ℚ × ℚ) → List (ℚ × ℚ) × Option IngestionError
  | d, [] => (d, none)
  | d, c :: cs =>
    if c.2 = 0 then mergeCentroids d cs
    else
      match validateCounter c.2 with
      | some e => (d, some e)
      | none =>
        match validateValue c.1 with
        | some e => (d, some e)
        | none => mergeCentroids (tdigestAdd d c) cs

def mergeDigest (s : MultiValue) (s2 : TLMultiValue) : MultiValue × Option IngestionError :=
  let (s, e) :=
    if s2.centroids.length ≠ 0 then
      let (d, e) := mergeCentroids (s.valueTDigest.getD []) s2.centroids
      ({ s with valueTDigest := some d }, e)
    else (s, none)
  match e with
  | some e => (s, some e)
  | none =>
    if s2.isSetImplicitCentroid then
      ({ s with
        valueTDigest := some (tdigestAdd (s.valueTDigest.getD []) (s2.valueMin, s2.counter)) },
        none)
    else (s, none)

def mergeValue (s : MultiValue) (s2 : TLMultiValue) : MultiValue × Option IngestionError :=
  if s2.isSetValueSet = false then (s, none)
  else
    match validateValue s2.valueMin with
    | some e => (s, some e)
    | none =>
      match validateValue s2.valueMax with
      | some e => (s, some e)
      | none =>
        match validateValue s2.valueSum with
        | some e => (s, some e)
        | none => mergeDigest { s with value := s.value.mergeWithTLItem2 s2 } s2

/-- An error of `MergeRead` is ignored. -/
def mergeUniques (s : MultiValue) (s2 : TLMultiValue) : Option MultiValue :=
  if s2.uniques.length ≠ 0 then (s.hll.mergeRead s2.uniques).map fun d => { s with hll := d.1 }
  else some s

def mergeWithTL2 (rng : Rng) (s : MultiValue) (s2 : TLMultiValue) (hostTag : TagUnion) :
    Option (MultiValue × Rng × Option IngestionError) :=
  let s2 := s2.restoreCounter
  if s2.counter = 0 then some (s, rng, none)
  else
    match validateCounter s2.counter with
    | some e => some (s, rng, some e)
    | none =>
      let s2 := s2.restoreHosts hostTag
      let (s, rng) := s.addCounterHost rng s2.counter (s2.host .maxCounter)
      (s.mergeUniques s2).map fun s =>
        let (s, e) := s.mergeValue s2
        (s, rng, e)

end MultiValue

namespace Transfer

open TLMultiValue MultiValue
variable {v : ItemValue} {s : MultiValue} {n : Nat} {t t' : TLMultiValue} {host : TagUnion} {sf : ℚ}
  {f : HostField} {ms ns : List Nat} {cou : ℚ}

/-- The records agree on every field whose bit is not among `ns`. -/
structure Agree (ns : List Nat) (t t' : TLMultiValue) : Prop where
  marks : ∀ n ∉ ns, t'.isSet n = t.isSet n
  counter : 0 ∉ ns → t'.counter = t.counter
  valueMin : 3 ∉ ns → t'.valueMin = t.valueMin
  values : 4 ∉ ns → t'.valueMax = t.valueMax ∧ t'.valueSum = t.valueSum ∧
    t'.valueSumSquare = t.valueSumSquare
  uniques : 5 ∉ ns → t'.uniques = t.uniques
  centroids : 6 ∉ ns → t'.centroids = t.centroids
  hosts : ∀ f : HostField, f.tagBit ∉ ns → f.stagBit ∉ ns → t'.host f = t.host f

namespace Agree

lemma refl (t : TLMultiValue) : Agree ns t t := by
  constructor <;> intros <;> simp only [and_self]

lemma trans {t'' : TLMultiValue} (h : Agree ms t t') (h' : Agree ns t' t'') :
    Agree (ms ++ ns) t t'' := by
  constructor <;> simp only [List.mem_append, not_or]
  · exact fun n hn => (h'.marks n hn.2).trans (h.marks n hn.1)
  · exact fun hn => (h'.counter hn.2).trans (h.counter hn.1)
  · exact fun hn => (h'.valueMin hn.2).trans (h.valueMin hn.1)
  · intro hn
    rw [(h'.values hn.2).1, (h'.values hn.2).2.1, (h'.values hn.2).2.2]
    exact h.values hn.1
  · exact fun hn => (h'.uniques hn.2).trans (h.uniques hn.1)
  · exact fun hn => (h'.centroids hn.2).trans (h.centroids hn.1)
  · exact fun f ht hs => (h'.hosts f ht.2 hs.2).trans (h.hosts f ht.1 hs.1)

lemma mark (h : Agree ns t t') (hn : n ∈ ns) (hlt : n < 32) : Agree ns t (t'.mark n) := by
  refine ⟨fun k hk => ?_, h.counter, h.valueMin, h.values, h.uniques, h.centroids, h.hosts⟩
  have hne : decide (n = k) = false := decide_eq_false fun heq => hk (heq ▸ hn)
  rw [isSet_mark t' hlt, hne, Bool.or_false]
  exact h.marks k hk

lemma isSetHost (h : Agree ns t t') (tag : f.tagBit ∉ ns) (stag : f.stagBit ∉ ns) :
    t'.isSetHost f = t.isSetHost f := by
  rw [TLMultiValue.isSetHost, TLMultiValue.isSetHost, h.marks _ tag, h.marks _ stag]

end Agree

/-- The record with one host filled in. -/
def withHost (f : HostField) (host : TagUnion) (t : TLMultiValue) : TLMultiValue := { t with
    hostTag := update t.hostTag f host.i
    hostStag := update t.hostStag f host.s }

lemma host_withHost : (withHost f host t).host f = host := by
  simp [withHost, TLMultiValue.host]

lemma agree_withHost : Agree [f.tagBit, f.stagBit] t (withHost f host t) := by
  refine ⟨fun _ _ => rfl, fun _ => rfl, fun _ => rfl, fun _ => ⟨rfl, rfl, rfl⟩, fun _ => rfl,
    fun _ => rfl, fun g hg _ => ?_⟩
  have hne : g ≠ f := fun h => hg (h ▸ .head _)
  simp [withHost, TLMultiValue.host, update_of_ne hne]

lemma hostToTL_eq (noHost : t.host f = {}) : hostToTL f host t = if host.empty then t
    else (withHost f host.normalize t).mark (if host.i = 0 then f.stagBit else f.tagBit) := by
  obtain ⟨stag, tag⟩ := host
  by_cases ht : tag = 0
  · subst ht
    cases stag with
    | nil => rfl
    | cons c stag =>
      have hi : t.hostTag f = 0 := congrArg i noHost
      have hold : update t.hostTag f 0 = t.hostTag := hi ▸ update_eq_self f _
      exact congrArg (fun tags => mark { t with
        hostTag := tags, hostStag := update t.hostStag f (c :: stag) } f.stagBit) hold.symm
  · have hs : t.hostStag f = [] := congrArg s noHost
    have hold : update t.hostStag f [] = t.hostStag := hs ▸ update_eq_self f _
    simp only [hostToTL, TagUnion.empty, TagUnion.normalize, withHost, setHostTag, ht, hold,
      beq_eq_false_iff_ne.2 ht, Bool.false_and, ne_eq, not_false_eq_true, if_true, if_false,
      Bool.false_eq_true]

/-- One host is sent if `b`: it arrives normalized, and nothing else changes. -/
structure Sends (b : Prop) [Decidable b] (f : HostField) (host : TagUnion) (t t' : TLMultiValue) :
    Prop where
  agree : Agree [f.tagBit, f.stagBit] t t'
  isSet_eq : t'.isSetHost f = (decide b && !host.empty)
  host_eq : b → t'.host f = host.normalize

lemma hostToTL_sends (f : HostField) (host : TagUnion) (b : Prop) [Decidable b]
    (unset : t.isSetHost f = false) (noHost : t.host f = {}) :
    Sends b f host t (if b then hostToTL f host t else t) := by
  rw [hostToTL_eq noHost]
  by_cases hb : b
  · rw [if_pos hb]
    cases he : host.empty with
    | true =>
      obtain rfl := (empty_iff host).1 he
      exact ⟨.refl t, unset.trans (Bool.and_false _).symm, fun _ => noHost⟩
    | false =>
      have ht : f.tagBit < 32 ∧ f.stagBit < 32 := by cases f <;> decide
      simp only [Bool.false_eq_true, if_false]
      refine ⟨agree_withHost.mark ?_ ?_, ?_, fun _ => host_withHost⟩
      · split_ifs <;> simp
      · split_ifs
        · exact ht.2
        · exact ht.1
      · rw [decide_eq_true hb, he, isSetHost]
        split_ifs <;> simp [isSet_mark, ht]
  · rw [if_neg hb]
    exact ⟨.refl t, by simp [unset, hb], fun h => absurd h hb⟩

/-- What arrives of the hosts when the sender is `g`. -/
def arrived (v : ItemValue) (g : TagUnion) : HostField → TagUnion
  | .max => if v.maxHostTag.empty then g else v.maxHostTag.normalize
  | .min =>
    if v.minHostTag ≠ v.maxHostTag ∧ v.minHostTag.empty = false then v.minHostTag.normalize
    else if v.maxHostTag.empty then g else v.maxHostTag.normalize
  | .maxCounter =>
    if v.maxCounterHostTag ≠ v.maxHostTag ∧ v.maxCounterHostTag.empty = false then
      v.maxCounterHostTag.normalize
    else if v.maxHostTag.empty then g else v.maxHostTag.normalize

/-- The hosts of an item, as they are sent. -/
structure SendsHosts (v : ItemValue) (t : TLMultiValue) : Prop where
  max_set : t.isSetHost .max = !v.maxHostTag.empty
  max_eq : t.host .max = v.maxHostTag.normalize
  min_set : t.isSetHost .min = (decide (v.minHostTag ≠ v.maxHostTag) && !v.minHostTag.empty)
  min_eq : v.minHostTag ≠ v.maxHostTag → t.host .min = v.minHostTag.normalize
  counter_set : t.isSetHost .maxCounter =
    (decide (v.maxCounterHostTag ≠ v.maxHostTag) && !v.maxCounterHostTag.empty)
  counter_eq : v.maxCounterHostTag ≠ v.maxHostTag →
    t.host .maxCounter = v.maxCounterHostTag.normalize

lemma hostsToTL_sends (v : ItemValue) :
    Agree [7, 14, 8, 15, 9, 16] {} (hostsToTL v {}) ∧ SendsHosts v (hostsToTL v {}) := by
  have hu : ∀ f, TLMultiValue.isSetHost f {} = false := fun f => by cases f <;> decide
  have h1 := hostToTL_sends .max v.maxHostTag True (hu .max) rfl
  rw [if_true] at h1
  rw [hostsToTL]
  generalize hostToTL .max v.maxHostTag {} = t1 at h1 ⊢
  have h2 := hostToTL_sends .min v.minHostTag (v.minHostTag ≠ v.maxHostTag)
    ((h1.agree.isSetHost (by decide) (by decide)).trans (hu .min))
    (h1.agree.hosts .min (by decide) (by decide))
  generalize (if v.minHostTag ≠ v.maxHostTag then hostToTL .min v.minHostTag t1 else t1) = t2
    at h2 ⊢
  have h12 := h1.agree.trans h2.agree
  have h3 := hostToTL_sends .maxCounter v.maxCounterHostTag (v.maxCounterHostTag ≠ v.maxHostTag)
    ((h12.isSetHost (by decide) (by decide)).trans (hu .maxCounter))
    (h12.hosts .maxCounter (by decide) (by decide))
  have h23 := h2.agree.trans h3.agree
  exact ⟨h12.trans h3.agree, (h23.isSetHost (by decide) (by decide)).trans h1.isSet_eq,
    (h23.hosts .max (by decide) (by decide)).trans (h1.host_eq trivial),
    (h3.agree.isSetHost (by decide) (by decide)).trans h2.isSet_eq,
    fun h => (h3.agree.hosts .min (by decide) (by decide)).trans (h2.host_eq h), h3.isSet_eq,
    h3.host_eq⟩

lemma SendsHosts.of_agree (h : SendsHosts v t) (agree : Agree ns t t')
    (fields : ∀ n ∈ ns, n < 7 ∨ 16 < n) : SendsHosts v t' := by
  have hb : ∀ f : HostField, f.tagBit ∉ ns ∧ f.stagBit ∉ ns := fun f =>
    ⟨fun hn => absurd (fields _ hn) (by cases f <;> decide),
      fun hn => absurd (fields _ hn) (by cases f <;> decide)⟩
  have hs : ∀ f, t'.isSetHost f = t.isSetHost f := fun f =>
    agree.isSetHost (hb f).1 (hb f).2
  have hh : ∀ f, t'.host f = t.host f := fun f => agree.hosts f (hb f).1 (hb f).2
  exact ⟨(hs .max).trans h.max_set, (hh .max).trans h.max_eq, (hs .min).trans h.min_set,
    fun hne => (hh .min).trans (h.min_eq hne), (hs .maxCounter).trans h.counter_set,
    fun hne => (hh .maxCounter).trans (h.counter_eq hne)⟩

lemma uniquesToTL_agree : Agree [5] t (s.uniquesToTL t) := by
  rw [uniquesToTL]
  split
  · exact .mark (by constructor <;> simp [isSet, TLMultiValue.host]) (by decide) (by decide)
  · exact .refl t

lemma counterToTL_agree : Agree [0, 1] t (counterToTL cou t) := by
  rw [counterToTL]
  split
  · exact (Agree.refl t).mark (by decide) (by decide)
  · exact .mark (by constructor <;> simp [isSet, TLMultiValue.host]) (by decide) (by decide)

lemma centroidsToTL_agree : Agree [6, 18] t (s.centroidsToTL sf t) := by
  rw [centroidsToTL]
  split
  · dsimp only
    split
    · exact .mark (by constructor <;> simp [isSet, TLMultiValue.host]) (by decide) (by decide)
    · exact .refl t
  · exact (Agree.refl t).mark (by decide) (by decide)

lemma valueToTL_agree : Agree [2, 3, 4] t (valueToTL v sf t) := by
  rw [valueToTL]
  split <;> split <;> constructor <;> simp +contextual [setValueSet, setValueMin, setValueMax,
    setValueSum, setValueSumSquare, mark, TLMultiValue.host, isSet,
    BitVec.getLsbD_twoPow, eq_comm]

/-- The counter and the uniques, as they are sent. -/
structure SendsCounter (s : MultiValue) (cou : ℚ) (t : TLMultiValue) : Prop where
  counter : t.restoreCounter.counter = cou
  uniques : t.uniques = if s.hll.itemsCount ≠ 0 then s.hll.marshallAppend [] else []

lemma counterToTL_sends (s : MultiValue) (cou : ℚ) (notOne : t.isSet 1 = false)
    (noUniques : t.uniques = []) : SendsCounter s cou (counterToTL cou (s.uniquesToTL t)) := by
  by_cases hc : cou = 1 <;> by_cases hit : s.hll.itemsCount = 0
  all_goals
    constructor <;> simp_all [counterToTL, uniquesToTL, restoreCounter, isSetCounterEq1,
      setCounterEq1, setCounter, setUniques, isSet, mark]

lemma SendsCounter.of_agree (h : SendsCounter s cou t) (agree : Agree ns t t') (h0 : 0 ∉ ns)
    (h1 : 1 ∉ ns) (h5 : 5 ∉ ns) : SendsCounter s cou t' := by
  refine ⟨?_, (agree.uniques h5).trans h.uniques⟩
  rw [← h.counter, restoreCounter, restoreCounter, isSetCounterEq1, isSetCounterEq1,
    agree.marks 1 h1]
  split
  · rfl
  · exact agree.counter h0

/-- The value, as it is sent. -/
structure SendsValue (v : ItemValue) (sf : ℚ) (t : TLMultiValue) : Prop where
  set : t.isSetValueSet = true
  max_set : t.isSetValueMax = decide (v.valueMin ≠ v.valueMax)
  min_eq : t.valueMin = v.valueMin
  max_eq : t.valueMax = if v.valueMin ≠ v.valueMax then v.valueMax else 0
  sum_eq : t.valueSum = if v.valueMin ≠ v.valueMax then v.valueSum * sf else 0
  sumSquare_eq : t.valueSumSquare = if v.valueMin ≠ v.valueMax then v.valueSumSquare * sf else 0

lemma valueToTL_sends (v : ItemValue) (sf : ℚ) (blank : Agree ns {} t) (h3 : 3 ∉ ns)
    (h4 : 4 ∉ ns) : SendsValue v sf (valueToTL v sf t) := by
  have hm := blank.marks 4 h4
  have hn := blank.valueMin h3
  have hv := blank.values h4
  by_cases hz : v.valueMin = 0 <;> by_cases hs : v.valueMin = v.valueMax
  all_goals
    constructor <;>
      simp_all [valueToTL, setValueSet, setValueMin, setValueMax, setValueSum, setValueSumSquare,
        isSetValueSet, isSetValueMax, isSet, mark]

lemma SendsValue.of_agree (h : SendsValue v sf t) (agree : Agree ns t t') (h2 : 2 ∉ ns)
    (h3 : 3 ∉ ns) (h4 : 4 ∉ ns) : SendsValue v sf t' := by
  obtain ⟨hm, hs, hr⟩ := agree.values h4
  exact ⟨(agree.marks 2 h2).trans h.set, (agree.marks 4 h4).trans h.max_set,
    (agree.valueMin h3).trans h.min_eq, hm.trans h.max_eq, hs.trans h.sum_eq,
    hr.trans h.sumSquare_eq⟩

/-- The digest, as it is sent: explicit centroids, or a mark that the only one is implicit. -/
structure SendsDigest (b : Bool) (s : MultiValue) (sf : ℚ) (t : TLMultiValue) : Prop where
  centroids : t.centroids = if b then (s.valueTDigest.getD []).map fun c => (c.1, c.2 * sf) else []
  implicit : t.isSetImplicitCentroid = (b && s.valueTDigest.isNone)

lemma SendsDigest.of_agree {b : Bool} (h : SendsDigest b s sf t) (agree : Agree ns t t')
    (h6 : 6 ∉ ns) (h18 : 18 ∉ ns) : SendsDigest b s sf t' :=
  ⟨(agree.centroids h6).trans h.centroids, (agree.marks 18 h18).trans h.implicit⟩

lemma centroidsToTL_digest (h : SendsDigest false s sf t) :
    SendsDigest true s sf (s.centroidsToTL sf t) := by
  have hm := h.implicit
  have hc := h.centroids
  rw [centroidsToTL]
  cases hd : s.valueTDigest with
  | none =>
    constructor <;> simp [isSetImplicitCentroid, setImplicitCentroid, isSet, mark, hd, hc]
  | some d =>
    cases d with
    | nil => constructor <;> simp_all [isSetImplicitCentroid, isSet]
    | cons c d => constructor <;> simp_all [isSetImplicitCentroid, setCentroids, isSet, mark]

/-- A record that carries the value `s`, with counts multiplied by the sample factor. -/
structure Encodes (hasPercentiles : Bool) (s : MultiValue) (sf : ℚ) (t : TLMultiValue) :
    Prop where
  hosts : SendsHosts s.value t
  digest : SendsDigest (hasPercentiles && s.value.valueSet) s sf t
  counter : SendsCounter s (s.value.counter * sf) t
  value : s.value.valueSet = true → SendsValue s.value sf t
  no_value : s.value.valueSet = false → t.isSetValueSet = false

theorem multiValueToTL_encodes (hasPercentiles : Bool) (s : MultiValue)
    (hpos : 0 < s.value.counter * sf) :
    Encodes hasPercentiles s sf (s.multiValueToTL hasPercentiles sf) := by
  obtain ⟨ha, hh⟩ := hostsToTL_sends s.value
  rw [multiValueToTL, if_neg (not_le.2 hpos)]
  generalize hostsToTL s.value {} = t₁ at *
  have hc := counterToTL_sends s (s.value.counter * sf) (ha.marks 1 (by decide))
    (ha.uniques (by decide))
  have hstg : Agree [5, 0, 1] t₁ (counterToTL (s.value.counter * sf) (s.uniquesToTL t₁)) :=
    uniquesToTL_agree.trans counterToTL_agree
  generalize counterToTL (s.value.counter * sf) (s.uniquesToTL t₁) = t at *
  have hb := ha.trans hstg
  have hhs' := hh.of_agree hstg (by decide)
  have hd : SendsDigest false s sf t := ⟨hb.centroids (by decide), hb.marks 18 (by decide)⟩
  cases hs : s.value.valueSet with
  | false =>
    refine ⟨hhs', ?_, hc, fun h => ?_, fun _ => hb.marks 2 (by decide)⟩
    · rw [hs, Bool.and_false]
      exact hd
    · cases hs.symm.trans h
  | true =>
    have hp : Agree [6, 18] t (if hasPercentiles then s.centroidsToTL sf t else t) ∧
        SendsDigest hasPercentiles s sf (if hasPercentiles then s.centroidsToTL sf t else t) := by
      cases hasPercentiles with
      | true => exact ⟨centroidsToTL_agree, centroidsToTL_digest hd⟩
      | false => exact ⟨.refl t, hd⟩
    simp only [Bool.true_eq_false, if_false]
    generalize (if hasPercentiles then s.centroidsToTL sf t else t) = t' at *
    have hl : Agree [6, 18, 2, 3, 4] t (valueToTL s.value sf t') := hp.1.trans valueToTL_agree
    refine ⟨hhs'.of_agree hl (by decide), ?_, hc.of_agree hl (by decide)
      (by decide) (by decide), fun _ => ?_, fun h => ?_⟩
    · rw [hs, Bool.and_true]
      exact hp.2.of_agree valueToTL_agree (by decide) (by decide)
    · exact valueToTL_sends _ _ (hb.trans hp.1) (by decide) (by decide)
    · cases hs.symm.trans h

lemma restoreHost_agree (f : HostField) (g : TagUnion) (t : TLMultiValue) :
    Agree [f.tagBit, f.stagBit] t (t.restoreHost f g) := by
  rw [restoreHost]
  split
  · exact agree_withHost
  · exact .refl t

lemma restoreHosts_agree (t : TLMultiValue) (g : TagUnion) :
    Agree [7, 14, 8, 15, 9, 16] t (t.restoreHosts g) :=
  ((restoreHost_agree .max g t).trans (restoreHost_agree .min _ _)).trans
    (restoreHost_agree .maxCounter _ _)

lemma restoreHost_host {g : TagUnion} :
    (t.restoreHost f g).host f = if t.isSetHost f then t.host f else g := by
  cases hs : t.isSetHost f with
  | true => simp [restoreHost, hs]
  | false => simp [restoreHost, hs, TLMultiValue.host]

/-- What the receiver makes of the hosts that were sent. -/
lemma restoreHosts_arrived (h : SendsHosts v t) (g : TagUnion) (f : HostField) :
    (t.restoreHosts g).host f = arrived v g f := by
  have h₁ := restoreHost_agree .max g t
  have hm : (t.restoreHost .max g).host .max = arrived v g .max := by
    rw [restoreHost_host, h.max_set, h.max_eq, arrived]
    cases v.maxHostTag.empty <;> rfl
  rw [restoreHosts]
  generalize t.restoreHost .max g = t₁ at h₁ hm ⊢
  have h₂ := restoreHost_agree .min (t₁.host .max) t₁
  have hn := restoreHost_host (f := .min) (t := t₁) (g := t₁.host .max)
  generalize t₁.restoreHost .min (t₁.host .max) = t₂ at h₂ hn ⊢
  have hmx₂ := (h₂.hosts .max (by decide) (by decide)).trans hm
  have h₃ := restoreHost_agree .maxCounter (t₂.host .max) t₂
  cases f with
  | max => exact (h₃.hosts .max (by decide) (by decide)).trans hmx₂
  | min =>
    rw [h₃.hosts .min (by decide) (by decide), hn, h₁.isSetHost (by decide) (by decide),
      h.min_set, h₁.hosts .min (by decide) (by decide), hm]
    by_cases hne : v.minHostTag = v.maxHostTag
    · simp [hne, arrived]
    · cases he : v.minHostTag.empty <;> simp [hne, he, h.min_eq hne, arrived]
  | maxCounter =>
    have h₁₂ := h₁.trans h₂
    rw [restoreHost_host, h₁₂.isSetHost (by decide) (by decide), h.counter_set,
      h₁₂.hosts .maxCounter (by decide) (by decide), hmx₂]
    by_cases hne : v.maxCounterHostTag = v.maxHostTag
    · simp [hne, arrived]
    · cases he : v.maxCounterHostTag.empty <;> simp [hne, he, h.counter_eq hne, arrived]

/-- The receiver's limits on the value. -/
def ValueInRange (v : ItemValue) (sf : ℚ) : Prop :=
  |v.valueMin| ≤ maxFloat32 ∧ |v.valueMax| ≤ maxFloat32 ∧
    (v.valueMin ≠ v.valueMax → |v.valueSum * sf| ≤ maxFloat32)

lemma maxFloat32_pos : 0 < maxFloat32 := by
  rw [maxFloat32]
  norm_num

lemma validateCounter_eq_none {f : ℚ} : validateCounter f = none ↔ 0 ≤ f ∧ f ≤ maxFloat32 := by
  rw [validateCounter]
  split
  · simp [not_le.2 ‹f < 0›]
  · rename_i h
    split
    · simp [not_le.2 ‹f > maxFloat32›]
    · rename_i h'
      simp [not_lt.1 h, not_lt.1 h']

lemma validateValue_eq_none {f : ℚ} : validateValue f = none ↔ |f| ≤ maxFloat32 := by
  rw [validateValue, abs_le]
  split
  · simp [not_le.2 ‹f > maxFloat32›]
  · rename_i h
    split
    · simp [not_le.2 ‹f < -maxFloat32›]
    · rename_i h'
      simp [not_lt.1 h, not_lt.1 h']

instance (v : ItemValue) (sf : ℚ) : Decidable (ValueInRange v sf) :=
  inferInstanceAs (Decidable (_ ∧ _ ∧ (_ → _)))

/-- The item that an empty receiver is left with. -/
def received (v : ItemValue) (sf : ℚ) (g : TagUnion) : ItemValue :=
  if v.counter * sf ≤ 0 ∨ maxFloat32 < v.counter * sf then {}
  else if v.valueSet = false ∨ ¬ ValueInRange v sf then
    { counter := v.counter * sf, maxCounterHostTag := arrived v g .maxCounter }
  else
    { counter := v.counter * sf
      maxCounterHostTag := arrived v g .maxCounter
      valueMin := v.valueMin
      valueMax := v.valueMax
      valueSum :=
        if v.valueMin ≠ v.valueMax then v.valueSum * sf else v.valueMin * (v.counter * sf)
      valueSumSquare :=
        if v.valueMin ≠ v.valueMax then v.valueSumSquare * sf
        else v.valueMin * (v.counter * sf) * v.valueMin
      minHostTag := arrived v g .min
      maxHostTag := arrived v g .max
      valueSet := true }

lemma mergeDigest_value (s : MultiValue) (t : TLMultiValue) :
    (s.mergeDigest t).1.value = s.value := by
  rw [mergeDigest]
  split
  rename_i s' e heq
  have hs : s'.value = s.value := by
    split at heq
    · exact (congrArg (fun r => r.1.value) heq).symm
    · exact (congrArg (fun r => r.1.value) heq).symm
  split
  · exact hs
  · split <;> exact hs

section

variable (h : SendsValue v sf t)
include h

/-- The limits are what the receiver checks. -/
lemma SendsValue.inRange_iff :
    ValueInRange v sf ↔ validateValue t.valueMin = none ∧ validateValue t.valueMax = none ∧
      validateValue t.valueSum = none := by
  rw [validateValue_eq_none, validateValue_eq_none, validateValue_eq_none, h.min_eq, h.max_eq,
    h.sum_eq, ValueInRange]
  by_cases hs : v.valueMin = v.valueMax
  · simp [hs, maxFloat32_pos.le]
  · simp [hs]

lemma mergeValue_inRange (inRange : ValueInRange v sf) (s : MultiValue) :
    s.mergeValue t = mergeDigest { s with value := s.value.mergeWithTLItem2 t } t := by
  obtain ⟨hm, hx, hs⟩ := h.inRange_iff.1 inRange
  rw [mergeValue, if_neg (by rw [h.set]; decide), hm, hx, hs]

lemma mergeValue_outOfRange (inRange : ¬ ValueInRange v sf) (s : MultiValue) :
    (s.mergeValue t).1 = s := by
  rw [h.inRange_iff] at inRange
  rw [mergeValue, if_neg (by rw [h.set]; decide)]
  cases hm : validateValue t.valueMin with
  | some e => rfl
  | none =>
    cases hx : validateValue t.valueMax with
    | some e => rfl
    | none =>
      cases hs : validateValue t.valueSum with
      | some e => rfl
      | none => exact absurd ⟨hm, hx, hs⟩ inRange

/-- The value of an empty receiver after the value of a record. -/
lemma mergeValue_value (unset : s.value.valueSet = false) (noSum : s.value.valueSum = 0)
    (noSquares : s.value.valueSumSquare = 0) :
    (s.mergeValue t).1.value = if ValueInRange v sf then
        { s.value with
          valueMin := v.valueMin
          valueMax := v.valueMax
          valueSum := if v.valueMin ≠ v.valueMax then v.valueSum * sf else v.valueMin * t.counter
          valueSumSquare :=
            if v.valueMin ≠ v.valueMax then v.valueSumSquare * sf
            else v.valueMin * t.counter * v.valueMin
          minHostTag := t.host .min
          maxHostTag := t.host .max
          valueSet := true }
      else s.value := by
  by_cases hr : ValueInRange v sf
  · rw [if_pos hr, mergeValue_inRange h hr, mergeDigest_value]
    by_cases hs : v.valueMin = v.valueMax
    · have hm : t.isSetValueMax = false := by simp [h.max_set, hs]
      simp [ItemValue.mergeWithTLItem2, restoreValues, hm, unset, noSum, noSquares, h.min_eq,
        hs, TLMultiValue.host]
    · have hm : t.isSetValueMax = true := by simp [h.max_set, hs]
      simp [ItemValue.mergeWithTLItem2, restoreValues, hm, unset, noSum, noSquares, h.min_eq,
        h.max_eq, h.sum_eq, h.sumSquare_eq, hs, TLMultiValue.host]
  · rw [if_neg hr, mergeValue_outOfRange h hr]

end

lemma mergeUniques_value {v : MultiValue} (rest : Rest v.hll) (noHll : s.hll = ChUnique.zeroValue)
    (h : t.uniques = if v.hll.itemsCount ≠ 0 then v.hll.marshallAppend [] else []) :
    ∃ s', s.mergeUniques t = some s' ∧ s'.value = s.value ∧ s'.valueTDigest = s.valueTDigest := by
  rw [mergeUniques]
  split
  · rename_i hl
    rw [h] at hl ⊢
    split at hl
    · rename_i hit
      obtain ⟨ch, hlo, -⟩ := ChUniqueMergeRead.load_marshallAppend
        ChUniqueMergeRead.faithful_readTmp s.hll rest
      have hr := hlo []
      rw [List.append_nil] at hr
      rw [if_pos hit, ChUniqueCodec.mergeRead_nil (by rw [noHll]; rfl),
        ChUniqueCodec.umMarshall_eq, hr]
      exact ⟨_, rfl, rfl, rfl⟩
    · exact absurd rfl hl
  · exact ⟨s, rfl, rfl, rfl⟩

/-- A record whose counter and hosts have been restored. -/
structure Arrives (hasPercentiles : Bool) (v : MultiValue) (sf : ℚ) (g : TagUnion)
    (t : TLMultiValue) : Prop where
  counter : t.counter = v.value.counter * sf
  uniques : t.uniques = if v.hll.itemsCount ≠ 0 then v.hll.marshallAppend [] else []
  hosts : ∀ f, t.host f = arrived v.value g f
  digest : SendsDigest (hasPercentiles && v.value.valueSet) v sf t
  value : v.value.valueSet = true → SendsValue v.value sf t
  no_value : v.value.valueSet = false → t.isSetValueSet = false

lemma restore_arrives {hasPercentiles : Bool} {v : MultiValue} (h : Encodes hasPercentiles v sf t)
    (g : TagUnion) : Arrives hasPercentiles v sf g (t.restoreCounter.restoreHosts g) := by
  have hc : Agree [0] t t.restoreCounter := by
    rw [restoreCounter]
    split
    · constructor <;> simp [isSet, TLMultiValue.host]
    · exact .refl t
  have ha := hc.trans (restoreHosts_agree t.restoreCounter g)
  refine ⟨?_, (ha.uniques (by decide)).trans h.counter.uniques, ?_,
    h.digest.of_agree ha (by decide) (by decide), fun hs => ?_, fun hs => ?_⟩
  · exact ((restoreHosts_agree _ g).counter (by decide)).trans h.counter.counter
  · exact restoreHosts_arrived (h.hosts.of_agree hc (by decide)) g
  · exact (h.value hs).of_agree ha (by decide) (by decide) (by decide)
  · exact (ha.marks 2 (by decide)).trans (h.no_value hs)

/-- Sending a value and receiving it into an empty one. -/
def roundTrip (hasPercentiles : Bool) (rng : Rng) (v : MultiValue) (sf : ℚ) (g : TagUnion) :
    Option (MultiValue × Rng × Option IngestionError) :=
  mergeWithTL2 rng {} (v.multiValueToTL hasPercentiles sf) g

variable (hasPercentiles : Bool)
include hasPercentiles

/-- An acceptable counter: the rest depends on the value and the digest. -/
lemma roundTrip_accepted (rng : Rng) {v : MultiValue} (rest : Rest v.hll)
    (hpos : 0 < v.value.counter * sf) (hle : v.value.counter * sf ≤ maxFloat32) (g : TagUnion) :
    ∃ (s : MultiValue) (t : TLMultiValue), Arrives hasPercentiles v sf g t ∧
      s.value = { counter := v.value.counter * sf
                  maxCounterHostTag := arrived v.value g .maxCounter } ∧
      s.valueTDigest = none ∧
      roundTrip hasPercentiles rng v sf g = some ((s.mergeValue t).1, rng, (s.mergeValue t).2) := by
  have he := multiValueToTL_encodes hasPercentiles v hpos
  have hc := he.counter.counter
  have ha := restore_arrives he g
  rw [roundTrip, mergeWithTL2]
  generalize (v.multiValueToTL hasPercentiles sf).restoreCounter = t1 at hc ha ⊢
  have hv : validateCounter t1.counter = none := by
    rw [hc]
    exact validateCounter_eq_none.2 ⟨hpos.le, hle⟩
  rw [if_neg (by rw [hc]; exact hpos.ne'), hv]
  generalize t1.restoreHosts g = t at ha ⊢
  have hcounter_pos : 0 < t.counter := by rwa [ha.counter]
  obtain ⟨s, hu, hl, hd⟩ := mergeUniques_value rest
    (s := { value := { counter := t.counter, maxCounterHostTag := t.host .maxCounter } })
    rfl ha.uniques
  refine ⟨s, t, ha, ?_, hd, ?_⟩
  · rw [hl, ha.counter, ha.hosts]
  · dsimp only
    simp only [MultiValue.addCounterHost, ItemValue.addCounterHost, ItemCounter.addCounterHost,
      ItemCounter.addHost, not_le.2 hcounter_pos, if_false, le_refl, if_true]
    rw [hu]
    rfl

theorem roundTrip_received (rng : Rng) {v : MultiValue} (rest : Rest v.hll) (sf : ℚ)
    (g : TagUnion) :
    ∃ v' rng' e, roundTrip hasPercentiles rng v sf g = some (v', rng', e) ∧
      v'.value = received v.value sf g := by
  by_cases hp : v.value.counter * sf ≤ 0
  · refine ⟨{}, rng, none, ?_, by rw [received, if_pos (.inl hp)]⟩
    rw [roundTrip, multiValueToTL, if_pos hp]
    rfl
  · by_cases hle : maxFloat32 < v.value.counter * sf
    · refine ⟨{}, rng, some .tooBigCounter, ?_, by rw [received, if_pos (.inr hle)]⟩
      have hc := (multiValueToTL_encodes hasPercentiles v (not_le.1 hp)).counter.counter
      rw [roundTrip, mergeWithTL2]
      generalize (v.multiValueToTL hasPercentiles sf).restoreCounter = t at hc ⊢
      have hd : validateCounter t.counter = some .tooBigCounter := by
        rw [hc, validateCounter, if_neg (not_le.1 hp).not_gt, if_pos hle]
      rw [if_neg (by rw [hc]; exact (not_le.1 hp).ne'), hd]
    · obtain ⟨s, t, ha, hv, -, hu⟩ := roundTrip_accepted hasPercentiles rng rest
        (not_le.1 hp) (not_lt.1 hle) g
      refine ⟨_, _, _, hu, ?_⟩
      rw [received, if_neg (not_or.2 ⟨hp, hle⟩)]
      cases hs : v.value.valueSet with
      | false =>
        rw [mergeValue, if_pos (ha.no_value hs), if_pos (.inl rfl), hv]
      | true =>
        rw [mergeValue_value (ha.value hs) (by rw [hv]) (by rw [hv]) (by rw [hv])]
        by_cases hr : ValueInRange v.value sf
        · simp [hr, hv, ha.counter, ha.hosts]
        · simp [hr, hv]

end Transfer
