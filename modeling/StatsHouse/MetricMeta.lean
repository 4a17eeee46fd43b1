import Mathlib

/-!
# Descriptions of metrics

A metric description is read from JSON, which gives its saved fields, and `RestoreCachedInfo`
derives the rest from them: the index of each tag, which tags are raw 64-bit values, and the
lookups of tags by name, one for the API and one for agents. Both lookups hand out pointers,
into the tags of the description or to shared default tags, so a tag found is named here by
where it is. Strings are their bytes.
-/

namespace MetricMeta

open List

def maxTags : Nat := 48

def maxTagsV2 : Nat := 16

def maxStringLen : Nat := 128

/-- The bytes of an ASCII literal. -/
def ascii (s : String) : List UInt8 := s.toList.map fun c => UInt8.ofNat c.toNat

def stringTopTagID : List UInt8 := ascii "_s"

def hostTagID : List UInt8 := ascii "_h"

/-- Used as a flag during mapping. -/
def stringTopTagIndex : Int := -1

def stringTopTagIndexV3 : Nat := 47

/-- Used as a flag during mapping. -/
def hostTagIndex : Int := -2

def legacyTagIDPrefix : List UInt8 := ascii "key"

def effectiveWeightOne : Nat := 128

def maxEffectiveWeight : Int := 100 * effectiveWeightOne

def tagID (i : Nat) : List UInt8 := (Nat.toDigits 10 i).map fun c => UInt8.ofNat c.toNat

def tagIDLegacy (i : Nat) : List UInt8 := legacyTagIDPrefix ++ tagID i

structure MetricMetaTag where
  name : List UInt8 := []
  description : List UInt8 := []
  rawKind : List UInt8 := []
  /-- Not saved. -/
  index : Int := 0
  /-- Not saved. -/
  raw64 : Bool := false
deriving Repr, DecidableEq, Inhabited

/-- Where a tag that a lookup hands out lives. -/
inductive TagRef where
  /-- In the tags of the description. -/
  | own (i : Nat)
  | default (i : Nat)
  | defaultSTag
  | defaultHTag
  /-- Made for the string top of one description. -/
  | sTag (name description : List UInt8)
deriving Repr, DecidableEq

def defaultMetaTag (i : Nat) : MetricMetaTag :=
  { index := i, description := if i = 0 then ascii "environment" else [] }

structure MetricMetaValue where
  namespaceID : BitVec 32 := 0
  name : List UInt8 := []
  description : List UInt8 := []
  tags : List MetricMetaTag := []
  tagsDraft : AList (fun _ : List UInt8 => MetricMetaTag) := ∅
  kind : List UInt8 := []
  weight : ℚ := 0
  resolution : Int := 0
  stringTopName : List UInt8 := []
  stringTopDescription : List UInt8 := []
  preKeyTagID : List UInt8 := []
  preKeyFrom : BitVec 32 := 0
  preKeyOnly : Bool := false
  metricType : List UInt8 := []
  fairKeyTagIDs : List (List UInt8) := []
  name2TagAgent : AList (fun _ : List UInt8 => Nat) := ∅
  name2Tag : AList (fun _ : List UInt8 => TagRef) := ∅
  effectiveResolution : Int := 0
  preKeyIndex : Int := 0
  fairKeyIndex : List Int := []
  effectiveWeight : Int := 0
  hasPercentiles : Bool := false
  histogramBuckets : List ℚ := []
  groupID : BitVec 32 := 0

inductive MetaError where
  | metricName (name : List UInt8)
  | metricType (metricType : List UInt8)
  | reservedPrefix
  | metricKind (kind : List UInt8)
  | tooManyTags
  | tagName (name : List UInt8) (tag : Nat)
  | rawKind (kind : List UInt8) (tag : Nat)
  | lastTagRaw64 (kind : List UInt8) (tag : Nat)
  | preKeyTagID (id : List UInt8)
  | preKeyOnly
  | invalidName (name : List UInt8)
  | nameCollision (name : List UInt8)
  | resolution (resolution : Int)
  | weight
deriving Repr, DecidableEq

def isAsciiLetter (c : UInt8) : Bool := (97 ≤ c && c ≤ 122) || (65 ≤ c && c ≤ 90)

def isDigit (c : UInt8) : Bool := 48 ≤ c && c ≤ 57

def validIdent (s : List UInt8) : Bool :=
  match s with
  | [] => false
  | c :: rest =>
    decide (s.length ≤ maxStringLen) && isAsciiLetter c &&
      rest.all fun c => isAsciiLetter c || c == 95 || isDigit c

def validTagName (s : List UInt8) : Bool := validIdent s

/-- At most one `:`, not at the start. -/
def validMetricName (s : List UInt8) : Bool :=
  match s with
  | [] => false
  | c :: rest =>
    decide (s.length ≤ maxStringLen) && isAsciiLetter c && decide (rest.count 58 ≤ 1) &&
      rest.all fun c => c == 58 || isAsciiLetter c || c == 95 || isDigit c

def validMetricPrefix (s : List UInt8) : Bool := !(ascii "host_").isPrefixOf s

def isValidMetricType (s : List UInt8) : Bool :=
  ["second", "millisecond", "microsecond", "nanosecond", "byte", "byte_as_bits", ""].any
    (s == ascii ·)

def validMetricKind (s : List UInt8) : Bool :=
  ["counter", "value", "value_p", "unique", "mixed", "mixed_p"].any (s == ascii ·)

def validRawKind (s : List UInt8) : Bool :=
  ["", "int", "uint", "ip", "ip_bswap", "hex", "hex_bswap", "timestamp", "timestamp_local",
    "lexenc_float", "int64", "uint64"].any (s == ascii ·)

def isRaw64Kind (s : List UInt8) : Bool := s == ascii "int64" || s == ascii "uint64"

def resolutionsTable : List Int :=
  [1, 1, 2, 3, 4, 5, 6, 10, 10, 10, 10, 12, 12, 15, 15, 15, 20, 20, 20, 20, 20,
    30, 30, 30, 30, 30, 30, 30, 30, 30, 30, 60]

def allowedResolution (r : Int) : Int :=
  if r < 0 then 1 else resolutionsTable.getD r.toNat 60

/-- The number that one or two digits stand for. -/
def tagNumber : List UInt8 → Option Nat
  | [a] => if isDigit a then some (a - 48).toNat else none
  | [a, b] => if isDigit a && isDigit b then some ((a - 48).toNat * 10 + (b - 48).toNat) else none
  | _ => none

namespace MetricMetaValue

def numberedTag (m : MetricMetaValue) (num : Nat) : Option TagRef :=
  if num < m.tags.length then some (.own num)
  else if num < maxTags then some (.default num)
  else none

def name2TagFast (m : MetricMetaValue) (name : List UInt8) : Option TagRef :=
  (tagNumber name).bind m.numberedTag

def name2TagLookup (m : MetricMetaValue) (name : List UInt8) : Option TagRef :=
  match m.name2TagFast name with
  | some tag => some tag
  | none => m.name2Tag.lookup name

def name2TagAgentFastBytes (m : MetricMetaValue) (name : List UInt8) : Option TagRef :=
  if name = hostTagID then some .defaultHTag
  else if name = stringTopTagID then m.numberedTag stringTopTagIndexV3
  else (tagNumber name).bind m.numberedTag

/-- Modern tags have no legacy name. -/
def name2TagAgentFastLegacyBytes (m : MetricMetaValue) (name : List UInt8) : Option TagRef :=
  if legacyTagIDPrefix.isPrefixOf name then
    match tagNumber (name.drop legacyTagIDPrefix.length) with
    | none => none
    | some num =>
      if num ≥ maxTagsV2 then none
      else if num < m.tags.length then some (.own num)
      else some (.default num)
  else none

/-- The flag tells a legacy name; the outer `none` is the panic on an index out of range. -/
def name2TagAgentLookup (m : MetricMetaValue) (name : List UInt8) : Option (Option TagRef × Bool) :=
  match m.name2TagAgentFastBytes name with
  | some tag => some (some tag, false)
  | none =>
    match m.name2TagAgent.lookup name with
    | some i =>
      if i < m.tags.length then some (some (.own i), false)
      else if i < maxTags then some (some (.default i), false)
      else none
    | none =>
      match m.name2TagAgentFastLegacyBytes name with
      | some tag => some (some tag, true)
      | none => some (none, false)

/-- The tag behind a pointer. -/
def deref (m : MetricMetaValue) : TagRef → MetricMetaTag
  | .own i => m.tags.getD i default
  | .default i => defaultMetaTag i
  | .defaultSTag => { index := stringTopTagIndex }
  | .defaultHTag => { index := hostTagIndex }
  | .sTag name description => { name, description, index := stringTopTagIndex }

end MetricMetaValue

/-- The description under repair, with the errors so far. -/
structure Restoring where
  m : MetricMetaValue
  err : List MetaError := []

namespace Restoring

/-- `multierr.Append`. -/
def fail (r : Restoring) (e : MetaError) : Restoring := { r with err := r.err ++ [e] }

def failIf (r : Restoring) (cond : Bool) (e : MetaError) : Restoring :=
  if cond then r.fail e else r

/-- Its errors replace those that were there. -/
def setName2Tag (r : Restoring) (name : List UInt8) (newTag : TagRef) (canonical : Bool) :
    Restoring :=
  let r := if !canonical && !validTagName name then { r with err := [.invalidName name] } else r
  match r.m.name2TagLookup name with
  | some _ => { r with err := [.nameCollision name] }
  | none => { r with m := { r.m with name2Tag := r.m.name2Tag.insert name newTag } }

def setName2TagAgent (r : Restoring) (name : List UInt8) (i : Nat) : Restoring :=
  { r with m := { r.m with name2TagAgent := r.m.name2TagAgent.insert name i } }

def checkName (r : Restoring) : Restoring :=
  let r := r.failIf (!validMetricName r.m.name && r.m.name != ascii "404_page" &&
    r.m.name != ascii "404_page_top_urls") (.metricName r.m.name)
  let r :=
    if !isValidMetricType r.m.metricType then
      let r := r.fail (.metricType r.m.metricType)
      { r with m := { r.m with metricType := [] } }
    else r
  let r := r.failIf (!validMetricPrefix r.m.name) .reservedPrefix
  r.failIf (!validMetricKind r.m.kind && r.m.kind != []) (.metricKind r.m.kind)

/-- The environment tag cannot be named by users. -/
def envTag (tag : MetricMetaTag) : MetricMetaTag := { tag with
    name := []
    rawKind := []
    description := if tag.description = ascii "-" then tag.description else ascii "environment" }

def resetMaps (r : Restoring) : Restoring := { r with m := { r.m with
    name2Tag := ∅
    stringTopName := if r.m.stringTopName = stringTopTagID then [] else r.m.stringTopName
    tags := r.m.tags.modify 0 envTag
    preKeyIndex := -1 } }

/-- The compact journal clears the names of draft tags. -/
def nameDraft (tags : AList (fun _ : List UInt8 => MetricMetaTag)) :
    AList (fun _ : List UInt8 => MetricMetaTag) :=
  (tags.entries.map fun e => (⟨e.1, { e.2 with name := e.1 }⟩ : Sigma _)).toAList

/-- The prekey part of the first loop. -/
def restorePreKey (r : Restoring) (i : Nat) : Restoring :=
  if r.m.preKeyFrom ≠ 0 then
    if r.m.preKeyTagID = tagID i then { r with m := { r.m with preKeyIndex := i } }
    else if r.m.preKeyTagID = tagIDLegacy i then
      { r with m := { r.m with preKeyIndex := i, preKeyTagID := tagID i } }
    else r
  else r

/-- The first loop, on the tag at one position. -/
def restoreTag (r : Restoring) (i : Nat) : Restoring :=
  let tag := r.m.tags.getD i default
  let tag := if tag.name = tagID i then { tag with name := [] } else tag
  let r := r.failIf (tag.name != [] && !validTagName tag.name) (.tagName tag.name i)
  let r := r.restorePreKey i
  let r := r.failIf (!validRawKind tag.rawKind) (.rawKind tag.rawKind i)
  let tag := { tag with raw64 := isRaw64Kind tag.rawKind }
  -- the index is assigned in the second loop only
  if tag.raw64 = true ∧ tag.index ≥ (maxTags : Int) - 1 then
    let r := r.fail (.lastTagRaw64 tag.rawKind i)
    { r with m := { r.m with tags := r.m.tags.set i { tag with raw64 := false } } }
  else { r with m := { r.m with tags := r.m.tags.set i tag } }

/-- The second loop, on the tag at one position. -/
def indexTag (r : Restoring) (i : Nat) : Restoring :=
  let tag := { r.m.tags.getD i default with index := i }
  let r := { r with m := { r.m with tags := r.m.tags.set i tag } }
  if tag.name ≠ [] then (r.setName2Tag tag.name (.own i) false).setName2TagAgent tag.name i else r

def checkPreKey (r : Restoring) : Restoring :=
  let r := r.failIf (r.m.preKeyIndex == -1 && r.m.preKeyTagID != []) (.preKeyTagID r.m.preKeyTagID)
  if r.m.preKeyOnly = true ∧ r.m.preKeyIndex = -1 then
    { r with m := { r.m with preKeyOnly := false } }.fail .preKeyOnly
  else r

def restoreStringTop (r : Restoring) : Restoring :=
  let r :=
    if r.m.stringTopName = [] ∧ r.m.stringTopDescription = [] then
      r.setName2Tag stringTopTagID .defaultSTag true
    else
      let sTag := TagRef.sTag r.m.stringTopName r.m.stringTopDescription
      let r :=
        if r.m.stringTopName ≠ [] then
          (r.setName2Tag r.m.stringTopName sTag false).setName2TagAgent r.m.stringTopName
            stringTopTagIndexV3
        else r
      r.setName2Tag stringTopTagID sTag true
  r.setName2Tag hostTagID .defaultHTag true

def restoreNumbers (r : Restoring) : Restoring :=
  let resolution := allowedResolution r.m.resolution
  let r := { r with m := { r.m with effectiveResolution := resolution } }
  let r := r.failIf (resolution != r.m.resolution && r.m.resolution != 0)
    (.resolution r.m.resolution)
  let weight := if r.m.weight = 0 then 1 else r.m.weight
  let r := { r with m := { r.m with weight } }
  let r :=
    if weight < 0 ∨ weight > 2 ^ 31 - 1 then
      { r with m := { r.m with effectiveWeight := effectiveWeightOne } }.fail .weight
    else
      { r with m := { r.m with
        effectiveWeight := min (max ⌊weight * effectiveWeightOne⌋ 1) maxEffectiveWeight } }
  { r with m := { r.m with
    hasPercentiles := r.m.kind == ascii "value_p" || r.m.kind == ascii "mixed_p" } }

/-- What stands behind the first occurrence of a mark, if it occurs. -/
def afterMark (mark : List UInt8) : List UInt8 → Option (List UInt8)
  | [] => if mark = [] then some [] else none
  | c :: s =>
    if mark.isPrefixOf (c :: s) then some ((c :: s).drop mark.length) else afterMark mark s

/-- A comma at the start of a piece belongs to it. -/
def bucketPieces (s : List UInt8) : List (List UInt8) :=
  match s with
  | [] => []
  | c :: rest =>
    (c :: rest.takeWhile (· != 44)) :: bucketPieces ((rest.dropWhile (· != 44)).drop 1)
termination_by s.length
decreasing_by
  have := (dropWhile_sublist (· != 44) (l := rest)).length_le
  simp only [length_drop, length_cons]
  omega

/-- The buckets stay as they were when the description does not list any. -/
def restoreBuckets (parseFloat32 : List UInt8 → Option ℚ) (r : Restoring) : Restoring :=
  match afterMark (ascii "Buckets$") r.m.description with
  | none => r
  | some s =>
    if s.contains 36 then
      { r with m := { r.m with
        histogramBuckets := (bucketPieces (s.takeWhile (· != 36))).filterMap parseFloat32 } }
    else r

def builtinGroupIDDefault : BitVec 32 := -4

def builtinNamespaceIDDefault : BitVec 32 := -5

def restoreGroup (r : Restoring) : Restoring := { r with m := { r.m with
    groupID := if r.m.groupID = 0 then builtinGroupIDDefault else r.m.groupID
    namespaceID := if r.m.namespaceID = 0 then builtinNamespaceIDDefault else r.m.namespaceID } }

/-- The indices stay as they were when no fair keys are set. -/
def restoreFairKeys (r : Restoring) : Restoring :=
  if r.m.fairKeyTagIDs ≠ [] then
    { r with m := { r.m with
      fairKeyIndex := r.m.fairKeyTagIDs.filterMap fun v =>
        (r.m.name2TagLookup v).map fun tag => (r.m.deref tag).index } }
  else r

end Restoring

/-- How many of the tags are looked at. -/
def MetricMetaValue.tagCount (m : MetricMetaValue) : Nat := min m.tags.length maxTags

/-- The name lookup of agents is not emptied first. -/
def restoreCachedInfo (parseFloat32 : List UInt8 → Option ℚ) (m : MetricMetaValue) :
    MetricMetaValue × List MetaError :=
  let r : Restoring := { m }
  let r := r.checkName.resetMaps
  let r := r.failIf (decide (maxTags < m.tags.length)) .tooManyTags
  let r := { r with m := { r.m with tagsDraft := Restoring.nameDraft r.m.tagsDraft } }
  let r := (range m.tagCount).foldl Restoring.restoreTag r
  let r := r.checkPreKey
  let r := (range m.tagCount).foldl Restoring.indexTag r
  let r := r.restoreStringTop.restoreNumbers
  let r := (r.restoreBuckets parseFloat32).restoreGroup.restoreFairKeys
  (r.m, r.err)

end MetricMeta
