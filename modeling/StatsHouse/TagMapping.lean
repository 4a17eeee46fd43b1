import StatsHouse.MetricMeta
import StatsHouse.ItemValue

/-!
# Mapping the tags of an event

An agent looks up each tag of an event in the metric description and writes its value into
the arrays of the header. A raw 64-bit value takes two places, its own and the next one. An
index outside the arrays is a panic, here `none`.

Normalisation of strings, hex output and the cache of mappings are parameters.
-/

namespace TagMapping

open MetricMeta Function

def tagIDShift : Int := 100

def statusTagValueEncoding : Int := 39

def statusTagNameEncoding : Int := 49

def statusTagValueCorrupted : Int := 63

structure MappedMetricHeader where
  metricMeta : MetricMetaValue
  tags : Fin maxTags → BitVec 32 := fun _ => 0
  sTags : Fin maxTags → List UInt8 := fun _ => []
  hostTag : TagUnion := {}
  originalTagValues : Fin maxTags → List UInt8 := fun _ => []
  isTagSet : Fin maxTags → Bool := fun _ => false
  isHKeySet : Bool := false
  ingestionStatus : Int := 0
  invalidString : List UInt8 := []
  ingestionTagKey : Int := 0
  notFoundTagName : List UInt8 := []
  foundDraftTagName : List UInt8 := []
  tagSetTwiceKey : Int := 0
  legacyCanonicalTagKey : Int := 0
  invalidRawValue : List UInt8 := []
  invalidRawTagKey : Int := 0

/-- An index into one of the arrays. -/
def arrayIndex (i : Int) : Option (Fin maxTags) :=
  if h : 0 ≤ i ∧ i.toNat < maxTags then some ⟨i.toNat, h.2⟩ else none

namespace MappedMetricHeader

def setTag (h : MappedMetricHeader) (index : Int) (value : TagUnion) (tagIDKey : Int) :
    Option MappedMetricHeader :=
  if index = hostTagIndex then
    some { h with
      hostTag := value
      tagSetTwiceKey := if h.isHKeySet then tagIDKey else h.tagSetTwiceKey
      isHKeySet := true }
  else do
    let k ← arrayIndex index
    some { h with
      tags := update h.tags k value.i
      sTags := update h.sTags k value.s
      tagSetTwiceKey := if h.isTagSet k then tagIDKey else h.tagSetTwiceKey
      isTagSet := update h.isTagSet k true }

def setInvalidString (h : MappedMetricHeader) (ingestionStatus tagIDKey : Int)
    (invalidString : List UInt8) : MappedMetricHeader :=
  { h with ingestionStatus, ingestionTagKey := tagIDKey, invalidString }

def setOriginalTagValue (h : MappedMetricHeader) (index : Int) (value : List UInt8) :
    Option MappedMetricHeader := do
  let k ← arrayIndex index
  some { h with originalTagValues := update h.originalTagValues k value }

end MappedMetricHeader

/-- The digits of the numbers of `go4.org/mem`, which calls `strconv`; what is read here is what
these accept, without their errors. -/
def decimal (s : List UInt8) : Option Nat :=
  if s ≠ [] ∧ s.all isDigit then some (s.foldl (fun n c => n * 10 + (c - 48).toNat) 0) else none

def parseUint64 (s : List UInt8) : Option (BitVec 64) :=
  match decimal s with
  | some n => if n < 2 ^ 64 then some (BitVec.ofNat 64 n) else none
  | none => none

def parseInt64 : List UInt8 → Option Int
  | 45 :: s =>
    match decimal s with
    | some n => if n ≤ 2 ^ 63 then some (-n) else none
    | none => none
  | s =>
    match decimal (if s.head? = some 43 then s.tail else s) with
    | some n => if n < 2 ^ 63 then some n else none
    | none => none

def containsRawTagValueBytes (s : List UInt8) : Option (BitVec 32) :=
  match parseInt64 s with
  | some i => if -2 ^ 31 ≤ i ∧ i ≤ 2 ^ 32 - 1 then some (BitVec.ofInt 32 i) else none
  | none => none

/-- The low and the high half. -/
def containsRawTagValue64Bytes (s : List UInt8) : Option (BitVec 32 × BitVec 32) :=
  let halves (i : BitVec 64) := (i.setWidth 32, (i >>> 32).setWidth 32)
  if s.head? = some 45 then (parseInt64 s).map fun i => halves (BitVec.ofInt 64 i)
  else (parseUint64 s).map halves

def containsCorruptedBalancerValue : List UInt8 → Bool
  | [] => false
  | c :: s => [0x39, 0x02, 0x58, 0x56].isPrefixOf (c :: s) || containsCorruptedBalancerValue s

/-- What `MapValidateTag` found. -/
inductive Found where
  | tag (ref : TagRef) (tagIDKey : Int) (value : List UInt8)
  /-- Not in the description; the event goes on. -/
  | unknown
  | invalidEvent
deriving Repr, DecidableEq

section Mapping

variable (validString : List UInt8 → Option (List UInt8)) (hexString : List UInt8 → List UInt8)
  (mappings : List UInt8 → Option (BitVec 32))

def mapValidateTag (h : MappedMetricHeader) (key value : List UInt8) :
    Option (Found × MappedMetricHeader) := do
  let (ref, legacyName) ← h.metricMeta.name2TagAgentLookup key
  -- a tag with an index beyond the arrays counts as not found
  match ref.filter fun ref => (h.metricMeta.deref ref).index < maxTags with
  | none =>
    match validString key with
    | none =>
      some (.invalidEvent, h.setInvalidString statusTagNameEncoding 0 (hexString key))
    | some validKey =>
      if (h.metricMeta.tagsDraft.lookup validKey).isSome then
        some (.unknown, { h with foundDraftTagName := validKey })
      else some (.unknown, { h with notFoundTagName := validKey })
  | some ref =>
    let tagIDKey := (h.metricMeta.deref ref).index + tagIDShift
    let h := if legacyName then { h with legacyCanonicalTagKey := tagIDKey } else h
    match validString value with
    | none =>
      some (.invalidEvent, h.setInvalidString statusTagValueEncoding tagIDKey (hexString value))
    | some validValue =>
      if containsCorruptedBalancerValue value then
        some (.invalidEvent, h.setInvalidString statusTagValueCorrupted tagIDKey validValue)
      else some (.tag ref tagIDKey validValue, h)

def mappedValue (value : List UInt8) : TagUnion :=
  match mappings value with
  | some id => { i := id }
  | none => { s := value }

/-- The value goes to its own place. -/
def storeTag (h : MappedMetricHeader) (index : Int) (tagValue : TagUnion) (tagIDKey : Int)
    (value : List UInt8) : Option MappedMetricHeader := do
  let h ← h.setTag index tagValue tagIDKey
  if index ≠ hostTagIndex then h.setOriginalTagValue index value else some h

/-- One turn of the loop, for a tag that was found. -/
def mapTag (h : MappedMetricHeader) (ref : TagRef) (tagIDKey : Int) (value : List UInt8) :
    Option MappedMetricHeader :=
  let tagMeta := h.metricMeta.deref ref
  let invalid := { h with invalidRawValue := value, invalidRawTagKey := tagIDKey }
  if value = [] then storeTag h tagMeta.index {} tagIDKey value
  else if tagMeta.raw64 then
    match containsRawTagValue64Bytes value with
    | none => some invalid
    | some (lo, hi) => do
      let h ← h.setTag (tagMeta.index + 1) { i := hi } (tagIDKey + 1)
      storeTag h tagMeta.index { i := lo } tagIDKey value
  else if tagMeta.rawKind ≠ [] then
    match containsRawTagValueBytes value with
    | none => some invalid
    | some id => storeTag h tagMeta.index { i := id } tagIDKey value
  else storeTag h tagMeta.index (mappedValue mappings value) tagIDKey value

/-- The host of the connection, for an event without one. -/
def mapHost (h : MappedMetricHeader) (host : List UInt8) : Option MappedMetricHeader :=
  if !h.isHKeySet && host != [] then h.setTag hostTagIndex (mappedValue mappings host) 0
  else some h

/-- An invalid tag ends the mapping. -/
def mapAllTags (h : MappedMetricHeader) (host : List UInt8) :
    List (List UInt8 × List UInt8) → Option MappedMetricHeader
  | [] => mapHost mappings h host
  | (key, value) :: rest => do
    match ← mapValidateTag validString hexString h key value with
    | (.invalidEvent, h) => some h
    | (.unknown, h) => mapAllTags h host rest
    | (.tag ref tagIDKey value, h) =>
      mapAllTags (← mapTag mappings h ref tagIDKey value) host rest

end Mapping

end TagMapping
