import Mathlib.Data.Int.Order.Basic
import StatsHouse.TLCodec
import StatsHouse.UniqueTable

/-!
# The metadata database

The tables of the metadata engine, the requests that change them and the events that they
append to the binlog. A request runs in a transaction: one that fails changes nothing and
appends nothing.
-/

namespace Metadata

def uint32 (x : Int) : BitVec 32 := BitVec.ofInt 32 x

/-- Read with `toInt`. -/
def int32 (x : Int) : BitVec 32 := BitVec.ofInt 32 x

def int64 (x : Int) : Int := (BitVec.ofInt 64 x).toInt

lemma uint32_toNat {x : Int} (hlo : 0 ≤ x) (hhi : x < 2 ^ 32) : ((uint32 x).toNat : Int) = x := by
  rw [uint32, BitVec.toNat_ofInt]
  omega

@[simp] lemma uint32_natCast_toNat (x : BitVec 32) : uint32 x.toNat = x := by
  simp [uint32]

@[simp] lemma int32_toInt (x : BitVec 32) : int32 x.toInt = x := BitVec.ofInt_toInt

lemma toInt_int32 {x : Int} (hlo : -2 ^ 31 ≤ x) (hhi : x < 2 ^ 31) : (int32 x).toInt = x := by
  rw [int32, BitVec.toInt_ofInt]
  exact Int.bmod_eq_of_le (by omega) (by omega)

def metricEvent : Int := 0

def dashboardEvent : Int := 1

def metricsGroupEvent : Int := 2


def namespaceEvent : Int := 4

structure Event where
  fieldMask : BitVec 32 := 0
  id : Int
  name : List UInt8
  /-- Bit 0 of the mask. -/
  namespaceId : Int := 0
  eventType : Int
  /-- The time of deletion. -/
  unused : BitVec 32 := 0
  version : Int
  updateTime : BitVec 32
  data : List UInt8
  /-- Bit 1 of the mask. -/
  metadata : List UInt8 := []
deriving Repr, DecidableEq

namespace Event

def setNamespaceId (e : Event) (namespaceId : Int) : Event :=
  { e with namespaceId, fieldMask := e.fieldMask ||| 1 }

def setMetadata (e : Event) (metadata : List UInt8) : Event :=
  { e with metadata, fieldMask := e.fieldMask ||| 2 }

def isSetMetadata (e : Event) : Bool := e.fieldMask &&& 2 != 0

end Event

/-- The payload of the two deprecated events. -/
structure MetricEvent where
  id : Int
  name : List UInt8
  eventType : Int
  unused : BitVec 32
  version : Int
  updateTime : BitVec 32
  data : List UInt8
deriving Repr, DecidableEq

structure Mapping where
  str : List UInt8
  value : BitVec 32
deriving Repr, DecidableEq

inductive BinlogEvent where
  | editMetricEvent (metric : MetricEvent) (oldVersion : Int)
  | createMetricEvent (metric : MetricEvent)
  | editEntityEvent (metric : Event) (oldVersion : Int)
  | createEntityEvent (metric : Event)
  | putMappingEvent (keys : List (List UInt8)) (value : List (BitVec 32))
  | createMappingEvent (id : BitVec 32) (key metric : List UInt8) (updatedAt : BitVec 32)
      (budget : Int) (create : Bool)
  | deleteMappingsEvent (ids : List (BitVec 32))
  | putBootstrapEvent (mappings : List Mapping)
deriving Repr, DecidableEq

/-- A row of `metrics_v5`. -/
structure MetricsRow where
  id : Int
  name : List UInt8
  namespaceId : Int
  version : Int
  updatedAt : Int
  deletedAt : Int
  data : List UInt8
  type : Int
deriving Repr, DecidableEq

def MetricsRow.Conflict (r s : MetricsRow) : Prop := r.id = s.id ∨ r.version = s.version ∨
    (r.namespaceId = s.namespaceId ∧ r.type = s.type ∧ r.name = s.name)

instance : DecidableRel MetricsRow.Conflict := fun r s =>
  inferInstanceAs (Decidable (r.id = s.id ∨ r.version = s.version ∨
    (r.namespaceId = s.namespaceId ∧ r.type = s.type ∧ r.name = s.name)))

/-- A row of `entity_history`. -/
structure HistoryRow where
  entityId : Int
  name : List UInt8
  namespaceId : Int
  version : Int
  updatedAt : Int
  deletedAt : Int
  data : List UInt8
  type : Int
  metadata : List UInt8
deriving Repr, DecidableEq

/-- Also unique is the pair of entity and version, which adds nothing. -/
abbrev HistoryRow.Conflict : HistoryRow → HistoryRow → Prop := UniqueTable.SameKey version

structure MappingRow where
  id : Int
  name : List UInt8
deriving Repr, DecidableEq

def MappingRow.Conflict (r s : MappingRow) : Prop := r.id = s.id ∨ r.name = s.name

instance : DecidableRel MappingRow.Conflict := fun r s =>
  inferInstanceAs (Decidable (r.id = s.id ∨ r.name = s.name))

structure FloodLimit where
  metricName : List UInt8
  lastTimeUpdate : Int
  countFree : Int
deriving Repr, DecidableEq

structure PropertyRow where
  name : List UInt8
  data : List UInt8
deriving Repr, DecidableEq

structure DB where
  metrics : UniqueTable MetricsRow MetricsRow.Conflict := {}
  /-- The largest id handed out so far, as `AUTOINCREMENT` keeps it. -/
  metricsSeq : Int := 0
  entityHistory : UniqueTable HistoryRow HistoryRow.Conflict := {}
  mappings : UniqueTable MappingRow MappingRow.Conflict := {}
  mappingsSeq : Int := 0
  floodLimits : UniqueTable FloodLimit (UniqueTable.SameKey FloodLimit.metricName) := {}
  property : UniqueTable PropertyRow (UniqueTable.SameKey PropertyRow.name) := {}

inductive DBError where
  | namespaceNotExists
  | metricIsExist
  | renameNamespace
  | invalidMetricVersion
  | noNewVersion
  | entityNotFound
  | differentSizes
  | tooManyIds
  /-- From SQLite: a row in the way, or no id left. -/
  | constraint
  | full
deriving Repr, DecidableEq

/-- A statement that the engine may refuse. -/
def orConstraint {α : Type} : Option α → Except DBError α
  | some x => .ok x
  | none => .error .constraint

@[simp] lemma orConstraint_eq_ok {α : Type} {x : Option α} {a : α} :
    orConstraint x = .ok a ↔ x = some a := by
  cases x <;> simp [orConstraint]

lemma bind_eq_ok {α β : Type} {x : Except DBError α} {f : α → Except DBError β} {b : β} :
    (x >>= f) = .ok b ↔ ∃ a, x = .ok a ∧ f a = .ok b := by
  cases x with
  | error e => simp [bind, Except.bind]
  | ok a => simp [bind, Except.bind]

/-- The next id of an `AUTOINCREMENT` column. -/
def nextRowid (seq : Int) (ids : List Int) : Except DBError Int :=
  let top := ids.foldl max seq
  if top < 2 ^ 63 - 1 then .ok (top + 1) else .error .full

namespace DB

/-- The part of a metric name before the separator. -/
def namespaceOf (name : List UInt8) : List UInt8 :=
  if name.contains 58 then name.takeWhile (· != 58) else []

def resolveNamespace (db : DB) (name : List UInt8) (typ : Int) : Except DBError Int :=
  if typ ≠ metricEvent ∧ typ ≠ metricsGroupEvent then .ok 0
  else if namespaceOf name = [] then .ok 0
  else
    match db.metrics.rows.find? fun r => r.type = namespaceEvent ∧ r.name = namespaceOf name with
    | none => .error .namespaceNotExists
    | some r => .ok r.id

def checkCreateEntity (db : DB) (name : List UInt8) (typ : Int) : Except DBError Unit :=
  if db.metrics.rows.any fun r => r.type = typ ∧ r.name = name then .error .metricIsExist
  else .ok ()

def loadNamespaceName (db : DB) (id version : Int) : Except DBError (List UInt8) :=
  match db.metrics.rows.find? fun r =>
    r.type = namespaceEvent ∧ r.id = id ∧ r.version = version with
  | none => .error .namespaceNotExists
  | some r => .ok r.name

def checkNamespace (db : DB) (name : List UInt8) (id oldVersion : Int) (createEntity : Bool) :
    Except DBError Unit := do
  if !createEntity then
    let oldName ← db.loadNamespaceName id oldVersion
    if oldName ≠ name then .error .renameNamespace

def resolveEntity (db : DB) (name : List UInt8) (id oldVersion : Int) (createEntity : Bool)
    (typ : Int) : Except DBError Int := do
  if typ = namespaceEvent then db.checkNamespace name id oldVersion createEntity
  let namespaceID ← db.resolveNamespace name typ
  if createEntity then db.checkCreateEntity name typ
  return namespaceID

/-- `IFNULL(MAX(version), 0) + 1`. -/
def newVersion (db : DB) : Int := ((db.metrics.rows.map MetricsRow.version).max?.getD 0) + 1

def insertHistory (db : DB) (e : Event) : Except DBError DB :=
  if !e.isSetMetadata then .ok db
  else do
    let entityHistory ← orConstraint (db.entityHistory.insert? {
      entityId := e.id
      name := e.name
      namespaceId := e.namespaceId
      version := e.version
      updatedAt := e.updateTime.toNat
      deletedAt := e.unused.toNat
      data := e.data
      type := e.eventType
      metadata := e.metadata })
    return { db with entityHistory }

def insertMetric (db : DB) (row : MetricsRow) : Except DBError DB := do
  let metrics ← orConstraint (db.metrics.insert? row)
  return { db with metrics, metricsSeq := max db.metricsSeq row.id }

structure SaveEntity where
  name : List UInt8
  id : Int
  oldVersion : Int
  newJson : List UInt8
  createMetric : Bool
  deleteTime : BitVec 32
  typ : Int
  metadata : List UInt8

/-- The row of a new entity. -/
def SaveEntity.row (r : SaveEntity) (db : DB) (updatedAt namespaceID id : Int) : MetricsRow where
  id := id
  name := r.name
  namespaceId := namespaceID
  version := db.newVersion
  updatedAt := updatedAt
  deletedAt := r.deleteTime.toNat
  data := r.newJson
  type := r.typ

/-- The row of an entity that was there before. -/
def SaveEntity.edit (r : SaveEntity) (db : DB) (updatedAt namespaceID : Int) (old : MetricsRow) :
    MetricsRow :=
  { old with
    version := db.newVersion
    data := r.newJson
    updatedAt
    name := r.name
    deletedAt := r.deleteTime.toNat
    namespaceId := namespaceID }

def SaveEntity.isOld (r : SaveEntity) (row : MetricsRow) : Bool :=
  row.version = r.oldVersion ∧ row.id = r.id

def updateEntity (db : DB) (r : SaveEntity) (updatedAt namespaceID : Int) : Except DBError DB := do
  if !db.metrics.rows.any r.isOld then .error .invalidMetricVersion
  else
    let metrics ← orConstraint (db.metrics.update? r.isOld (r.edit db updatedAt namespaceID))
    return { db with metrics }

/-- An entity with a negative id that is not there yet. -/
def SaveEntity.createFixed (r : SaveEntity) (db : DB) : Bool :=
  decide (r.id < 0) && !db.metrics.rows.any fun row => row.id = r.id

/-- The request does not decide whether an entity with a negative id is new. -/
def SaveEntity.creates (r : SaveEntity) (db : DB) : Bool :=
  if r.id < 0 then !db.metrics.rows.any fun row => row.id = r.id else r.createMetric

def SaveEntity.newID (r : SaveEntity) (db : DB) : Except DBError Int :=
  if r.createFixed db then .ok r.id else nextRowid db.metricsSeq (db.metrics.rows.map MetricsRow.id)

def createEntity (db : DB) (r : SaveEntity) (updatedAt namespaceID : Int) :
    Except DBError (DB × Int) := do
  let id ← r.newID db
  let db ← db.insertMetric (r.row db updatedAt namespaceID id)
  return (db, id)

def writeEntity (db : DB) (r : SaveEntity) (updatedAt namespaceID : Int) :
    Except DBError (DB × Int) :=
  if r.creates db then db.createEntity r updatedAt namespaceID
  else do
    let db ← db.updateEntity r updatedAt namespaceID
    return (db, r.id)

/-- The event of a saved entity. -/
def SaveEntity.result (r : SaveEntity) (updatedAt namespaceID : Int) (row : MetricsRow) : Event :=
  let result : Event := {
    id := row.id
    version := row.version
    name := r.name
    data := r.newJson
    updateTime := uint32 updatedAt
    unused := uint32 row.deletedAt
    eventType := r.typ }
  (result.setNamespaceId namespaceID).setMetadata r.metadata

/-- The row is read back for the event and the history. -/
def reportEntity (db : DB) (r : SaveEntity) (updatedAt namespaceID id : Int) :
    Except DBError (DB × Event) :=
  match db.metrics.rows.find? fun row => row.id = id with
  | none => .error .entityNotFound
  | some row =>
    if row.version = r.oldVersion then .error .noNewVersion
    else do
      let result := r.result updatedAt namespaceID row
      let db ← db.insertHistory result
      return (db, result)

def saveEntity (db : DB) (updatedAt : Int) (r : SaveEntity) :
    Except DBError (DB × Event × BinlogEvent) := do
  let namespaceID ← db.resolveEntity r.name r.id r.oldVersion r.createMetric r.typ
  let (written, id) ← db.writeEntity r updatedAt namespaceID
  let (reported, result) ← written.reportEntity r updatedAt namespaceID id
  return (reported, result,
    if r.creates db then .createEntityEvent result else .editEntityEvent result r.oldVersion)

variable {db db' : DB} {r : SaveEntity} {updatedAt namespaceID id : Int}

lemma insertHistory_eq_ok {e : Event} (h : db.insertHistory e = .ok db') :
    ∃ entityHistory, db' = { db with entityHistory } := by
  simp only [insertHistory] at h
  split at h
  · cases h
    exact ⟨db.entityHistory, rfl⟩
  · obtain ⟨entityHistory, -, h⟩ := bind_eq_ok.1 h
    cases h
    exact ⟨entityHistory, rfl⟩

lemma writeEntity_eq_ok {out : DB × Int} (h : db.writeEntity r updatedAt namespaceID = .ok out) :
    ∃ metrics metricsSeq, out.1 = { db with metrics, metricsSeq } := by
  simp only [writeEntity] at h
  split at h
  · obtain ⟨id, -, h⟩ := bind_eq_ok.1 h
    obtain ⟨inserted, hin, h⟩ := bind_eq_ok.1 h
    obtain ⟨metrics, -, hm⟩ := bind_eq_ok.1 hin
    cases hm
    cases h
    exact ⟨metrics, _, rfl⟩
  · obtain ⟨updated, hu, h⟩ := bind_eq_ok.1 h
    cases h
    simp only [updateEntity] at hu
    split at hu
    · cases hu
    · obtain ⟨metrics, -, hu⟩ := bind_eq_ok.1 hu
      cases hu
      exact ⟨metrics, db.metricsSeq, rfl⟩

lemma reportEntity_eq_ok {reported : DB} {result : Event}
    (h : db.reportEntity r updatedAt namespaceID id = .ok (reported, result)) :
    ∃ row, db.metrics.rows.find? (fun row => row.id = id) = some row ∧
      result = r.result updatedAt namespaceID row ∧ db.insertHistory result = .ok reported := by
  simp only [reportEntity] at h
  split at h
  · cases h
  · next row hr =>
    split at h
    · cases h
    · obtain ⟨final, hh, h⟩ := bind_eq_ok.1 h
      cases h
      exact ⟨row, hr, rfl, hh⟩

lemma saveEntity_eq_ok {out : DB × Event × BinlogEvent} (h : db.saveEntity updatedAt r = .ok out) :
    (∃ metrics metricsSeq entityHistory, out.1 = { db with metrics, metricsSeq, entityHistory }) ∧
      (out.2.2 = .createEntityEvent out.2.1 ∨ out.2.2 = .editEntityEvent out.2.1 r.oldVersion) := by
  obtain ⟨namespaceID, -, h⟩ := bind_eq_ok.1 h
  obtain ⟨⟨written, id⟩, hw, h⟩ := bind_eq_ok.1 h
  obtain ⟨⟨reported, result⟩, hr, h⟩ := bind_eq_ok.1 h
  cases h
  obtain ⟨metrics, metricsSeq, rfl⟩ := writeEntity_eq_ok hw
  obtain ⟨-, -, -, hh⟩ := reportEntity_eq_ok hr
  obtain ⟨entityHistory, rfl⟩ := insertHistory_eq_ok hh
  refine ⟨⟨metrics, metricsSeq, entityHistory, rfl⟩, ?_⟩
  split_ifs
  · exact .inl rfl
  · exact .inr rfl

end DB

structure Options where
  maxBudget : Int
  stepSec : BitVec 32
  budgetBonus : Int
  globalBudget : Int
  /-- The code divides by the step. -/
  stepSec_pos : 0 < stepSec

def calcBudget (oldBudget expense : Int) (lastTimeUpdate now : BitVec 32) (max bonusToStep : Int)
    (stepSec : BitVec 32) : Int :=
  if oldBudget > max then int64 (oldBudget - expense)
  else
    let res := int64 (oldBudget - expense + ((now - lastTimeUpdate) / stepSec).toNat * bonusToStep)
    if res ≥ max then int64 (max - expense) else res

def roundTime (now : Int) (step : BitVec 32) : BitVec 32 := uint32 now - uint32 now % step

def maxResetLimit : Int := 10000

def maxDeletionSizeLimit : Nat := 1000

inductive Response where
  | mapping (id : BitVec 32)
  | created (id : BitVec 32)
  | floodLimitError
deriving Repr, DecidableEq

namespace DB

def insertMapping (db : DB) (row : MappingRow) : Except DBError DB := do
  let mappings ← orConstraint (db.mappings.insert? row)
  return { db with mappings, mappingsSeq := max db.mappingsSeq row.id }

/-- The budget that is left for a metric after one more mapping, if there is one left. -/
def countToInsert (opt : Options) (lastCreatedID : BitVec 32) (pred : BitVec 32)
    (limit : FloodLimit) : Option Int :=
  if 0 < lastCreatedID.toInt ∧ lastCreatedID.toInt ≤ opt.globalBudget then some opt.maxBudget
  else
    let count := calcBudget limit.countFree 1 (uint32 limit.lastTimeUpdate) pred opt.maxBudget
      opt.budgetBonus opt.stepSec
    if count < 0 then none else some count

/-- The mapping itself, once its budget is written. -/
def createMapping (db : DB) (metricName key : List UInt8) (pred : BitVec 32) (budget : Int)
    (create : Bool) : Except DBError (DB × Response × List BinlogEvent) := do
  let rowid ← nextRowid db.mappingsSeq (db.mappings.rows.map MappingRow.id)
  let db ← db.insertMapping { id := rowid, name := key }
  return (db, .created (int32 rowid),
    [.createMappingEvent (int32 rowid) key metricName pred budget create])

def getOrCreateMapping (db : DB) (opt : Options) (lastCreatedID : BitVec 32) (now : Int)
    (metricName key : List UInt8) : Except DBError (DB × Response × List BinlogEvent) :=
  match db.mappings.rows.find? fun r => r.name = key with
  | some r => .ok (db, .mapping (int32 r.id), [])
  | none =>
    let pred := roundTime now opt.stepSec
    match db.floodLimits.lookup metricName with
    | some limit =>
      match countToInsert opt lastCreatedID pred limit with
      | none => .ok (db, .floodLimitError, [])
      | some count => do
        let floodLimits ← orConstraint
          (db.floodLimits.update? (fun r => r.metricName = metricName) fun r =>
            { r with lastTimeUpdate := pred.toNat, countFree := count })
        { db with floodLimits }.createMapping metricName key pred count false
    | none => do
      let floodLimits ← orConstraint (db.floodLimits.insert?
        { metricName, lastTimeUpdate := pred.toNat, countFree := int64 (opt.maxBudget - 1) })
      { db with floodLimits }.createMapping metricName key pred (int64 (opt.maxBudget - 1)) true

def putMappingRow (db : DB) (row : MappingRow) : DB :=
  { db with mappings := db.mappings.replace row, mappingsSeq := max db.mappingsSeq row.id }

/-- The callers give as many keys as values. -/
def putMapping (db : DB) (ks : List (List UInt8)) (vs : List (BitVec 32)) : DB × List BinlogEvent :=
  ((ks.zip vs).foldl (fun db kv => db.putMappingRow { id := kv.2.toInt, name := kv.1 }) db,
    [.putMappingEvent ks vs])

def deleteMappings (db : DB) (ids : List Int) : DB :=
  { db with mappings := db.mappings.delete fun r => ids.contains r.id }

def deleteMappingsByIdBatched (db : DB) (ids : List (BitVec 32)) :
    Except DBError (DB × List BinlogEvent) :=
  if ids = [] then .ok (db, [])
  else if maxDeletionSizeLimit < ids.length then .error .tooManyIds
  else
    let idsInt64 := ids.map BitVec.toInt
    let presentIds := (db.mappings.rows.map MappingRow.id).filter fun id => idsInt64.contains id
    if presentIds = [] then .ok (db, [])
    else .ok (db.deleteMappings presentIds, [.deleteMappingsEvent (presentIds.map int32)])

/-- `"bootstrap"`. -/
def bootstrapFieldName : List UInt8 := [98, 111, 111, 116, 115, 116, 114, 97, 112]

def mappingBytes (m : Mapping) : List UInt8 := TLCodec.stringWrite m.str ++ TLCodec.natWrite m.value

/-- Only the replay still puts a bootstrap. -/
def applyPutBootstrap (db : DB) (mappings : List Mapping) : DB :=
  let row := { name := bootstrapFieldName, data := TLCodec.vectorWrite mappingBytes mappings }
  { db with property := db.property.replace row }

/-- `"abc2"`: the reported budget is always that of one metric. -/
def reportedMetric : List UInt8 := [97, 98, 99, 50]

def getFreeCount (db : DB) (opt : Options) : Int :=
  match db.floodLimits.lookup reportedMetric with
  | some limit => limit.countFree
  | none => opt.maxBudget

/-- The budgets before and after; the time is not rounded. -/
def resetFlood (db : DB) (opt : Options) (now : Int) (metric : List UInt8) (limit : Int) :
    DB × Int × Int :=
  if limit ≤ 0 then
    ({ db with floodLimits := db.floodLimits.delete fun r => r.metricName = metric },
      db.getFreeCount opt, opt.maxBudget)
  else
    let after := min limit maxResetLimit
    let row := { metricName := metric, lastTimeUpdate := now, countFree := after }
    ({ db with floodLimits := db.floodLimits.replace row }, db.getFreeCount opt, after)

/-- The update looks for the new name and does not set it. -/
def applyEditEntityEvent (db : DB) (e : Event) (oldVersion : Int) : Except DBError DB := do
  let metrics ← orConstraint (db.metrics.update?
    (fun row => row.version = oldVersion ∧ row.name = e.name ∧ row.id = e.id)
    fun row => { row with
      version := e.version
      data := e.data
      updatedAt := e.updateTime.toNat
      deletedAt := e.unused.toNat
      namespaceId := e.namespaceId })
  { db with metrics }.insertHistory e

def applyCreateEntityEvent (db : DB) (e : Event) : Except DBError DB := do
  let db ← db.insertMetric {
    id := e.id
    name := e.name
    namespaceId := e.namespaceId
    version := e.version
    updatedAt := e.updateTime.toNat
    deletedAt := e.unused.toNat
    data := e.data
    type := e.eventType }
  db.insertHistory e

def applyCreateMappingEvent (db : DB) (id : BitVec 32) (key metric : List UInt8)
    (updatedAt : BitVec 32) (budget : Int) : Except DBError DB :=
  let row := { metricName := metric, lastTimeUpdate := updatedAt.toNat, countFree := budget }
  { db with floodLimits := db.floodLimits.replace row }.insertMapping
    { id := id.toInt, name := key }

/-- One turn of the loop. The deprecated events have no namespace and no history; an edit loses
the version it was made on and the time of deletion. -/
def applyEvent (db : DB) : BinlogEvent → Except DBError DB
  | .editMetricEvent metric _ =>
    db.applyEditEntityEvent {
      id := metric.id
      name := metric.name
      eventType := metric.eventType
      version := metric.version
      updateTime := metric.updateTime
      data := metric.data } 0
  | .createMetricEvent metric =>
    db.applyCreateEntityEvent {
      id := metric.id
      name := metric.name
      eventType := metric.eventType
      version := metric.version
      updateTime := metric.updateTime
      data := metric.data
      unused := metric.unused }
  | .editEntityEvent metric oldVersion => db.applyEditEntityEvent metric oldVersion
  | .createEntityEvent metric => db.applyCreateEntityEvent metric
  | .putMappingEvent keys value => .ok (db.putMapping keys value).1
  | .createMappingEvent id key metric updatedAt budget _ =>
    db.applyCreateMappingEvent id key metric updatedAt budget
  | .deleteMappingsEvent ids => .ok (db.deleteMappings (ids.map BitVec.toInt))
  | .putBootstrapEvent mappings => .ok (db.applyPutBootstrap mappings)

def applyScanEvent (db : DB) (events : List BinlogEvent) : Except DBError DB :=
  events.foldlM applyEvent db

end DB

inductive Request where
  | saveEntity (r : DB.SaveEntity)
  | getOrCreateMapping (metricName key : List UInt8)
  | putMapping (ks : List (List UInt8)) (vs : List (BitVec 32))
  | deleteMappings (ids : List (BitVec 32))
  | resetFlood (metric : List UInt8) (limit : Int)

/-- The engine: what is stored, and what is only in memory. -/
structure DBV2 where
  db : DB := {}
  lastMappingIDToInsert : BitVec 32 := 0

namespace DBV2

variable (opt : Options)

/-- The state after a request and the events it appends. -/
def serve (s : DBV2) (now : Int) : Request → Except DBError (DBV2 × List BinlogEvent)
  | .saveEntity r => do
    let (db, _, event) ← s.db.saveEntity now r
    return ({ s with db }, [event])
  | .getOrCreateMapping metricName key => do
    let (db, response, events) ←
      s.db.getOrCreateMapping opt s.lastMappingIDToInsert now metricName key
    match response with
    | .created id => return ({ s with db, lastMappingIDToInsert := id }, events)
    | _ => return ({ s with db }, events)
  | .putMapping ks vs =>
    if ks.length ≠ vs.length then .error .differentSizes
    else
      let (db, events) := s.db.putMapping ks vs
      .ok ({ s with db }, events)
  | .deleteMappings ids => do
    let (db, events) ← s.db.deleteMappingsByIdBatched ids
    return ({ s with db }, events)
  | .resetFlood metric limit => .ok ({ s with db := (s.db.resetFlood opt now metric limit).1 }, [])

/-- A request together with the clock it reads; failed ones leave no trace. -/
def step (s : DBV2) (call : Int × Request) : DBV2 × List BinlogEvent :=
  match s.serve opt call.1 call.2 with
  | .ok out => out
  | .error _ => (s, [])

/-- The state after a row of requests and the binlog they wrote. -/
def run (s : DBV2) : List (Int × Request) → DBV2 × List BinlogEvent
  | [] => (s, [])
  | call :: calls =>
    let (s, events) := s.step opt call
    let (s, more) := s.run calls
    (s, events ++ more)

/-- Each request of a run finds the engine in a state that suits it. -/
def Along (P : DBV2 → Int × Request → Prop) (s : DBV2) : List (Int × Request) → Prop
  | [] => True
  | call :: calls => P s call ∧ Along P (s.step opt call).1 calls

variable {opt}

lemma Along.append {P : DBV2 → Int × Request → Prop} {s : DBV2}
    {calls more : List (Int × Request)} (h : Along opt P s (calls ++ more)) :
    Along opt P s calls ∧ Along opt P (s.run opt calls).1 more := by
  induction calls generalizing s with
  | nil => exact ⟨trivial, h⟩
  | cons call calls ih =>
    obtain ⟨hc, hm⟩ := ih h.2
    exact ⟨⟨h.1, hc⟩, hm⟩

end DBV2

abbrev FloodTable := UniqueTable FloodLimit (UniqueTable.SameKey FloodLimit.metricName)

namespace DB

def withFlood (db : DB) (floodLimits : FloodTable) : DB := { db with floodLimits }

lemma putMapping_withFlood (db : DB) (ks : List (List UInt8)) (vs : List (BitVec 32))
    (floodLimits : FloodTable) : ((db.withFlood floodLimits).putMapping ks vs).1 =
      (db.putMapping ks vs).1.withFlood floodLimits := by
  simp only [putMapping]
  induction ks.zip vs generalizing db with
  | nil => rfl
  | cons kv kvs ih => exact ih (db.putMappingRow { id := kv.2.toInt, name := kv.1 })

end DB

end Metadata
