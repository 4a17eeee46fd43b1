import StatsHouse.MetadataDB

/-!
# Replay of the binlog

The events of a request, applied by the replay, do to a second database what the request did
to the first. The live path and the replay are written separately, so each kind of request has
its own step lemma; a run follows by induction. Edits that change the name of an entity are the
exception: the replay looks for the new name.
-/

namespace Metadata

variable {db db' replayed : DB} {s : DBV2} {now : Int} {events : List BinlogEvent}
  {response : Response}

/-- The same rows in the tables that a replay restores. -/
structure SameRows (db db' : DB) : Prop where
  metrics : db.metrics = db'.metrics
  entityHistory : db.entityHistory = db'.entityHistory
  mappings : db.mappings = db'.mappings
  property : db.property = db'.property

/-- The clock fits the event, edits keep the name of the entity, and ids of new mappings fit
the event. -/
def Replayable (s : DBV2) (call : Int × Request) : Prop :=
  match call.2 with
  | .saveEntity r => (0 ≤ call.1 ∧ call.1 < 2 ^ 32) ∧
      ∀ row ∈ s.db.metrics.rows, r.isOld row → row.name = r.name
  | .getOrCreateMapping _ _ => s.db.mappingsSeq < 2 ^ 31 - 1 ∧
      ∀ row ∈ s.db.mappings.rows, row.id < 2 ^ 31 - 1
  | _ => True

namespace DB

variable {db db' : DB}

lemma insertHistory_withFlood {e : Event} (h : db.insertHistory e = .ok db')
    (floodLimits : FloodTable) :
    (db.withFlood floodLimits).insertHistory e = .ok (db'.withFlood floodLimits) := by
  simp only [insertHistory] at h ⊢
  split at h
  · next hs =>
    cases h
    rw [if_pos hs]
  · next hs =>
    obtain ⟨entityHistory, hin, h⟩ := bind_eq_ok.1 h
    cases h
    rw [if_neg hs]
    exact bind_eq_ok.2 ⟨entityHistory, hin, rfl⟩

end DB

/-- The replayed database and the one it follows. -/
structure Follows (db replayed : DB) : Prop where
  eq : replayed = db.withFlood replayed.floodLimits
  mappingsSeq_nonneg : 0 ≤ db.mappingsSeq

lemma Follows.sameRows (h : Follows db replayed) : SameRows db replayed := by
  rw [h.eq]
  exact ⟨rfl, rfl, rfl, rfl⟩

section Entities

open DB SaveEntity UniqueTable

variable {db written reported : DB} {r : SaveEntity} {now namespaceID id : Int} {result : Event}

/-- The row read back after a creation is the new one. -/
lemma find?_createEntity (wrote : db.createEntity r now namespaceID = .ok (written, id)) :
    ∃ inserted, db.insertMetric (r.row db now namespaceID id) = .ok written ∧
      db.metrics.insert? (r.row db now namespaceID id) = some inserted ∧
      written = { db with metrics := inserted, metricsSeq := max db.metricsSeq id } ∧
      inserted.rows.find? (fun row => row.id = id) = some (r.row db now namespaceID id) := by
  obtain ⟨newID, -, wrote⟩ := bind_eq_ok.1 wrote
  obtain ⟨written, hin, wrote⟩ := bind_eq_ok.1 wrote
  cases wrote
  obtain ⟨metrics, hm, hn⟩ := bind_eq_ok.1 hin
  have hm := orConstraint_eq_ok.1 hm
  cases hn
  exact ⟨metrics, hin, hm, rfl, find?_insert? hm
    (by simp [SaveEntity.row]) fun row hi => .inl (by simpa [SaveEntity.row] using hi)⟩

/-- The replay of a creation inserts the row that the live path inserted. -/
lemma replay_create (inRange : 0 ≤ now ∧ now < 2 ^ 32)
    (wrote : db.createEntity r now namespaceID = .ok (written, id))
    (hreported : written.reportEntity r now namespaceID id = .ok (reported, result))
    (floodLimits : FloodTable) : (db.withFlood floodLimits).applyCreateEntityEvent result =
      .ok (reported.withFlood floodLimits) := by
  obtain ⟨inserted, hin, -, rfl, hf⟩ := find?_createEntity wrote
  obtain ⟨row, hr, hs, hh⟩ := reportEntity_eq_ok hreported
  cases hf.symm.trans hr
  have heq : ({
      id := result.id
      name := result.name
      namespaceId := result.namespaceId
      version := result.version
      updatedAt := result.updateTime.toNat
      deletedAt := result.unused.toNat
      data := result.data
      type := result.eventType } : MetricsRow) = r.row db now namespaceID id := by
    subst hs
    simp [result, SaveEntity.row, Event.setNamespaceId, Event.setMetadata,
      uint32_toNat inRange.1 inRange.2]
  simp only [applyCreateEntityEvent, heq]
  obtain ⟨_, hm, hn⟩ := bind_eq_ok.1 hin
  cases hn
  exact bind_eq_ok.2 ⟨_, bind_eq_ok.2 ⟨_, hm, rfl⟩, insertHistory_withFlood hh floodLimits⟩

lemma conflict_symm (a b : MetricsRow) (h : a.Conflict b) : b.Conflict a := by
  rcases h with hi | hv | ⟨hn, ht, hm⟩
  · exact .inl hi.symm
  · exact .inr (.inl hv.symm)
  · exact .inr (.inr ⟨hn.symm, ht.symm, hm.symm⟩)

/-- The row read back after an edit is the edited one. -/
lemma find?_updateEntity (wrote : db.updateEntity r now namespaceID = .ok written) :
    ∃ metrics, written = { db with metrics } ∧
      db.metrics.update? r.isOld (r.edit db now namespaceID) = some metrics ∧
      ∃ old ∈ db.metrics.rows, r.isOld old ∧ written.metrics.rows.find? (fun row => row.id = r.id) =
        some (r.edit db now namespaceID old) ∧ old.id = r.id := by
  simp only [updateEntity] at wrote
  split at wrote
  · cases wrote
  · next hold =>
    obtain ⟨metrics, hu, wrote⟩ := bind_eq_ok.1 wrote
    have hu := orConstraint_eq_ok.1 hu
    cases wrote
    refine ⟨metrics, rfl, hu, ?_⟩
    simp only [Bool.not_eq_true', Bool.not_eq_false, List.any_eq_true] at hold
    obtain ⟨old, hm, hi⟩ := hold
    have hd : old.id = r.id := by
      simp only [isOld, decide_eq_true_eq] at hi
      exact hi.2
    have he : r.edit db now namespaceID old ∈ metrics.rows := by
      rw [update?_rows hu]
      exact List.mem_map.2 ⟨old, hm, if_pos hi⟩
    refine ⟨old, hm, hi, ?_, hd⟩
    cases hf : metrics.rows.find? (fun row => decide (row.id = r.id)) with
    | none =>
      have := List.find?_eq_none.1 hf _ he
      simp [edit, hd] at this
    | some row =>
      have hr : row.id = r.id := by simpa using List.find?_some hf
      rw [eq_of_conflict conflict_symm (List.mem_of_find?_eq_some hf) he
        (.inl (hr.trans hd.symm))]

/-- The replay of an edit finds the row when the edit keeps its name. -/
lemma replay_edit (inRange : 0 ≤ now ∧ now < 2 ^ 32)
    (sameName : ∀ row ∈ db.metrics.rows, r.isOld row → row.name = r.name)
    (wrote : db.updateEntity r now namespaceID = .ok written)
    (hreported : written.reportEntity r now namespaceID r.id = .ok (reported, result))
    (floodLimits : FloodTable) :
    (db.withFlood floodLimits).applyEditEntityEvent result r.oldVersion =
      .ok (reported.withFlood floodLimits) := by
  obtain ⟨metrics, rfl, hu, old, -, -, hf, hi⟩ := find?_updateEntity wrote
  obtain ⟨row, hr, hs, hh⟩ := reportEntity_eq_ok hreported
  cases hf.symm.trans hr
  have hp : db.metrics.update?
      (fun row => row.version = r.oldVersion ∧ row.name = result.name ∧ row.id = result.id)
      (fun row => { row with
        version := result.version
        data := result.data
        updatedAt := result.updateTime.toNat
        deletedAt := result.unused.toNat
        namespaceId := result.namespaceId }) = some metrics := by
    rw [← hu]
    apply update?_congr
    intro row hm
    have hk := sameName row hm
    subst hs
    simp only [result, isOld, edit, Event.setNamespaceId,
      Event.setMetadata, decide_eq_true_eq, hi, uint32_natCast_toNat,
      uint32_toNat inRange.1 inRange.2] at hk ⊢
    by_cases hold : row.version = r.oldVersion ∧ row.id = r.id
    · simp [hold, hk hold]
    · have hn : ¬(row.version = r.oldVersion ∧ row.name = r.name ∧ row.id = r.id) :=
        fun h => hold ⟨h.1, h.2.2⟩
      rw [if_neg hold, if_neg hn]
  exact bind_eq_ok.2 ⟨metrics, orConstraint_eq_ok.2 hp, insertHistory_withFlood hh floodLimits⟩

end Entities

lemma le_foldl_max (top : Int) (ids : List Int) : top ≤ ids.foldl max top := by
  induction ids generalizing top with
  | nil => exact le_rfl
  | cons id ids ih => exact (le_max_left top id).trans (ih (max top id))

lemma foldl_max_lt {top bound : Int} {ids : List Int} (small : top < bound)
    (his : ∀ id ∈ ids, id < bound) : ids.foldl max top < bound := by
  induction ids generalizing top with
  | nil => exact small
  | cons id ids ih =>
    exact ih (max_lt small (his id List.mem_cons_self))
      fun id' h => his id' (List.mem_cons_of_mem id h)

@[simp] lemma applyScanEvent_singleton (db : DB) (event : BinlogEvent) :
    db.applyScanEvent [event] = db.applyEvent event := by
  simp [DB.applyScanEvent]

/-- A new id that fits the event is replayed as it is. -/
lemma replay_createMapping (db : DB) {metric key : List UInt8} {pred : BitVec 32} {budget : Int}
    {create : Bool} (nonneg : 0 ≤ db.mappingsSeq) (small : db.mappingsSeq < 2 ^ 31 - 1)
    (his : ∀ row ∈ db.mappings.rows, row.id < 2 ^ 31 - 1)
    (h : db.createMapping metric key pred budget create = .ok (db', response, events))
    (floodLimits : FloodTable) : (∃ floodLimits', (db.withFlood floodLimits).applyScanEvent events =
      .ok (db'.withFlood floodLimits')) ∧ 0 ≤ db'.mappingsSeq := by
  obtain ⟨rowid, hr, h⟩ := bind_eq_ok.1 h
  obtain ⟨inserted, hin, h⟩ := bind_eq_ok.1 h
  cases h
  have hf : (int32 rowid).toInt = rowid := by
    simp only [nextRowid] at hr
    split_ifs at hr
    cases hr
    have hlo := le_foldl_max db.mappingsSeq (db.mappings.rows.map MappingRow.id)
    have hhi : (db.mappings.rows.map MappingRow.id).foldl max db.mappingsSeq < 2 ^ 31 - 1 := by
      refine foldl_max_lt small fun id hi => ?_
      obtain ⟨row, hw, rfl⟩ := List.mem_map.1 hi
      exact his row hw
    exact toInt_int32 (by omega) (by omega)
  obtain ⟨mappings, hm, hn⟩ := bind_eq_ok.1 hin
  cases hn
  constructor
  · simp only [applyScanEvent_singleton, DB.applyEvent, DB.applyCreateMappingEvent, hf]
    exact ⟨_, bind_eq_ok.2 ⟨mappings, hm, rfl⟩⟩
  · exact nonneg.trans (le_max_left _ _)

lemma replay_getOrCreateMapping {opt : Options} {lastCreatedID : BitVec 32}
    {metric key : List UInt8} (nonneg : 0 ≤ db.mappingsSeq) (small : db.mappingsSeq < 2 ^ 31 - 1)
    (his : ∀ row ∈ db.mappings.rows, row.id < 2 ^ 31 - 1)
    (h : db.getOrCreateMapping opt lastCreatedID now metric key = .ok (db', response, events))
    (floodLimits : FloodTable) : (∃ floodLimits', (db.withFlood floodLimits).applyScanEvent events =
      .ok (db'.withFlood floodLimits')) ∧ 0 ≤ db'.mappingsSeq := by
  simp only [DB.getOrCreateMapping] at h
  split at h
  · cases h
    exact ⟨⟨floodLimits, rfl⟩, nonneg⟩
  · split at h
    · split at h
      · cases h
        exact ⟨⟨floodLimits, rfl⟩, nonneg⟩
      · obtain ⟨limits, -, h⟩ := bind_eq_ok.1 h
        exact replay_createMapping (db.withFlood limits) nonneg small his h floodLimits
    · obtain ⟨limits, -, h⟩ := bind_eq_ok.1 h
      exact replay_createMapping (db.withFlood limits) nonneg small his h floodLimits

lemma putMapping_mappingsSeq (nonneg : 0 ≤ db.mappingsSeq) (ks : List (List UInt8))
    (vs : List (BitVec 32)) : 0 ≤ (db.putMapping ks vs).1.mappingsSeq := by
  simp only [DB.putMapping]
  induction ks.zip vs generalizing db with
  | nil => exact nonneg
  | cons kv kvs ih => exact ih (nonneg.trans (le_max_left _ _))

/-- Ids of deleted mappings come from the request, so they fit the event. -/
lemma replay_deleteMappings {ids : List (BitVec 32)} {out : DB × List BinlogEvent}
    (h : db.deleteMappingsByIdBatched ids = .ok out) (floodLimits : FloodTable) :
    (db.withFlood floodLimits).applyScanEvent out.2 = .ok (out.1.withFlood floodLimits) ∧
      out.1.mappingsSeq = db.mappingsSeq := by
  simp only [DB.deleteMappingsByIdBatched] at h
  split_ifs at h
  · cases h
    exact ⟨rfl, rfl⟩
  · cases h
    exact ⟨rfl, rfl⟩
  · cases h
    refine ⟨?_, rfl⟩
    have hf : ((((db.mappings.rows.map MappingRow.id).filter fun id =>
        (ids.map BitVec.toInt).contains id).map int32).map BitVec.toInt) =
          (db.mappings.rows.map MappingRow.id).filter fun id =>
            (ids.map BitVec.toInt).contains id := by
      rw [List.map_map]
      refine List.map_congr_left ?_ |>.trans (List.map_id _)
      intro id hi
      obtain ⟨v, -, rfl⟩ := List.mem_map.1 (List.contains_iff_mem.1 (List.mem_filter.1 hi).2)
      simp
    simp only [applyScanEvent_singleton, DB.applyEvent, hf]
    rfl

section Run

variable {opt : Options}

lemma replay_saveEntity {r : DB.SaveEntity} {out : DB × Event × BinlogEvent}
    (inRange : 0 ≤ now ∧ now < 2 ^ 32)
    (sameName : ∀ row ∈ db.metrics.rows, r.isOld row → row.name = r.name)
    (h : db.saveEntity now r = .ok out) (floodLimits : FloodTable) :
    (db.withFlood floodLimits).applyScanEvent [out.2.2] = .ok (out.1.withFlood floodLimits) ∧
      out.1.mappingsSeq = db.mappingsSeq := by
  have ht := DB.saveEntity_eq_ok h
  obtain ⟨⟨metrics, metricsSeq, entityHistory, ho⟩, -⟩ := ht
  refine ⟨?_, by rw [ho]⟩
  obtain ⟨namespaceID, -, h⟩ := bind_eq_ok.1 h
  obtain ⟨⟨written, id⟩, hw, h⟩ := bind_eq_ok.1 h
  obtain ⟨⟨reported, result⟩, hr, h⟩ := bind_eq_ok.1 h
  cases h
  simp only [DB.writeEntity] at hw
  split at hw
  · next hc =>
    simp only [hc, if_true, applyScanEvent_singleton, DB.applyEvent]
    exact replay_create inRange hw hr floodLimits
  · next hc =>
    obtain ⟨updated, hu, hw⟩ := bind_eq_ok.1 hw
    cases hw
    simp only [hc, applyScanEvent_singleton, DB.applyEvent]
    exact replay_edit inRange sameName hu hr floodLimits

/-- What a request did to the database its events do to the replayed one. -/
lemma replay_step {call : Int × Request} (follows : Follows s.db replayed)
    (replayable : Replayable s call) :
    ∃ replayed', replayed.applyScanEvent (s.step opt call).2 = .ok replayed' ∧
      Follows (s.step opt call).1.db replayed' := by
  obtain ⟨now, request⟩ := call
  have hred := follows.eq
  have hs := follows.mappingsSeq_nonneg
  generalize replayed.floodLimits = floodLimits at hred
  subst hred
  simp only [DBV2.step]
  cases hv : s.serve opt now request with
  | error e => exact ⟨_, rfl, rfl, hs⟩
  | ok out =>
    cases request with
    | saveEntity r =>
      obtain ⟨⟨db, result, event⟩, he, ho⟩ := bind_eq_ok.1 hv
      cases ho
      obtain ⟨hr, hsq'⟩ := replay_saveEntity replayable.1 replayable.2 he floodLimits
      exact ⟨_, hr, rfl, hs.trans hsq'.ge⟩
    | getOrCreateMapping m key =>
      obtain ⟨⟨db, response, events⟩, hgt, ho⟩ := bind_eq_ok.1 hv
      have hd : out.1.db = db ∧ out.2 = events := by
        cases response <;> cases ho <;> exact ⟨rfl, rfl⟩
      obtain ⟨⟨floodLimits', hr⟩, hsq'⟩ :=
        replay_getOrCreateMapping hs replayable.1 replayable.2 hgt floodLimits
      rw [hd.1, hd.2]
      exact ⟨_, hr, rfl, hsq'⟩
    | putMapping ks vs =>
      simp only [DBV2.serve] at hv
      split_ifs at hv
      cases hv
      refine ⟨(s.db.putMapping ks vs).1.withFlood floodLimits, ?_, rfl,
        putMapping_mappingsSeq hs ks vs⟩
      exact (applyScanEvent_singleton _ _).trans
        (congrArg Except.ok (DB.putMapping_withFlood s.db ks vs floodLimits))
    | deleteMappings ids =>
      obtain ⟨⟨db, events⟩, hl, ho⟩ := bind_eq_ok.1 hv
      cases ho
      obtain ⟨hr, hsq'⟩ := replay_deleteMappings hl floodLimits
      exact ⟨_, hr, rfl, hs.trans hsq'.ge⟩
    | resetFlood m limit =>
      cases hv
      refine ⟨s.db.withFlood floodLimits, rfl, ?_, ?_⟩
      all_goals simp only [DB.resetFlood]; split_ifs
      · rfl
      · rfl
      · exact hs
      · exact hs

lemma replay_run {calls : List (Int × Request)} (follows : Follows s.db replayed)
    (hcalls : DBV2.Along opt Replayable s calls) :
    ∃ replayed', replayed.applyScanEvent (s.run opt calls).2 = .ok replayed' ∧
      Follows (s.run opt calls).1.db replayed' := by
  induction calls generalizing s replayed with
  | nil => exact ⟨replayed, rfl, follows⟩
  | cons call calls ih =>
    obtain ⟨mid, hm, follows⟩ := replay_step follows hcalls.1
    obtain ⟨replayed', hr, follows⟩ := ih follows hcalls.2
    refine ⟨replayed', ?_, follows⟩
    simp only [DBV2.run, DB.applyScanEvent, List.foldlM_append]
    exact bind_eq_ok.2 ⟨mid, hm, hr⟩

/-- A replay of the binlog into an empty database restores the tables, on every run whose edits
keep the names of the entities and whose clock and new ids fit the events. -/
theorem replay_reproduces (calls : List (Int × Request))
    (hcalls : DBV2.Along opt Replayable {} calls) :
    ∃ replayed, ({} : DB).applyScanEvent (DBV2.run opt {} calls).2 = .ok replayed ∧
      SameRows (DBV2.run opt {} calls).1.db replayed := by
  have he : Follows ({} : DBV2).db {} := ⟨rfl, le_rfl⟩
  obtain ⟨replayed, hr, hf⟩ := replay_run he hcalls
  exact ⟨replayed, hr, hf.sameRows⟩

end Run

/-- A new metric, and an edit of it under a name. -/
def createThenEdit (name : List UInt8) : List (Int × Request) :=
  let create : DB.SaveEntity := {
    name := [97]
    id := 0
    oldVersion := 0
    newJson := [123, 125]
    createMetric := true
    deleteTime := 0
    typ := metricEvent
    metadata := [] }
  [(1000, .saveEntity create),
    (1001, .saveEntity { create with name, id := 1, oldVersion := 1, createMetric := false })]

lemma hour_pos : (0 : BitVec 32) < 3600 := by decide

/-- The options do not matter for entities. -/
def someOptions : Options where
  maxBudget := 1000
  stepSec := 3600
  budgetBonus := 10
  globalBudget := 1000000
  stepSec_pos := hour_pos

theorem replay_reproduces_edit : (DBV2.run someOptions {} (createThenEdit [97])).2.length = 2 ∧
    ∃ replayed, ({} : DB).applyScanEvent (DBV2.run someOptions {} (createThenEdit [97])).2 =
        .ok replayed ∧
      SameRows (DBV2.run someOptions {} (createThenEdit [97])).1.db replayed := by
  refine ⟨by decide +kernel, replay_reproduces (createThenEdit [97]) ⟨?_, ?_, trivial⟩⟩
  · refine ⟨by decide, ?_⟩
    intro row hr
    cases hr
  · refine ⟨by decide, ?_⟩
    decide +kernel

/-- After a rename the replayed database still has the old row, with the old name and version. -/
theorem replay_misses_rename :
    ((DBV2.run someOptions {} (createThenEdit [98])).1.db.metrics.rows.map fun row =>
      (row.name, row.version)) = [([98], 2)] ∧
    (({} : DB).applyScanEvent (DBV2.run someOptions {} (createThenEdit [98])).2).toOption.map
      (fun db => db.metrics.rows.map fun row => (row.name, row.version)) = some [([97], 1)] := by
  decide +kernel

end Metadata
