import Mathlib.Data.List.Induction
import StatsHouse.MetadataReplay

/-!
# The history of the entities

What a row of calls of `SaveEntity` keeps. The condition that finds the row of an edit does not
read its type, and a namespace with a negative id can be renamed by a call that asks to create
it. Calls that do neither keep the type of every entity and the names apart.
-/

namespace Metadata

open List UniqueTable

/-- The row that `insertHistory` writes. -/
def Event.historyRow (e : Event) : HistoryRow where
  entityId := e.id
  name := e.name
  namespaceId := e.namespaceId
  version := e.version
  updatedAt := e.updateTime.toNat
  deletedAt := e.unused.toNat
  data := e.data
  type := e.eventType
  metadata := e.metadata

namespace DB

/-- The database and the events returned so far, after one more call. -/
def save (s : DB × List Event) (call : Int × SaveEntity) : DB × List Event :=
  match s.1.saveEntity call.1 call.2 with
  | .ok (db, result, _) => (db, s.2 ++ [result])
  | .error _ => s

def saves (calls : List (Int × SaveEntity)) : DB × List Event := calls.foldl save ({}, [])

/-- A call that finds an entity to edit gives its type, and does not ask to create a namespace
under another name. -/
def Consistent (db : DB) (r : SaveEntity) : Prop :=
  ∀ row ∈ db.metrics.rows, r.isOld row → ¬r.creates db → row.type = r.typ ∧
    (r.typ = namespaceEvent → r.createMetric → row.name = r.name)

variable {db db' : DB} {events : List Event} {r : SaveEntity} {now namespaceID : Int} {e : Event}
  {b : BinlogEvent} {row : MetricsRow}

/-- What a call that succeeds did. -/
lemma saveEntity_cases (h : db.saveEntity now r = .ok (db', e, b)) : ∃ namespaceID row,
      db.resolveEntity r.name r.id r.oldVersion r.createMetric r.typ = .ok namespaceID ∧
      e = r.result now namespaceID row ∧
      db'.entityHistory.rows = db.entityHistory.rows ++ [e.historyRow] ∧
      (r.creates db ∧ row = r.row db now namespaceID row.id ∧
          db'.metrics.rows = db.metrics.rows ++ [row] ∨
        ¬r.creates db ∧ ∃ old ∈ db.metrics.rows, r.isOld old ∧
          row = r.edit db now namespaceID old ∧ db'.metrics.rows = db.metrics.rows.map fun row =>
            if r.isOld row then r.edit db now namespaceID row else row) := by
  obtain ⟨namespaceID, hs, h⟩ := bind_eq_ok.1 h
  obtain ⟨⟨written, id⟩, hw, h⟩ := bind_eq_ok.1 h
  obtain ⟨⟨reported, result⟩, hp, h⟩ := bind_eq_ok.1 h
  cases h
  obtain ⟨row, hr, rfl, hh⟩ := reportEntity_eq_ok hp
  have ht : (r.result now namespaceID row).isSetMetadata = true := by
    simp [SaveEntity.result, Event.isSetMetadata, Event.setMetadata, Event.setNamespaceId]
  simp only [insertHistory, ht, Bool.not_true, Bool.false_eq_true, if_false] at hh
  obtain ⟨entityHistory, hin, hh⟩ := bind_eq_ok.1 hh
  cases hh
  have ha := insert?_rows (orConstraint_eq_ok.1 hin)
  refine ⟨namespaceID, row, hs, rfl, ?_⟩
  simp only [writeEntity] at hw
  split at hw
  · next hc =>
    obtain ⟨inserted, -, hn, rfl, hf⟩ := find?_createEntity hw
    cases hf.symm.trans hr
    exact ⟨ha, .inl ⟨hc, rfl, insert?_rows hn⟩⟩
  · next hc =>
    obtain ⟨updated, hu, hw⟩ := bind_eq_ok.1 hw
    cases hw
    obtain ⟨metrics, rfl, hm, old, he, hold, hf, -⟩ := find?_updateEntity hu
    cases hf.symm.trans hr
    exact ⟨ha, .inr ⟨hc, old, he, hold, rfl, update?_rows hm⟩⟩

lemma lt_newVersion (h : row ∈ db.metrics.rows) : row.version < db.newVersion := by
  have he := mem_map_of_mem (f := MetricsRow.version) h
  cases hm : (db.metrics.rows.map MetricsRow.version).max? with
  | none => simp [max?_eq_none_iff.1 hm] at he
  | some top =>
    have hle := (max?_eq_some_iff.1 hm).2 _ he
    simp only [newVersion, hm, Option.getD_some]
    omega

/-- Where the name of an entity puts it. -/
def Placed (db : DB) (name : List UInt8) (typ namespaceID : Int) : Prop :=
  if (typ ≠ metricEvent ∧ typ ≠ metricsGroupEvent) ∨ namespaceOf name = [] then namespaceID = 0
  else ∃ row ∈ db.metrics.rows, row.type = namespaceEvent ∧ row.name = namespaceOf name ∧
    row.id = namespaceID

lemma resolveEntity_placed {name : List UInt8} {id oldVersion typ : Int} {create : Bool}
    (h : db.resolveEntity name id oldVersion create typ = .ok namespaceID) :
    db.Placed name typ namespaceID ∧
      (typ = namespaceEvent → create = false → db.loadNamespaceName id oldVersion = .ok name) := by
  obtain ⟨hr, hc⟩ : db.resolveNamespace name typ = .ok namespaceID ∧
      (typ = namespaceEvent → db.checkNamespace name id oldVersion create = .ok ()) := by
    simp only [resolveEntity, bind, Except.bind, pure, Except.pure] at h
    grind
  refine ⟨?_, fun ht ha => ?_⟩
  · simp only [resolveNamespace] at hr
    simp only [Placed]
    grind
  · have hc := hc ht
    simp only [checkNamespace, ha, Bool.not_false, if_true] at hc
    obtain ⟨oldName, hlo, hc⟩ := bind_eq_ok.1 hc
    split at hc
    · cases hc
    · next hne => rw [hlo, not_not.1 hne]

lemma Placed.mono {name : List UInt8} {typ : Int} (h : db.Placed name typ namespaceID)
    (kept : ∀ row ∈ db.metrics.rows, ∃ row' ∈ db'.metrics.rows, row'.id = row.id ∧
      row'.type = row.type ∧ (row.type = namespaceEvent → row'.name = row.name)) :
    db'.Placed name typ namespaceID := by
  simp only [Placed] at h ⊢
  split_ifs at h ⊢
  · exact h
  · obtain ⟨row, hr, ht, hne, hi⟩ := h
    obtain ⟨row', hro', hid', hty', hne'⟩ := kept row hr
    exact ⟨row', hro', hty'.trans ht, (hne' ht).trans hne, hid'.trans hi⟩

/-- The rows of before stay, under their ids and types. -/
lemma saveEntity_keeps (hc : db.Consistent r) (h : db.saveEntity now r = .ok (db', e, b))
    (stored : row ∈ db.metrics.rows) :
    ∃ row' ∈ db'.metrics.rows, row.version ≤ row'.version ∧ row'.id = row.id ∧
      row'.type = row.type ∧ (row.type = namespaceEvent → row'.name = row.name) := by
  obtain ⟨namespaceID, written, hs, -, -, ⟨-, -, hr⟩ | ⟨ha, -, -, -, -, hr⟩⟩ :=
    saveEntity_cases h
  · exact ⟨row, hr ▸ mem_append_left _ stored, le_rfl, rfl, rfl, fun _ => rfl⟩
  by_cases hold : r.isOld row
  · refine ⟨r.edit db now namespaceID row, hr ▸ mem_map.2 ⟨row, stored, if_pos hold⟩,
      (lt_newVersion stored).le, rfl, rfl, fun hn => ?_⟩
    obtain ⟨hy, hne⟩ := hc row stored hold ha
    rw [hy] at hn
    cases ht : r.createMetric with
    | true => exact (hne hn ht).symm
    | false =>
      have hlo := (resolveEntity_placed hs).2 hn ht
      simp only [loadNamespaceName] at hlo
      split at hlo
      · cases hlo
      · next found hf =>
        have hi := find?_some hf
        simp only [SaveEntity.isOld, decide_eq_true_eq] at hi hold
        have heq := eq_of_conflict conflict_symm
          (mem_of_find?_eq_some hf) stored (.inl (hi.2.1.trans hold.2.symm))
        rw [← heq]
        exact (Except.ok.inj hlo).symm
  · exact ⟨row, hr ▸ mem_map.2 ⟨row, stored, if_neg hold⟩, le_rfl, rfl, rfl, fun _ => rfl⟩

/-- A stored row tells the same as an event. -/
structure Agrees (e : Event) (row : MetricsRow) : Prop where
  id : row.id = e.id
  name : row.name = e.name
  version : row.version = e.version
  data : row.data = e.data
  type : row.type = e.eventType

/-- One row is new, and it is the one of the event. -/
lemma saveEntity_writes (hc : db.Consistent r) (h : db.saveEntity now r = .ok (db', e, b)) :
    e.version = db.newVersion ∧ ∃ row ∈ db'.metrics.rows, Agrees e row ∧
      db.Placed row.name row.type row.namespaceId ∧
      ∀ other ∈ db'.metrics.rows, other = row ∨ other ∈ db.metrics.rows := by
  obtain ⟨namespaceID, written, hs, rfl, -, ⟨-, hw, hr⟩ |
    ⟨hb, old, hm, hold, rfl, hr⟩⟩ := saveEntity_cases h
  · have hp := (resolveEntity_placed hs).1
    rw [hr, hw]
    refine ⟨rfl, _, mem_append_right _ (mem_singleton.2 rfl),
      ⟨rfl, rfl, rfl, rfl, rfl⟩, hp, fun other ho => ?_⟩
    exact (mem_append.1 ho).symm.imp_left mem_singleton.1
  · have ht := (hc old hm hold hb).1
    have hp := (resolveEntity_placed hs).1
    rw [hr]
    refine ⟨rfl, _, mem_map.2 ⟨old, hm, if_pos hold⟩, ⟨rfl, rfl, rfl, rfl, ht⟩,
      ht.symm ▸ hp, fun other ho => ?_⟩
    obtain ⟨row, ha, rfl⟩ := mem_map.1 ho
    split_ifs with hh
    · simp only [SaveEntity.isOld, decide_eq_true_eq] at hh hold
      rw [eq_of_conflict conflict_symm ha hm (.inl (hh.2.trans hold.2.symm))]
      exact .inl rfl
    · exact .inr ha

/-- The invariant: the events are the history, each one's entity is stored under its type, and
each row is in the namespace of its name. -/
structure Sound (s : DB × List Event) : Prop where
  history : s.1.entityHistory.rows = s.2.map Event.historyRow
  versions : s.2.Pairwise (·.version < ·.version)
  stored : ∀ e ∈ s.2, ∃ row ∈ s.1.metrics.rows, e.version ≤ row.version ∧ row.id = e.id ∧
    row.type = e.eventType
  placed : ∀ row ∈ s.1.metrics.rows, s.1.Placed row.name row.type row.namespaceId

lemma Sound.save {s : DB × List Event} {call : Int × SaveEntity} (hs : Sound s)
    (hc : s.1.Consistent call.2) : Sound (DB.save s call) := by
  simp only [DB.save]
  split
  · next db' e b hv =>
    obtain ⟨hd, row, hr, hg, hp, he⟩ := saveEntity_writes hc hv
    obtain ⟨-, -, -, -, hh, -⟩ := saveEntity_cases hv
    have hk {row} (h : row ∈ s.1.metrics.rows) := saveEntity_keeps hc hv h
    refine ⟨by simp [hh, hs.history], pairwise_append.2 ⟨hs.versions,
      pairwise_singleton _ _, fun a ha b hb => ?_⟩, fun a ha => ?_, fun other ho => ?_⟩
    · obtain ⟨row, hr, hle, -⟩ := hs.stored a ha
      rw [mem_singleton.1 hb, hd]
      exact hle.trans_lt (lt_newVersion hr)
    · rcases mem_append.1 ha with ha | ha
      · obtain ⟨row, hr, hle, hi, ht⟩ := hs.stored a ha
        obtain ⟨row', hro', hle', hid', hty', -⟩ := hk hr
        exact ⟨row', hro', hle.trans hle', hid'.trans hi, hty'.trans ht⟩
      · rw [mem_singleton.1 ha]
        exact ⟨row, hr, hg.version.ge, hg.id, hg.type⟩
    · have hold : s.1.Placed other.name other.type other.namespaceId := by
        rcases he other ho with rfl | ho
        · exact hp
        · exact hs.placed other ho
      exact hold.mono fun row hr => (hk hr).imp fun _ h => ⟨h.1, h.2.2⟩
  · exact hs

/-- Rows of one type with one name are in one namespace, so the table keeps only one. -/
lemma Sound.eq_of_name {s : DB × List Event} (hs : Sound s) {x y : MetricsRow}
    (hx : x ∈ s.1.metrics.rows) (hy : y ∈ s.1.metrics.rows) (sameType : x.type = y.type)
    (hne : x.name = y.name) : x = y := by
  refine eq_of_conflict conflict_symm hx hy (.inr (.inr ⟨?_, sameType, hne⟩))
  have hp := hs.placed x hx
  have ha := hs.placed y hy
  simp only [Placed, sameType, hne] at hp ha
  split_ifs at hp ha
  · rw [hp, ha]
  · obtain ⟨m, hm, ht, hc, hd⟩ := hp
    obtain ⟨n, hn, hb, he, hi⟩ := ha
    have hz {row} (hr : row ∈ s.1.metrics.rows) (h : row.type = namespaceEvent) :
        row.namespaceId = 0 := by
      simpa [Placed, h, namespaceEvent, metricEvent, metricsGroupEvent] using hs.placed row hr
    have hf : m = n := eq_of_conflict conflict_symm hm hn (.inr (.inr
      ⟨(hz hm ht).trans (hz hn hb).symm, ht.trans hb.symm,
        hc.trans he.symm⟩))
    rw [← hd, ← hi, hf]

/-- Every call of a row gives the type of the entity it edits, and renames no namespace. -/
def AllConsistent (calls : List (Int × SaveEntity)) : Prop :=
  ∀ before call, before ++ [call] <+: calls → (saves before).1.Consistent call.2

lemma sound_saves {calls : List (Int × SaveEntity)} (h : AllConsistent calls) :
    Sound (saves calls) := by
  induction calls using reverseRecOn with
  | nil => exact ⟨rfl, .nil, fun e he => (nomatch he), fun row hr => (nomatch hr)⟩
  | append_singleton calls call ih =>
    rw [saves, foldl_append]
    exact (ih fun before c hb => h before c (hb.trans (prefix_append _ _))).save
      (h calls call prefix_rfl)

theorem saves_keep_entities (calls : List (Int × SaveEntity)) (h : AllConsistent calls) :
    (saves calls).2.Pairwise (·.version < ·.version) ∧
    (saves calls).1.entityHistory.rows = (saves calls).2.map Event.historyRow ∧
    (∀ e ∈ (saves calls).2, ∀ e' ∈ (saves calls).2, e.id = e'.id → e.eventType = e'.eventType) ∧
    (∀ x ∈ (saves calls).1.metrics.rows, ∀ y ∈ (saves calls).1.metrics.rows,
      x.type = y.type → x.name = y.name → x = y) ∧
    ∀ before call, before ++ [call] <+: calls → ∀ db e b,
      (saves before).1.saveEntity call.1 call.2 = .ok (db, e, b) →
      (∃ row ∈ db.metrics.rows, Agrees e row) ∧
      (¬call.2.creates (saves before).1 → ∃ old ∈ (saves before).1.metrics.rows,
        old.id = e.id ∧ old.version = call.2.oldVersion) := by
  have hs := sound_saves h
  refine ⟨hs.versions, hs.history, fun e he e' he' hi => ?_,
    fun x hx y hy => hs.eq_of_name hx hy, fun before call hb db e b hv => ⟨?_, ?_⟩⟩
  · obtain ⟨row, hr, -, hd, ht⟩ := hs.stored e he
    obtain ⟨row', hro', -, hrd', hty'⟩ := hs.stored e' he'
    have heq := eq_of_conflict conflict_symm hr hro'
      (.inl (hd.trans (hi.trans hrd'.symm)))
    rw [← ht, ← hty', heq]
  · obtain ⟨-, row, hr, ha, -⟩ := saveEntity_writes (h before call hb) hv
    exact ⟨row, hr, ha⟩
  · intro hc
    obtain ⟨-, -, -, rfl, -, ⟨hf, -⟩ | ⟨-, old, hold, his, rfl, -⟩⟩ :=
      saveEntity_cases hv
    · exact absurd hf hc
    · simp only [SaveEntity.isOld, decide_eq_true_eq] at his
      exact ⟨old, hold, rfl, his.1⟩

def call (name : List UInt8) (id oldVersion : Int) (createMetric : Bool) (typ : Int) :
    Int × SaveEntity :=
  (1000, {
    name, id, oldVersion, createMetric, typ
    newJson := [123, 125]
    deleteTime := 0
    metadata := [] })

theorem saves_keep_entities_edit :
    let calls := [call [109] 0 0 true metricEvent, call [110] 1 1 false metricEvent]
    AllConsistent calls ∧ (saves calls).2.Pairwise (·.version < ·.version) := by
  have h : AllConsistent [call [109] 0 0 true metricEvent, call [110] 1 1 false metricEvent] := by
    intro before next hb
    rcases before with _ | ⟨first, _ | ⟨second, rest⟩⟩
    · exact fun row hr => nomatch hr
    · obtain ⟨rfl, rfl⟩ : first = _ ∧ next = _ := by simpa using hb
      simp only [Consistent]
      decide +kernel
    · simp at hb
  exact ⟨h, (saves_keep_entities _ h).1⟩

/-- An edit under another type is written to the history under that type. A namespace renamed
by a call that asks to create it leaves its name to a new one, and then two metrics can have
one name. -/
theorem saves_mix_entities :
    ((saves [call [109] 0 0 true metricEvent, call [109] 1 1 false dashboardEvent]).2.map
      fun e => (e.id, e.eventType)) = [(1, metricEvent), (1, dashboardEvent)] ∧
    ((saves [call [97] (-5) 0 true namespaceEvent, call [97, 58, 109] 0 0 true metricEvent,
        call [98] (-5) 1 true namespaceEvent, call [97] 0 0 true namespaceEvent,
        call [120] 0 0 true metricEvent,
        call [97, 58, 109] 3 5 false metricEvent]).1.metrics.rows.map
      fun row => (row.id, row.type, row.name)) =
      [(-5, namespaceEvent, [98]), (1, metricEvent, [97, 58, 109]), (2, namespaceEvent, [97]),
        (3, metricEvent, [97, 58, 109])] := by
  decide +kernel

end DB

end Metadata
