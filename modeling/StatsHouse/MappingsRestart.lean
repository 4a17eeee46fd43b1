import StatsHouse.MappingsFiles

/-!
# Values of strings after a restart

A shard's map holds what its file and its pending pairs hold, as long as a string keeps the
value it got first and no write fails. A saved shard then has the same map after a restart. A
string that is delivered again with another value gets the new value in memory only.
-/

namespace Mappings

open ChunkedStorage List Function Shard

variable {c : Config} {groups : List (List Mapping)} {ms : List Mapping} {s : Shard}

/-- The file holds the given groups, and together with the pending pairs it makes up the map. -/
structure Recorded (c : Config) (s : Shard) (groups : List (List Mapping)) : Prop
    extends Filed c s.client groups where
  mappings_eq : s.mappings = Table.setAll (fun _ => none) (groups.flatten ++ s.pendingPairs)
  pending_small : ∀ m ∈ s.pendingPairs, m.Small

lemma Recorded.save (h : Recorded c s groups) :
    ∃ more, more.flatten = s.pendingPairs ∧ Recorded c (s.save c .none).1 (groups ++ more) := by
  obtain ⟨more, hm, hf⟩ := h.toFiled.save h.pending_small
  refine ⟨more, hm, hf, ?_, ?_⟩
  · rw [save_mappings, save_pendingPairs, append_nil, flatten_append, hm, h.mappings_eq]
  · simp

/-- Nothing is lost by a save that fails with nothing to save. -/
lemma Recorded.save_of_or (h : Recorded c s groups) {faults : SaveFaults}
    (unfailed : s.pendingPairs = [] ∨ faults = .none) :
    ∃ more, more.flatten = s.pendingPairs ∧ Recorded c (s.save c faults).1 (groups ++ more) := by
  obtain hn | rfl := unfailed
  · have ho : (s.save c faults).2 = none := by rw [Shard.save, if_pos hn]
    rw [Shard.save_of_ok ho]
    exact h.save
  · exact h.save

/-- What `load` makes of a shard's file. -/
def loadedShard (c : Config) (file : List UInt8) : Shard :=
  { mappings := (loadShard c file).mappings, pendingPairs := [], client := reloaded c file }

lemma Recorded.load_take (h : Recorded c s groups) (k : ℕ) :
    ∃ j, Recorded c (loadedShard c (s.client.file.take k)) (groups.take j) ∧
      (loadShard c (s.client.file.take k)).version = versionAfter (-1) (groups.take j) := by
  obtain ⟨j, hf, hm, hv⟩ := h.toFiled.load_take k
  refine ⟨j, ⟨hf, ?_, ?_⟩, hv⟩
  · rw [loadedShard, append_nil, hm]
  · simp [loadedShard]

lemma recorded_nil : Recorded c (loadedShard c []) [] ∧ (loadShard c []).version = -1 := by
  have hb : ∀ b ∈ ([] : List (List UInt8)), Readable b := by simp
  have hr : (reopen c.hash128 chunkedMagicAllMappings []).chunks =
      ([] : List (List Mapping)).map (bodyOf Mapping.write) := reopen_fileOf hb
  obtain ⟨hf, hm, hv⟩ := Filed.load (by simp) (by simp) hr
  exact ⟨⟨hf, hm, by simp [loadedShard]⟩, hv⟩

lemma Recorded.addValue (h : Recorded c s groups) {p : Mapping} (small : p.Small)
    (agrees : s.mappings p.str = none ∨ s.mappings p.str = some p.value) :
    Recorded c (s.addValue p) groups := by
  refine ⟨h.toFiled, ?_, ?_⟩
  · obtain hn | hold := agrees
    · simp only [Shard.addValue, if_pos hn]
      rw [← append_assoc, Table.setAll_append, ← h.mappings_eq]
      rfl
    · have hs : s.mappings.set p = s.mappings := by
        rw [Table.set, ← hold, update_eq_self]
      have hne : s.mappings p.str ≠ none := by simp [hold]
      simp only [Shard.addValue, if_neg hne, hs]
      exact h.mappings_eq
  · intro m hm
    simp only [Shard.addValue] at hm
    split_ifs at hm
    · obtain hm | hm := mem_append.1 hm
      · exact h.pending_small m hm
      · rwa [mem_singleton.1 hm]
    · exact h.pending_small m hm

/-- The batch changes no value, and gives each string one value. -/
structure Agrees (t : Table) (ms : List Mapping) : Prop where
  known : ∀ m ∈ ms, t m.str = none ∨ t m.str = some m.value
  once : ∀ m ∈ ms, ∀ m' ∈ ms, m.str = m'.str → m.value = m'.value

lemma Agrees.tail {m : Mapping} (h : Agrees s.mappings (m :: ms)) :
    Agrees (s.addValue m).mappings ms := by
  constructor
  · intro m' hm'
    have hm := mem_cons_of_mem m hm'
    simp only [addValue, Table.set, update_apply]
    split_ifs with hs
    · exact .inr (congrArg some (h.once m (.head _) m' hm hs.symm))
    · exact h.known m' hm
  · intro m₁ h₁ m₂ h₂
    exact h.once m₁ (mem_cons_of_mem m h₁) m₂ (mem_cons_of_mem m h₂)

lemma Recorded.addValues (h : Recorded c s groups) (small : ∀ m ∈ ms, m.Small)
    (agrees : Agrees s.mappings ms) : Recorded c (ms.foldl Shard.addValue s) groups := by
  induction ms generalizing s with
  | nil => exact h
  | cons m ms ih =>
    have had := h.addValue (small m (.head _)) (agrees.known m (.head _))
    exact ih had (fun x hx => small x (mem_cons_of_mem m hx)) agrees.tail

namespace MappingsStorage

variable {s : MappingsStorage}

/-- Each shard's map is its file and its pending pairs. -/
def AllRecorded (c : Config) (s : MappingsStorage) : Prop :=
  ∀ i, ∃ groups, Recorded c (s.shards i) groups

/-- A delivery changes no value, and its pairs fit in a chunk; a save of pending pairs has no
failing write. -/
def KeepsValues (c : Config) (s : MappingsStorage) : Action → Prop
  | .deliver mappings _ _ =>
    Agrees (s.getValue c) mappings ∧ ∀ m ∈ mappings, m.Small
  | .save faults => ∀ i, (s.shards i).pendingPairs = [] ∨ faults i = .none
  | .saveShard i faults => (s.shards i).pendingPairs = [] ∨ faults = .none
  | .restart _ => True

lemma AllRecorded.start : AllRecorded c (start c) := fun _ => ⟨[], recorded_nil.1⟩

lemma AllRecorded.deliver (h : AllRecorded c s) (agrees : Agrees (s.getValue c) ms)
    (small : ∀ m ∈ ms, m.Small) (newCurV newLastV : Int) :
    AllRecorded c (s.updateMappings c ms newCurV newLastV) := by
  unfold updateMappings
  split_ifs with hn
  · exact h
  · intro i
    obtain ⟨groups, hg⟩ := h i
    refine ⟨groups, hg.addValues ?_ ?_⟩
    · intro m hm
      exact small m (mem_of_mem_filter hm)
    · constructor
      · intro m hm
        obtain ⟨he, hs⟩ := mem_filter.1 hm
        have hk := agrees.known m he
        rwa [getValue, of_decide_eq_true hs] at hk
      · intro m hm m' hm'
        exact agrees.once m (mem_of_mem_filter hm) m' (mem_of_mem_filter hm')

lemma AllRecorded.step {a : Action} (h : AllRecorded c s) (keeps : KeepsValues c s a) :
    AllRecorded c (s.step c a) := by
  cases a with
  | deliver ms newCurV newLastV => exact h.deliver keeps.1 keeps.2 newCurV newLastV
  | save faults =>
    intro i
    obtain ⟨groups, hg⟩ := h i
    obtain ⟨more, _, hs⟩ := hg.save_of_or (keeps i)
    exact ⟨_, hs⟩
  | saveShard i faults =>
    intro j
    by_cases hj : j = i
    · subst hj
      obtain ⟨groups, hg⟩ := h j
      obtain ⟨more, _, hs⟩ := hg.save_of_or keeps
      refine ⟨groups ++ more, ?_⟩
      simp only [MappingsStorage.step, saveShard, setShard, update_self]
      exact hs
    · obtain ⟨groups, hg⟩ := h j
      refine ⟨groups, ?_⟩
      simp only [MappingsStorage.step, saveShard, setShard, update_of_ne hj]
      exact hg
  | restart cut =>
    intro i
    obtain ⟨groups, hg⟩ := h i
    obtain ⟨j, hl, _⟩ := hg.load_take (cut i)
    exact ⟨groups.take j, hl⟩

lemma AllRecorded.run {actions : List Action}
    (keeps : AllSteps c (KeepsValues c) (MappingsStorage.start c) actions) :
    AllRecorded c ((MappingsStorage.start c).run c actions) :=
  keeps.induction (fun _ _ h hk => h.step hk) .start

/-- A run of deliveries, saves and restarts, of which no delivery changes a value and no save
of pending pairs has a failing write, then a save that succeeds, then a restart. -/
theorem values_survive_restart (c : Config) (actions : List Action) (faults : ℕ → SaveFaults)
    (keeps : AllSteps c (KeepsValues c) (start c) actions)
    (ok : (((start c).run c actions).save c faults).2 = true) :
    let saved := (((start c).run c actions).save c faults).1
    ∀ str, (load c saved.file).getValue c str = saved.getValue c str := by
  intro saved str
  have hh : c.shardOf str < c.shardCount := Nat.mod_lt _ c.shardCount_pos
  obtain ⟨groups, hg⟩ := AllRecorded.run keeps (c.shardOf str)
  obtain ⟨more, _, hs⟩ := hg.save
  have ho := all_eq_true.1 ok _ (mem_range.2 hh)
  rw [← Shard.save_of_ok (Option.isNone_iff_eq_none.1 ho)] at hs
  obtain ⟨_, hm, _⟩ := Filed.load hs.small hs.readable hs.reads
  have ha := hs.mappings_eq
  rw [save_pendingPairs, append_nil, ← hm] at ha
  exact congrFun ha.symm str

/-- One shard. -/
def oneShard : Config := ⟨1, Nat.one_pos, fun _ => 0, lengthHash⟩

theorem values_survive_restart_twice :
    let saved := (((start oneShard).run oneShard [.deliver [⟨[97], 1⟩, ⟨[98], 2⟩] 2 2,
      .save fun _ => .none, .restart fun _ => 30, .deliver [⟨[97], 1⟩, ⟨[99], 4⟩] 4 4]).save
        oneShard fun _ => .none).1
    ∀ str, (load oneShard saved.file).getValue oneShard str = saved.getValue oneShard str :=
  values_survive_restart oneShard _ _
    ⟨⟨⟨by decide +kernel, by decide +kernel⟩, by decide +kernel⟩, fun _ => .inr rfl, trivial,
      ⟨⟨by decide +kernel, by decide +kernel⟩, by decide +kernel⟩, trivial⟩
    (by decide +kernel)

/-- A string that got another value has its first value again after the restart. -/
theorem changed_value_lost_by_restart :
    let saved := (((start oneShard).run oneShard [.deliver [⟨[97], 1⟩] 1 1,
      .save fun _ => .none, .deliver [⟨[97], 3⟩] 3 3]).save oneShard fun _ => .none)
    saved.2 = true ∧ saved.1.getValue oneShard [97] = some 3 ∧
      (load oneShard saved.1.file).getValue oneShard [97] = some 1 := by
  decide +kernel

end MappingsStorage

end Mappings
