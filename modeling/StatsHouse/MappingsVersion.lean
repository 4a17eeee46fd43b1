import StatsHouse.MappingsRestart
import StatsHouse.SortedReplica

/-!
# The version of the mapping storage

The version is not stored. It is the smallest, over the shards, of the largest number that a
chunk ends with. Each shard holds the first mappings of its part of the table that the
deliveries come from, so no mapping of the table up to the version is missing, whatever was
saved of each shard and wherever its file was cut.
-/

namespace Mappings

open ChunkedStorage SortedReplica List Function Or Table

variable {c : Config} {T : List Mapping} {v : Int} {groups : List (List Mapping)}
  {batch : List Mapping} {m : Mapping} {s : MappingsStorage} {i : ℕ}

lemma Table.setAll_concat (t : Table) (ms : List Mapping) (m : Mapping) (str : List UInt8) :
    t.setAll (ms ++ [m]) str = if str = m.str then some m.value else t.setAll ms str := by
  rw [setAll_append]
  exact update_apply _ _ _ _

lemma Table.setAll_of_notMem {t : Table} {ms : List Mapping} {str : List UInt8}
    (h : ∀ m ∈ ms, m.str ≠ str) : t.setAll ms str = t str := by
  induction ms using reverseRecOn with
  | nil => rfl
  | append_singleton ms m ih =>
    have hne := (h m (by simp)).symm
    rw [setAll_concat, if_neg hne]
    exact ih fun x hx => h x (mem_append_left _ hx)

lemma Table.setAll_of_mem {t : Table} {ms : List Mapping} (hm : m ∈ ms)
    (once : ∀ m' ∈ ms, m'.str = m.str → m' = m) : t.setAll ms m.str = some m.value := by
  induction ms using reverseRecOn with
  | nil => cases hm
  | append_singleton ms x ih =>
    rw [setAll_concat]
    split_ifs with hs
    · rw [once x (by simp) hs.symm]
    · have he : m ∈ ms := by
        obtain hm | hm := mem_append.1 hm
        · exact hm
        · exact absurd (congrArg Mapping.str (mem_singleton.1 hm)) hs
      exact ih he fun m' hm' => once m' (mem_append_left _ hm')

lemma versionAfter_mem (filled : ∀ g ∈ groups, g ≠ []) (v : Int) :
    versionAfter v groups = v ∨ ∃ m ∈ groups.flatten, m.id = versionAfter v groups := by
  induction groups generalizing v with
  | nil => exact inl rfl
  | cons g groups ih =>
    have hs : versionAfter v (g :: groups) = versionAfter (max v (lastValue g)) groups := rfl
    rw [hs]
    obtain hb | ⟨m, hm, hi⟩ := ih (fun x hx => filled x (mem_cons_of_mem g hx))
      (max v (lastValue g))
    · rw [hb]
      obtain ha | ha := max_choice v (lastValue g)
      · exact inl ha
      · have hl := getLast?_eq_some_getLast (filled g (.head _))
        refine inr ⟨g.getLast (filled g (.head _)), ?_, ?_⟩
        · rw [flatten_cons]
          exact mem_append_left _ (getLast_mem _)
        · rw [ha, lastValue, hl]
          rfl
    · refine inr ⟨m, ?_, hi⟩
      exact mem_append_right _ hm

/-- What the metadata service hands out: numbers that grow and are not negative, each for a
string of its own that fits in a chunk. -/
structure IsTable (T : List Mapping) : Prop where
  sorted : T.Pairwise (·.id < ·.id)
  nonneg : ∀ m ∈ T, 0 ≤ m.id
  strings : ∀ m ∈ T, ∀ m' ∈ T, m'.str = m.str → m' = m
  small : ∀ m ∈ T, m.Small

/-- The part of the table that belongs to a shard. -/
def Config.part (c : Config) (T : List Mapping) (i : ℕ) : List Mapping :=
  T.filter fun m => c.shardOf m.str = i

lemma IsTable.id_inj (h : IsTable T) {m' : Mapping} (hm : m ∈ T) (hm' : m' ∈ T)
    (heq : m'.id = m.id) :
    m' = m := by
  have hp : T.Pairwise fun x y => x.id = y.id → x = y :=
    h.sorted.imp fun hlt heq => absurd heq hlt.ne
  have hf : T.Pairwise (flip fun x y => x.id = y.id → x = y) :=
    h.sorted.imp fun hlt heq => absurd heq hlt.ne'
  exact List.Pairwise.forall_of_forall_of_flip (fun _ _ _ => rfl) hp hf hm' hm heq

/-- The shard holds the first mappings of its part, at least up to the version. -/
structure Replica (c : Config) (T : List Mapping) (i : ℕ) (v : Int) (s : Shard)
    (groups : List (List Mapping)) : Prop extends Recorded c s groups where
  initial : Initial Mapping.id (c.part T i) (groups.flatten ++ s.pendingPairs)
  covers : Covers Mapping.id (c.part T i) (groups.flatten ++ s.pendingPairs) v

lemma Replica.value (hT : IsTable T) {s : Shard} (h : Replica c T i v s groups)
    (hm : m ∈ groups.flatten ++ s.pendingPairs) : s.mappings m.str = some m.value := by
  rw [h.mappings_eq]
  apply setAll_of_mem hm
  intro m' hm' hs
  exact hT.strings m (mem_of_mem_filter (h.initial.mem m hm)) m'
    (mem_of_mem_filter (h.initial.mem m' hm')) hs

lemma Replica.no_value (hT : IsTable T) {s : Shard} (h : Replica c T i v s groups) (hmT : m ∈ T)
    (hm : m ∉ groups.flatten ++ s.pendingPairs) : s.mappings m.str = none := by
  rw [h.mappings_eq]
  apply setAll_of_notMem
  intro m' hm' hs
  have hm'T := mem_of_mem_filter (h.initial.mem m' hm')
  rw [hT.strings m hmT m' hm'T hs] at hm'
  exact hm hm'

/-- A delivered mapping is there already, or it is the next one. -/
lemma Replica.addValue (hT : IsTable T) {lo hi : Int} {s : Shard} (h : Replica c T i lo s groups)
    (hbatch : Batch Mapping.id (c.part T i) lo hi (m :: batch)) :
    Replica c T i m.id (s.addValue m) groups := by
  have ht := hbatch.mem m (.head _)
  have hmT := mem_of_mem_filter ht
  have hin : ∀ y ∈ c.part T i, y.id = m.id → y = m := fun y hy heq =>
    hT.id_inj hmT (mem_of_mem_filter hy) heq
  by_cases hm : m ∈ groups.flatten ++ s.pendingPairs
  · have hv := h.value hT hm
    have hp : (s.addValue m).pendingPairs = s.pendingPairs := by
      simp [Shard.addValue, hv]
    refine ⟨h.toRecorded.addValue (hT.small m hmT) (inr hv), ?_, ?_⟩
    · rw [hp]
      exact h.initial
    · rw [hp]
      exact hbatch.covers_head h.covers hin (fun _ hy => hy) hm
  · have hv := h.no_value hT hmT hm
    have hp : groups.flatten ++ (s.addValue m).pendingPairs =
        groups.flatten ++ s.pendingPairs ++ [m] := by
      simp [Shard.addValue, hv]
    refine ⟨h.toRecorded.addValue (hT.small m hmT) (inl hv), ?_, ?_⟩
    · rw [hp]
      exact h.initial.snoc hin ht hm (hbatch.below h.covers)
    · rw [hp]
      exact hbatch.covers_head h.covers hin (fun _ hy => mem_append_left _ hy) (by simp)

lemma Replica.addValues (hT : IsTable T) {lo hi : Int} {s : Shard} (h : Replica c T i lo s groups)
    (hbatch : Batch Mapping.id (c.part T i) lo hi batch) :
    Replica c T i hi (batch.foldl Shard.addValue s) groups := by
  induction batch generalizing s lo with
  | nil => exact { h with covers := hbatch.covers_nil h.covers }
  | cons m batch ih => exact ih (h.addValue hT hbatch) hbatch.tail

lemma Replica.save {s : Shard} (h : Replica c T i v s groups) {faults : SaveFaults}
    (unfailed : s.pendingPairs = [] ∨ faults = .none) :
    ∃ more, Replica c T i v (s.save c faults).1 (groups ++ more) := by
  obtain ⟨more, hm, hs⟩ := h.toRecorded.save_of_or unfailed
  have hp : (groups ++ more).flatten ++ (s.save c faults).1.pendingPairs =
      groups.flatten ++ s.pendingPairs := by
    rw [Shard.save_pendingPairs, append_nil, flatten_append, hm]
  refine ⟨more, hs, ?_, ?_⟩
  · rw [hp]
    exact h.initial
  · rw [hp]
    exact h.covers

/-- A restart keeps the first mappings, at least up to the version that it finds. -/
lemma Replica.load_take (hT : IsTable T) {s : Shard} (h : Replica c T i v s groups) (k : ℕ) :
    ∃ kept, Replica c T i (loadShard c (s.client.file.take k)).version
      (loadedShard c (s.client.file.take k)) kept := by
  obtain ⟨j, hl, hv⟩ := h.toRecorded.load_take k
  have hs : groups.flatten ++ s.pendingPairs =
      (groups.take j).flatten ++ ((groups.drop j).flatten ++ s.pendingPairs) := by
    rw [← append_assoc, ← flatten_append, take_append_drop]
  have hit := h.initial
  rw [hs] at hit
  have hp : (groups.take j).flatten ++
      (loadedShard c (s.client.file.take k)).pendingPairs = (groups.take j).flatten :=
    append_nil _
  refine ⟨groups.take j, hl, ?_, ?_⟩
  · rw [hp]
    exact hit.of_append
  · rw [hp, hv]
    obtain hn | ⟨m, hm, hi⟩ := versionAfter_mem (fun g hg => hl.ne_nil hg) (-1)
    · intro x hx hle
      have := hT.nonneg x (mem_of_mem_filter hx)
      omega
    · rw [← hi]
      exact hit.of_append.closed m hm

namespace MappingsStorage

/-- Every shard is a replica up to the version. -/
def Replicates (c : Config) (T : List Mapping) (s : MappingsStorage) : Prop :=
  ∀ i, i < c.shardCount → ∃ groups, Replica c T i s.currentVersion (s.shards i) groups

/-- A delivery is everything of the table from the version up to its own; a save of pending
pairs has no failing write. -/
def FromTable (T : List Mapping) (s : MappingsStorage) : Action → Prop
  | .deliver mappings newCurV _ => Batch Mapping.id T s.currentVersion newCurV mappings
  | .save faults => ∀ i, (s.shards i).pendingPairs = [] ∨ faults i = .none
  | .saveShard i faults => (s.shards i).pendingPairs = [] ∨ faults = .none
  | .restart _ => True

lemma foldl_min_le (f : ℕ → Int) (l : List ℕ) (v : Int) : l.foldl (fun v i => min v (f i)) v ≤ v ∧
      ∀ i ∈ l, l.foldl (fun v i => min v (f i)) v ≤ f i := by
  induction l generalizing v with
  | nil => simp
  | cons x l ih =>
    obtain ⟨hv, hl⟩ := ih (min v (f x))
    refine ⟨hv.trans (min_le_left _ _), ?_⟩
    intro i hi
    obtain rfl | hi := mem_cons.1 hi
    · exact hv.trans (min_le_right _ _)
    · exact hl i hi

lemma load_currentVersion_le (files : ℕ → List UInt8) (hi : i < c.shardCount) :
    (load c files).currentVersion ≤ (loadShard c (files i)).version :=
  (foldl_min_le (fun i => (loadShard c (files i)).version) _ _).2 i (mem_range.2 hi)

lemma Replicates.start (hT : IsTable T) : Replicates c T (start c) := by
  intro i hi
  refine ⟨[], recorded_nil.1, Initial.nil, ?_⟩
  intro x hx hle
  have hv : (MappingsStorage.start c).currentVersion ≤ (loadShard c []).version :=
    load_currentVersion_le _ hi
  have hn := hT.nonneg x (mem_of_mem_filter hx)
  rw [recorded_nil.2] at hv
  omega

lemma Replicates.restart (hT : IsTable T) (h : Replicates c T s) (cut : ℕ → ℕ) :
    Replicates c T (load c fun i => (s.file i).take (cut i)) := by
  intro i hi
  obtain ⟨groups, hg⟩ := h i hi
  obtain ⟨kept, hk⟩ := hg.load_take hT (cut i)
  refine ⟨kept, { hk with covers := ?_ }⟩
  intro x hx hle
  exact hk.covers x hx (hle.trans (load_currentVersion_le _ hi))

lemma Replicates.deliver (hT : IsTable T) (h : Replicates c T s) {newCurV : Int} (newLastV : Int)
    (hbatch : Batch Mapping.id T s.currentVersion newCurV batch) :
    Replicates c T (s.updateMappings c batch newCurV newLastV) := by
  unfold updateMappings
  split_ifs with hn
  · exact h
  · intro i hi
    obtain ⟨groups, hg⟩ := h i hi
    have hp : Batch Mapping.id (c.part T i) s.currentVersion newCurV
        (batch.filter fun m => c.shardOf m.str = i) := hbatch.filter _
    exact ⟨groups, hg.addValues hT hp⟩

lemma Replicates.step (hT : IsTable T) {a : Action} (h : Replicates c T s)
    (fromTable : FromTable T s a) : Replicates c T (s.step c a) := by
  cases a with
  | deliver batch newCurV newLastV => exact h.deliver hT newLastV fromTable
  | save faults =>
    intro i hi
    obtain ⟨groups, hg⟩ := h i hi
    obtain ⟨more, hs⟩ := hg.save (fromTable i)
    exact ⟨groups ++ more, hs⟩
  | saveShard i faults =>
    intro j hj
    obtain ⟨groups, hg⟩ := h j hj
    by_cases hij : j = i
    · subst hij
      obtain ⟨more, hs⟩ := hg.save fromTable
      refine ⟨groups ++ more, ?_⟩
      simp only [MappingsStorage.step, saveShard, setShard, update_self]
      exact hs
    · refine ⟨groups, ?_⟩
      simp only [MappingsStorage.step, saveShard, setShard, update_of_ne hij]
      exact hg
  | restart cut => exact h.restart hT cut

/-- The mappings of all deliveries. -/
def delivered (actions : List Action) : List Mapping := actions.flatMap fun
    | .deliver mappings _ _ => mappings
    | _ => []

lemma mem_table_of_delivered {actions : List Action}
    (fromTable : AllSteps c (FromTable T) s actions) (hm : m ∈ delivered actions) : m ∈ T := by
  induction actions generalizing s with
  | nil => cases hm
  | cons a actions ih =>
    obtain hm | hm := mem_append.1 hm
    · cases a with
      | deliver mappings newCurV newLastV => exact fromTable.1.mem m hm
      | _ => cases hm
    · exact ih fromTable.2 hm

/-- Every delivery hands out the next mappings of one table in which each string has one number.
Between the deliveries shards are saved, all of them or some, and files are cut and loaded.
Then nothing that was delivered, and nothing else of the table, is missing up to the version. -/
theorem version_leaves_no_gap (c : Config) (T : List Mapping) (hT : IsTable T)
    (actions : List Action) (fromTable : AllSteps c (FromTable T) (start c) actions)
    (cut : ℕ → ℕ) :
    let s := (start c).run c actions
    let loaded := load c fun i => (s.file i).take (cut i)
    (∀ m ∈ delivered actions, m.id ≤ loaded.currentVersion →
        loaded.getValue c m.str = some m.value) ∧
      ∀ m ∈ T, m.id ≤ loaded.currentVersion → loaded.getValue c m.str = some m.value := by
  intro s loaded
  have hr : Replicates c T s := fromTable.induction (fun _ _ h hs => h.step hT hs) (.start hT)
  have ht : ∀ m ∈ T, m.id ≤ loaded.currentVersion → loaded.getValue c m.str = some m.value := by
    intro m hm hle
    have hh : c.shardOf m.str < c.shardCount := Nat.mod_lt _ c.shardCount_pos
    obtain ⟨groups, hg⟩ := hr.restart hT cut (c.shardOf m.str) hh
    have hp : m ∈ c.part T (c.shardOf m.str) := mem_filter.2 ⟨hm, decide_eq_true rfl⟩
    exact hg.value hT (hg.covers m hp hle)
  exact ⟨fun m hm => ht m (mem_table_of_delivered fromTable hm), ht⟩

/-- Two shards, chosen by the length of the string. -/
def twoShards : Config := ⟨2, Nat.two_pos, fun s => BitVec.ofNat 64 s.length, lengthHash⟩

def threeMappings : List Mapping := [⟨[97], 1⟩, ⟨[97, 97], 2⟩, ⟨[98], 5⟩]

/-- The first save is interrupted after one of the shards. -/
def interruptedSave : List Action :=
  [.deliver threeMappings 5 9, .saveShard 1 .none, .restart fun _ => 30,
    .deliver [⟨[97], 1⟩, ⟨[97, 97], 2⟩] 4 9, .save fun _ => .none, .deliver [⟨[98], 5⟩] 5 9,
    .save fun _ => .none]

/-- The cut loses the last chunk of the second shard. -/
theorem version_leaves_no_gap_interrupted :
    let s := (start twoShards).run twoShards interruptedSave
    let loaded := load twoShards fun i => (s.file i).take 31
    loaded.currentVersion = 1 ∧ ∀ m ∈ threeMappings, m.id ≤ loaded.currentVersion →
      loaded.getValue twoShards m.str = some m.value :=
  ⟨by decide +kernel, (version_leaves_no_gap twoShards threeMappings
    ⟨by decide, by decide, by decide, by decide +kernel⟩ interruptedSave
    ⟨⟨by decide +kernel, by decide, by decide +kernel, by decide +kernel⟩, inr rfl, trivial,
      ⟨by decide +kernel, by decide, by decide +kernel, by decide +kernel⟩, fun _ => inr rfl,
      ⟨by decide +kernel, by decide, by decide +kernel, by decide +kernel⟩,
      fun _ => inr rfl, trivial⟩ _).2⟩

/-- The string with the number 1 gets the number 3, which is saved nowhere. -/
theorem renumbered_string_leaves_gap :
    let s := (start oneShard).run oneShard [.deliver [⟨[97], 1⟩, ⟨[98], 2⟩] 2 2,
      .save fun _ => .none, .deliver [⟨[97], 3⟩, ⟨[99], 4⟩] 4 4, .save fun _ => .none]
    let loaded := load oneShard s.file
    loaded.currentVersion = 4 ∧ s.getValue oneShard [97] = some 3 ∧
      loaded.getValue oneShard [97] = some 1 := by
  decide +kernel

end MappingsStorage

end Mappings
