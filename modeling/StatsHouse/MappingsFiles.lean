import StatsHouse.Mappings

/-!
# What the files of the mapping storage hold

A shard's file holds its pairs in the order in which they were saved. Reading a chunk gives the
pairs of one group back, a cut file gives the first groups, and a save without a failed write
adds the pending pairs as further groups.
-/

namespace Mappings

open ByteCodec TLCodec ChunkedStorage List UInt8
variable {groups : List (List Mapping)}

lemma leNat_take_append {n x : ℕ} (h : x < 256 ^ n) (rest : List UInt8) :
    leNat ((leBytes n x ++ rest).take n) = x := by
  rw [take_left' (length_leBytes n x), leNat_leBytes h]

lemma tl2ParseSize_write {l : ℕ} (hl : l < 2 ^ 63) (rest : List UInt8) :
    tl2ParseSize (tl2WriteSize l ++ rest) = .ok (l, rest) := by
  unfold tl2WriteSize
  split_ifs with hs hm
  · have hb : (ofNat l).toNat = l := by
      simp only [toNat_ofNat', mediumStringMarker] at *
      omega
    simp [tl2ParseSize, hb, hs]
  · have hb : (ofNat mediumStringMarker).toNat = mediumStringMarker := rfl
    have hv : leNat ((leBytes 2 (l - mediumStringMarker) ++ rest).take 2) =
        l - mediumStringMarker := leNat_take_append (by omega) rest
    have hn : ¬(leBytes 2 (l - mediumStringMarker) ++ rest).length < 2 := by
      rw [length_append, length_leBytes]
      omega
    rw [cons_append, tl2ParseSize, if_neg (by rw [hb]; omega), if_pos hb,
      if_neg hn, hv, drop_left' (length_leBytes 2 _),
      Nat.add_sub_of_le (Nat.le_of_not_lt hs)]
  · have hb : (ofNat hugeStringMarker).toNat = hugeStringMarker := rfl
    have hv : leNat ((leBytes 8 l ++ rest).take 8) = l := leNat_take_append (by omega) rest
    have hn : ¬(leBytes 8 l ++ rest).length < 8 := by
      rw [length_append, length_leBytes]
      omega
    rw [cons_append, tl2ParseSize, if_neg (by rw [hb]; decide),
      if_neg (by rw [hb]; decide), if_neg hn, hv, if_neg (by omega),
      drop_left' (length_leBytes 8 _)]

/-- Short enough for a chunk. -/
def Mapping.Small (m : Mapping) : Prop := m.write.length < chunkSize / 2

instance : DecidablePred Mapping.Small := fun m =>
  inferInstanceAs (Decidable (m.write.length < chunkSize / 2))

lemma Mapping.length_write (m : Mapping) :
    m.write.length = (tl2WriteSize m.str.length).length + m.str.length + 4 := by
  rw [write, length_append, length_append, length_putUint32]

lemma Mapping.write_ne_nil (m : Mapping) : m.write ≠ [] := by
  apply ne_nil_of_length_pos
  rw [m.length_write]
  omega

lemma uint32_putUint32_append (v : BitVec 32) (rest : List UInt8) :
    uint32 (putUint32 v ++ rest) = v := by
  have h : uint32 (putUint32 v ++ rest) = uint32 (putUint32 v) := rfl
  rw [h, uint32_putUint32]

lemma readMapping_write {m : Mapping} (hm : m.Small) (rest : List UInt8) :
    readMapping (m.write ++ rest) = .ok (m, rest) := by
  have hn := m.length_write
  have hs : m.write.length < chunkSize / 2 := hm
  have hl : m.str.length < 2 ^ 63 := by
    simp only [chunkSize] at hs
    omega
  have hp : tl2ParseSize (m.write ++ rest) =
      .ok (m.str.length, m.str ++ (putUint32 m.value ++ rest)) := by
    rw [Mapping.write, append_assoc, append_assoc]
    exact tl2ParseSize_write hl _
  simp only [readMapping, hp, length_append, length_putUint32,
    take_left' rfl, drop_left' rfl, uint32_putUint32_append]
  rw [if_neg (by omega), drop_left' (length_putUint32 m.value)]

lemma parseLoop_bodyOf {ms : List Mapping} (small : ∀ m ∈ ms, m.Small) {fuel : ℕ}
    (enough : ms.length ≤ fuel) : parseLoop fuel (bodyOf Mapping.write ms) = (ms, none) := by
  induction ms generalizing fuel with
  | nil => cases fuel <;> simp [parseLoop, bodyOf]
  | cons m ms ih =>
    obtain ⟨fuel, rfl⟩ : ∃ n, fuel = n + 1 := ⟨fuel - 1, by simp at enough; omega⟩
    have hb : bodyOf Mapping.write (m :: ms) = m.write ++ bodyOf Mapping.write ms := rfl
    have hne : m.write ++ bodyOf Mapping.write ms ≠ [] :=
      append_ne_nil_of_left_ne_nil m.write_ne_nil _
    rw [hb, parseLoop, if_neg hne, readMapping_write (small m (.head _))]
    simp only [ih (fun x hx => small x (mem_cons_of_mem m hx)) (Nat.le_of_succ_le_succ enough)]

lemma length_le_bodyOf (ms : List Mapping) : ms.length ≤ (bodyOf Mapping.write ms).length := by
  induction ms with
  | nil => simp
  | cons m ms ih =>
    have hb : bodyOf Mapping.write (m :: ms) = m.write ++ bodyOf Mapping.write ms := rfl
    have hp := length_pos_of_ne_nil m.write_ne_nil
    rw [hb, length_append, length_cons]
    omega

variable {c : Config}

/-- The version after the given groups. -/
def versionAfter (v : Int) (groups : List (List Mapping)) : Int :=
  groups.foldl (fun v g => max v (lastValue g)) v

lemma Table.setAll_append (t : Table) (xs ys : List Mapping) :
    t.setAll (xs ++ ys) = (t.setAll xs).setAll ys :=
  foldl_append

/-- The loop of `load`, when every chunk it reads holds a group of pairs. -/
lemma loadChunks_groups {file : List UInt8} {fuel : ℕ} {l : Loaded}
    (small : ∀ g ∈ groups, ∀ m ∈ g, m.Small)
    (reads : (readChunks c.hash128 chunkedMagicAllMappings file (List.replicate fuel .none)
      l.storage).chunks = groups.map (bodyOf Mapping.write)) :
    (loadChunks c file fuel l).storage = (readChunks c.hash128 chunkedMagicAllMappings file
        (List.replicate fuel .none) l.storage).storage ∧
      (loadChunks c file fuel l).mappings = l.mappings.setAll groups.flatten ∧
      (loadChunks c file fuel l).version = versionAfter l.version groups := by
  induction fuel generalizing l groups with
  | zero =>
    have hn : groups = [] := by simpa [readChunks] using reads
    subst hn
    exact ⟨rfl, rfl, rfl⟩
  | succ fuel ih =>
    rw [replicate_succ, readChunks] at reads ⊢
    rw [loadChunks]
    rcases hx : readNext c.hash128 chunkedMagicAllMappings .none file l.storage with
      ⟨_ | chunk, storage⟩
    · simp only [hx] at reads
      have hn : groups = [] := by simpa using reads
      subst hn
      exact ⟨rfl, rfl, rfl⟩
    · cases chunk with
      | nil =>
        simp only [hx] at reads
        have hn : groups = [] := by simpa using reads
        subst hn
        exact ⟨rfl, rfl, rfl⟩
      | cons b bs =>
        simp only [hx] at reads ⊢
        cases groups with
        | nil => simp at reads
        | cons g groups =>
          obtain ⟨hf, hr⟩ := cons_eq_cons.1 reads
          rw [hf, parseMappingChunkInplace,
            parseLoop_bodyOf (small g (.head _)) (length_le_bodyOf g)]
          obtain ⟨h1, h2, h3⟩ := ih (l := { l with
              storage, mappings := l.mappings.setAll g, version := max l.version (lastValue g) })
            (fun g' hg' => small g' (mem_cons_of_mem g hg')) hr
          refine ⟨h1, ?_, h3⟩
          rw [flatten_cons, Table.setAll_append]
          exact h2

/-- The file of the client reads as the given groups, and its writer goes on behind them. -/
structure Filed (c : Config) (client : Client) (groups : List (List Mapping)) : Prop where
  small : ∀ g ∈ groups, ∀ m ∈ g, m.Small
  readable : ∀ g ∈ groups, Readable (bodyOf Mapping.write g)
  appends : Appends c.hash128 chunkedMagicAllMappings client (groups.map (bodyOf Mapping.write))
  reads : (reopen c.hash128 chunkedMagicAllMappings client.file).chunks =
    groups.map (bodyOf Mapping.write)

lemma Filed.ne_nil {client : Client} (h : Filed c client groups) {g : List Mapping}
    (hg : g ∈ groups) : g ≠ [] := by
  rintro rfl
  exact (h.readable [] hg).1 rfl

/-- The client of a shard after a restart. -/
def reloaded (c : Config) (file : List UInt8) : Client := ⟨(loadShard c file).storage, file, none⟩

/-- Loading a file gives the groups that can be read from it. -/
lemma Filed.load {file : List UInt8} (small : ∀ g ∈ groups, ∀ m ∈ g, m.Small)
    (readable : ∀ g ∈ groups, Readable (bodyOf Mapping.write g))
    (reads : (reopen c.hash128 chunkedMagicAllMappings file).chunks =
      groups.map (bodyOf Mapping.write)) : Filed c (reloaded c file) groups ∧
      (loadShard c file).mappings = Table.setAll (fun _ => none) groups.flatten ∧
      (loadShard c file).version = versionAfter (-1) groups := by
  obtain ⟨hs, hm, hv⟩ := loadChunks_groups (l :=
      { storage := newChunkedStorage2File file, mappings := fun _ => none, version := -1,
        err := false }) small reads
  have ha := reopen_appends c.hash128 chunkedMagicAllMappings file
  rw [reads] at ha
  have hc : reloaded c file =
      ⟨(reopen c.hash128 chunkedMagicAllMappings file).storage, file, none⟩ :=
    congrArg (Client.mk · file none) hs
  rw [← hc] at ha
  exact ⟨⟨small, readable, ha, reads⟩, hm, hv⟩

/-- Loading a file that was cut at any byte gives its first groups. -/
lemma Filed.load_take {client : Client} (h : Filed c client groups) (k : ℕ) :
    ∃ j, Filed c (reloaded c (client.file.take k)) (groups.take j) ∧
      (loadShard c (client.file.take k)).mappings =
        Table.setAll (fun _ => none) (groups.take j).flatten ∧
      (loadShard c (client.file.take k)).version = versionAfter (-1) (groups.take j) := by
  have hc : (reopen c.hash128 chunkedMagicAllMappings (client.file.take k)).chunks <+:
      (reopen c.hash128 chunkedMagicAllMappings client.file).chunks := readAll_take k
  rw [h.reads] at hc
  have hr := prefix_iff_eq_take.1 hc
  rw [← map_take] at hr
  exact ⟨_, Filed.load (fun g hg => h.small g (mem_of_mem_take hg))
    (fun g hg => h.readable g (mem_of_mem_take hg)) hr⟩

/-- A save without a failed write adds the pending pairs. -/
lemma Filed.save {s : Shard} (h : Filed c s.client groups) (small : ∀ m ∈ s.pendingPairs, m.Small) :
    ∃ more, more.flatten = s.pendingPairs ∧ Filed c (s.save c .none).1.client (groups ++ more) := by
  by_cases hp : s.pendingPairs = []
  · refine ⟨[], hp.symm, ?_⟩
    rw [append_nil, Shard.save, if_pos hp]
    exact h
  · obtain ⟨more, hf, _, ho⟩ := bodiesOf_items Mapping.write_ne_nil s.pendingPairs
    have hit : ∀ x ∈ s.pendingPairs.map Mapping.write, x.length < chunkSize / 2 := by
      intro x hx
      obtain ⟨m, hm, rfl⟩ := mem_map.1 hx
      exact small m hm
    have hc : ∀ g ∈ more, Readable (bodyOf Mapping.write g) := by
      intro g hg
      apply readable_bodiesOf hit
      rw [ho]
      exact mem_map_of_mem hg
    have hr : ∀ g ∈ groups ++ more, Readable (bodyOf Mapping.write g) := fun g hg =>
      (mem_append.1 hg).elim (h.readable g) (hc g)
    obtain ⟨_, ha, hl⟩ := saveItems_none h.appends hit 0
    rw [ho, ← map_append] at ha hl
    refine ⟨more, hf, ?_⟩
    rw [Shard.save, if_neg hp]
    refine ⟨?_, hr, ha, ?_⟩
    · intro g hg m hm
      obtain hg | hg := mem_append.1 hg
      · exact h.small g hg m hm
      · exact small m (hf ▸ mem_flatten_of_mem hg hm)
    · have hs : ∀ b ∈ (groups ++ more).map (bodyOf Mapping.write), Readable b := by
        intro b hb
        obtain ⟨g, hg, rfl⟩ := mem_map.1 hb
        exact hr g hg
      simp only [hl]
      exact reopen_fileOf hs

/-- A save that succeeds does what it does without a fault. -/
lemma Shard.save_of_ok {s : Shard} {faults : SaveFaults} (ok : (s.save c faults).2 = none) :
    s.save c faults = s.save c .none := by
  unfold save at ok ⊢
  split_ifs at ok ⊢ with hp
  · rfl
  · rw [saveItems_of_ok ok]

@[simp]
lemma Shard.save_mappings (s : Shard) (faults : SaveFaults) :
    (s.save c faults).1.mappings = s.mappings := by
  unfold save
  split_ifs <;> rfl

@[simp]
lemma Shard.save_pendingPairs (s : Shard) (faults : SaveFaults) :
    (s.save c faults).1.pendingPairs = [] := by
  unfold save
  split_ifs <;> rfl

end Mappings
