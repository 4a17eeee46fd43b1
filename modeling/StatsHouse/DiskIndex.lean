import StatsHouse.DiskCache

/-!
# The index of known buckets

What the operations of the disk cache do to the index of known buckets and to the last id,
whatever the disk does: nothing here asks for a calm folder or for well-formed files.
-/

namespace DiskCache

namespace DiskCacheShard

variable {s s' : DiskCacheShard}

/-- Nothing the index is made of has changed. -/
def SameIndex (s s' : DiskCacheShard) : Prop :=
  s'.knownBuckets = s.knownBuckets ∧ s'.lastBucketID = s.lastBucketID

lemma SameIndex.trans {s'' : DiskCacheShard} (h : SameIndex s s') (h' : SameIndex s' s'') :
    SameIndex s s'' :=
  ⟨h'.1.trans h.1, h'.2.trans h.2⟩

lemma sameIndex_unrefFileWithRemove (s : DiskCacheShard) (p : Nat) (remove : Bool) :
    SameIndex s (s.unrefFileWithRemove p remove) := by
  simp only [unrefFileWithRemove]
  split_ifs <;> exact ⟨rfl, rfl⟩

lemma sameIndex_rotateWritingFile (s : DiskCacheShard) (now : Now) (n : Nat) :
    SameIndex s (s.rotateWritingFile now n) := by
  simp only [rotateWritingFile]
  split
  · exact ⟨rfl, rfl⟩
  · split_ifs
    · exact sameIndex_unrefFileWithRemove s _ true
    · exact ⟨rfl, rfl⟩

lemma sameIndex_openWritingFile (s : DiskCacheShard) (now : Now) :
    SameIndex s (s.openWritingFile now).2 := by
  simp only [openWritingFile]
  split
  · exact ⟨rfl, rfl⟩
  · split <;> exact ⟨rfl, rfl⟩

lemma sameIndex_writeSecond (s : DiskCacheShard) (now : Now) (second crc : BitVec 32)
    (data : List UInt8) : SameIndex s (s.writeSecond now second crc data).2 := by
  have ho := (sameIndex_rotateWritingFile s now data.length).trans
    (sameIndex_openWritingFile _ now)
  simp only [writeSecond]
  split_ifs
  · exact ⟨rfl, rfl⟩
  · generalize (s.rotateWritingFile now data.length).openWritingFile now = opened at ho ⊢
    obtain ⟨_ | p, s₁⟩ := opened
    · exact ho
    · dsimp only at ho ⊢
      split
      · exact ho.trans (sameIndex_unrefFileWithRemove { s₁ with folder := _ } p true)
      · split
        · exact ho.trans (sameIndex_unrefFileWithRemove { s₁ with folder := _ } p true)
        · exact ho

variable (crc32c : List UInt8 → BitVec 32)

/-- A bucket that was put is the one new known bucket; one that was not leaves the index. -/
lemma putBucket_index (s : DiskCacheShard) (now : Now)
    (time : BitVec 32) (data : List UInt8) :
    (∃ e s', s.putBucket crc32c now time data = (.error e, s') ∧ SameIndex s s') ∨
    ∃ b s', s.putBucket crc32c now time data = (.ok (s.lastBucketID + 1), s') ∧ b.time = time ∧
      s'.knownBuckets = s.knownBuckets.insert (s.lastBucketID + 1) b ∧
      s'.lastBucketID = s.lastBucketID + 1 := by
  have hs := sameIndex_writeSecond s now time (crc32c data) data
  simp only [putBucket]
  generalize s.writeSecond now time (crc32c data) data = written at hs ⊢
  obtain ⟨e | p, s₁⟩ := written
  · exact .inl ⟨e, s₁, rfl, hs⟩
  · obtain ⟨hk, hl⟩ := hs
    dsimp only at hk hl ⊢
    refine .inr ⟨⟨p, (s₁.heap p).size, time, data.length, crc32c data⟩, _,
      Prod.ext (by rw [hl]) rfl, rfl, ?_, ?_⟩
    · simp only [hk, hl]
    · simp only [hl]

lemma eraseBucket_index (s : DiskCacheShard) (id : Int) :
    (s.eraseBucket id).2.lastBucketID = s.lastBucketID ∧
      ∀ i, (s.eraseBucket id).2.knownBuckets.lookup i =
        if i = id then none else s.knownBuckets.lookup i := by
  simp only [eraseBucket]
  split
  · rename_i hn
    refine ⟨rfl, fun i => ?_⟩
    split_ifs with hi
    · exact hi ▸ hn
    · rfl
  · rename_i b hb
    have hs := sameIndex_unrefFileWithRemove
      { s with folder := (s.folder.writeAt (s.heap b.file).name b.pos
        (ByteCodec.putUint32 magicDeletedBucket)).2 } b.file true
    refine ⟨hs.2, fun i => ?_⟩
    simp only [unrefFile, hs.1]
    split_ifs with hi
    · rw [hi, AList.lookup_erase]
    · exact AList.lookup_erase_ne hi

/-- Reading a known bucket of that second fails only together with its erasure. -/
lemma getBucket_index (s : DiskCacheShard) {id : Int}
    {time : BitVec 32} {b : DiskCacheBucket} (known : s.knownBuckets.lookup id = some b)
    (second : b.time = time) :
    (∃ data s', s.getBucket crc32c id time = (.ok data, s') ∧ SameIndex s s') ∨
    ∃ e s', s.getBucket crc32c id time = (.error e, s') ∧ s'.lastBucketID = s.lastBucketID ∧
      ∀ i, s'.knownBuckets.lookup i = if i = id then none else s.knownBuckets.lookup i := by
  simp only [getBucket, known, second, ne_eq, not_true, if_false]
  split
  · rename_i folder _
    obtain ⟨hl, hk⟩ := eraseBucket_index { s with folder := folder } id
    exact .inr ⟨_, _, rfl, hl, hk⟩
  · rename_i data folder _
    split_ifs
    · exact .inl ⟨data, _, rfl, rfl, rfl⟩
    · obtain ⟨hl, hk⟩ := eraseBucket_index { s with folder := folder } id
      exact .inr ⟨_, _, rfl, hl, hk⟩

/-- What the tail reader does to the index by the time a turn ends. -/
def TurnIndex (s : DiskCacheShard) : Turn → Prop
  | .again s' => SameIndex s s'
  | .done time id s' =>
    id = 0 ∧ SameIndex s s' ∨ ∃ b, id = s.lastBucketID + 1 ∧ b.time = time ∧ id ∉ s.knownBuckets ∧
        s'.knownBuckets = s.knownBuckets.insert id b ∧ s'.lastBucketID = id
  | .panicked => s.lastBucketID + 1 ∈ s.knownBuckets

lemma TurnIndex.mono {t : Turn} (same : SameIndex s s') (h : TurnIndex s' t) : TurnIndex s t := by
  obtain ⟨hk, hl⟩ := same
  cases t with
  | again s'' => exact SameIndex.trans ⟨hk, hl⟩ h
  | done time id s'' => simpa only [TurnIndex, SameIndex, hk, hl] using h
  | panicked => simpa only [TurnIndex, hk, hl] using h

lemma sameIndex_unrefTail (s : DiskCacheShard) (p : Nat) : SameIndex s (s.unrefTail p) :=
  sameIndex_unrefFileWithRemove s p true

lemma readTailHeader_index (s : DiskCacheShard) (p : Nat) (h : List UInt8) :
    TurnIndex s (s.readTailHeader p h) := by
  simp only [readTailHeader, knowTail]
  split_ifs with _ _ _ hu
  · exact sameIndex_unrefTail s p
  · exact ⟨rfl, rfl⟩
  · exact sameIndex_unrefTail s p
  · exact hu
  · exact .inr ⟨_, rfl, rfl, hu, rfl, rfl⟩

lemma tailTurn_index (s : DiskCacheShard) : TurnIndex s s.tailTurn := by
  simp only [tailTurn]
  split
  · split
    · exact .inl ⟨rfl, rfl, rfl⟩
    · split <;> exact ⟨rfl, rfl⟩
  · rename_i p _
    split_ifs
    · exact sameIndex_unrefTail s p
    · split
      · rename_i folder _
        exact sameIndex_unrefTail { s with folder := folder } p
      · split
        · rename_i folder _
          exact sameIndex_unrefTail { s with folder := folder } p
        · rename_i h folder _
          have ht := readTailHeader_index { s with folder := folder } p h
          exact ht.mono ⟨rfl, rfl⟩

lemma readNextTailSecond_index (s : DiskCacheShard) :
    (∃ time id s', s.readNextTailSecond = some ((time, id), s') ∧ TurnIndex s (.done time id s')) ∨
    s.readNextTailSecond = none ∧ s.lastBucketID + 1 ∈ s.knownBuckets := by
  induction s using readNextTailSecond.induct with
  | case1 s s' ht ih =>
    have hs := tailTurn_index s
    rw [ht] at hs
    rw [readNextTailSecond_again ht]
    rcases ih with ⟨time, id, s'', hr, hd⟩ | ⟨hr, hu⟩
    · exact .inl ⟨time, id, s'', hr, hd.mono hs⟩
    · exact .inr ⟨hr, TurnIndex.mono (t := .panicked) hs hu⟩
  | case2 s time id s' ht =>
    have hd := tailTurn_index s
    rw [ht] at hd
    exact .inl ⟨time, id, s', readNextTailSecond_done ht, hd⟩
  | case3 s ht =>
    have hu := tailTurn_index s
    rw [ht] at hu
    exact .inr ⟨readNextTailSecond_panicked ht, hu⟩

end DiskCacheShard

end DiskCache
