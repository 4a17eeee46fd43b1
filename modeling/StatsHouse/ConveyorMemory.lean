import StatsHouse.ConveyorCustody

/-!
# The memory of the historic queue

A shard counts the bytes of the buckets in its historic queue. Whatever the goroutines do to a
bucket between taking it out and putting it back, the counter is the number of bytes that the
queue holds, and stays under the shard's part of the limit.
-/

namespace Conveyor

open List Shared

variable {numShards : Nat} {s s' : Shared}

namespace Shared

def queuedBytes (s : Shared) : Nat := (s.historicBucketsToSend.map (·.data.length)).sum

structure Accounted (numShards : Nat) (s : Shared) : Prop where
  size : s.historicBucketsDataSize = s.queuedBytes
  limit : s.historicBucketsDataSize ≤ (maxHistoricBucketsMemorySize / numShards : Nat)

/-- The bucket to be popped is counted. -/
lemma queuedBytes_removeAt (hne : s.historicBucketsToSend ≠ []) :
    let pos := oldestPos s.historicBucketsToSend
    s.queuedBytes = (s.historicBucketsToSend.getD pos default).data.length +
      ((removeAt s.historicBucketsToSend pos).map (·.data.length)).sum := by
  have hp := (removeAt_perm (oldestPos_oldest hne).1).map (·.data.length)
  simpa [queuedBytes] using hp.sum_nat.symm

section

variable (h : s.Accounted numShards)
include h

lemma Accounted.append (cbd : CompressedBucketData) :
    (s.appendHistoricBucketsToSend numShards cbd).Accounted numShards := by
  obtain ⟨hs, hl⟩ := h
  unfold appendHistoricBucketsToSend
  split
  · split
    · exact ⟨hs, hl⟩
    · exact ⟨by simpa [queuedBytes] using hs, hl⟩
  · next ho =>
    constructor
    · simp [queuedBytes, hs]
    · simpa [overMemoryLimit] using ho

/-- A second from disk comes without its data. -/
lemma Accounted.read (taken : s.readHistoricSecondLocked = some s') : s'.Accounted numShards := by
  unfold readHistoricSecondLocked at taken
  split at taken
  · cases taken
    exact h
  · obtain ⟨⟨⟨sec, id⟩, d⟩, -, taken⟩ := Option.bind_eq_some_iff.1 taken
    dsimp only at taken
    split at taken
    · cases taken
      exact ⟨h.size, h.limit⟩
    · cases taken
      exact ⟨by simpa [queuedBytes] using h.size, h.limit⟩

lemma Accounted.pop {nowUnix : BitVec 32} {popped : Option CompressedBucketData}
    (taken : s.popOldestHistoricSecondLocked nowUnix = some (popped, s')) :
    s'.Accounted numShards := by
  simp only [popOldestHistoricSecondLocked] at taken
  split_ifs at taken with hne
  · cases taken
    exact h
  · cases taken
    exact h
  · obtain ⟨s₂, hr, taken⟩ := Option.bind_eq_some_iff.1 taken
    cases taken
    obtain ⟨hs, hl⟩ := h
    have hq := queuedBytes_removeAt hne
    refine Accounted.read ⟨?_, ?_⟩ hr
    · simp only [queuedBytes] at hq hs ⊢
      omega
    · dsimp only
      omega

end

end Shared

/-- The sections under the lock that touch the queue. The eraser pops, and appends the bucket
again later. In between the disk cache may become any other. -/
inductive QueueOp where
  | append (cbd : CompressedBucketData)
  | pop (nowUnix : BitVec 32)
  | read
  | disk (cache : Option DiskCache.DiskCacheShard)

def queueStep (numShards : Nat) (s : Shared) : QueueOp → Option Shared
  | .append cbd => some (s.appendHistoricBucketsToSend numShards cbd)
  | .pop nowUnix => (s.popOldestHistoricSecondLocked nowUnix).map Prod.snd
  | .read => s.readHistoricSecondLocked
  | .disk cache => some { s with diskBucketCache := cache }

lemma queueStep_accounted {op : QueueOp} (h : s.Accounted numShards)
    (taken : queueStep numShards s op = some s') : s'.Accounted numShards := by
  cases op with
  | append cbd =>
    cases taken
    exact h.append cbd
  | pop nowUnix =>
    obtain ⟨⟨popped, _⟩, hp, rfl⟩ := Option.map_eq_some_iff.1 taken
    exact h.pop hp
  | read => exact h.read taken
  | disk cache =>
    cases taken
    exact ⟨h.size, h.limit⟩

lemma queueRun_accounted {ops : List QueueOp} (h : s.Accounted numShards)
    (hrun : ops.foldlM (queueStep numShards) s = some s') : s'.Accounted numShards := by
  induction ops generalizing s with
  | nil =>
    cases hrun
    exact h
  | cons op ops ih =>
    rw [foldlM_cons] at hrun
    obtain ⟨s₁, hs, hr⟩ := Option.bind_eq_some_iff.1 hrun
    exact ih (queueStep_accounted h hs) hr

/-- The counter is right and in its limit, popping finds enough in it, and only a bucket that
is not on disk is dropped. -/
theorem historic_memory {config : Config} {cache : Option DiskCache.DiskCacheShard}
    {ops : List QueueOp} (hrun : ops.foldlM (queueStep numShards)
      { config, diskBucketCache := cache } = some s) :
    s.historicBucketsDataSize = s.queuedBytes ∧
    s.historicBucketsDataSize ≤ (maxHistoricBucketsMemorySize / numShards : Nat) ∧
    (s.historicBucketsToSend ≠ [] → ¬s.historicBucketsDataSize - (s.historicBucketsToSend.getD
      (oldestPos s.historicBucketsToSend) default).data.length < 0) ∧
    ∀ cbd, (s.appendHistoricBucketsToSend numShards cbd).historicBucketsToSend =
      s.historicBucketsToSend → cbd.id = 0 := by
  have h : s.Accounted numShards := queueRun_accounted ⟨rfl, Int.natCast_nonneg _⟩ hrun
  refine ⟨h.size, h.limit, ?_, ?_⟩
  · intro hne
    have hq := queuedBytes_removeAt hne
    have hs := h.size
    dsimp only at hq
    omega
  · intro cbd hc
    by_contra hi
    simp only [appendHistoricBucketsToSend] at hc
    split at hc <;> simp at hc

/-- A bucket is popped and put back without a disk. -/
theorem historic_memory_returned :
    let cbd : CompressedBucketData := ⟨0, 0, 100, [1, 2, 3]⟩
    let s : Shared := {
      config := ⟨1000, 1, true⟩
      diskBucketCache := none
      historicBucketsToSend := [cbd]
      historicBucketsDataSize := 3 }
    [QueueOp.append cbd, .pop 200, .append cbd].foldlM (queueStep 1)
      { config := ⟨1000, 1, true⟩, diskBucketCache := none } = some s ∧
      s.historicBucketsDataSize = s.queuedBytes := by
  intro cbd s
  refine (and_iff_left_of_imp fun hrun => (historic_memory hrun).1).2 ?_
  rfl

end Conveyor
