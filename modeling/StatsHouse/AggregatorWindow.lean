import StatsHouse.AggregatorBuckets

/-!
# The window of recent buckets

Each of three replicas inserts every third second. The handler rounds the second of a request
up to one of its own and indexes the window with the distance from the oldest bucket, so the
window must hold consecutive seconds; the ticker checks that the buckets of other seconds stay
empty. The seconds are counted in `uint32`: that the window is consecutive modulo `2^32` and
that the index is in range holds for every clock, that time goes forward only away from both
ends of the range.
-/

namespace Aggregator

open List
variable {t : BitVec 32} {s' : State} {f : Bucket → Bucket} {b : ℕ}

namespace Config

variable (c : Config)

lemma remainder_toNat : c.remainder.toNat = c.replicaKey - 1 := by
  have h := c.replicaKey_le
  simp only [remainder, BitVec.toNat_ofNat]
  omega

lemma mod_eq_remainder_iff (t : BitVec 32) :
    t % 3 = c.remainder ↔ t.toNat % 3 = c.replicaKey - 1 := by
  rw [← BitVec.toNat_inj, BitVec.toNat_umod, remainder_toNat]
  rfl

lemma toNat_add_one (t : BitVec 32) : (t + 1).toNat = (t.toNat + 1) % 2 ^ 32 := BitVec.toNat_add t 1

lemma remainder_cases : c.remainder = 0 ∨ c.remainder = 1 ∨ c.remainder = 2 := by
  have hp := c.replicaKey_pos
  have hle := c.replicaKey_le
  have hk : c.replicaKey = 1 ∨ c.replicaKey = 2 ∨ c.replicaKey = 3 := by omega
  rcases hk with hk | hk | hk <;> simp [remainder, hk]

/-- The loop of the source ends, and on a second of this replica. -/
lemma roundedToOurTime_mod (t : BitVec 32) : c.roundedToOurTime t % 3 = c.remainder := by
  by_cases hw : t.toNat + 3 < 2 ^ 32
  · have hp := c.replicaKey_pos
    have hle := c.replicaKey_le
    have h1' : (t + 1).toNat = t.toNat + 1 := by rw [toNat_add_one]; omega
    have h2' : (t + 1 + 1).toNat = t.toNat + 2 := by rw [toNat_add_one, h1']; omega
    simp only [roundedToOurTime, roundUp]
    split_ifs with h0 h1 h2
    · exact h0
    · exact h1
    · exact h2
    · rw [mod_eq_remainder_iff] at *
      omega
  · have hl : t = 4294967293 ∨ t = 4294967294 ∨ t = 4294967295 := by
      simp only [← BitVec.toNat_inj]
      simp only [BitVec.toNat_ofNat, BitVec.ofNat_eq_ofNat]
      omega
    unfold roundedToOurTime
    rcases hl with rfl | rfl | rfl <;>
      rcases c.remainder_cases with hr | hr | hr <;> rw [hr] <;> decide

/-- The distance to the second of this replica, for the index of a keep-alive. -/
lemma roundedToOurTime_sub (t : BitVec 32) : (c.roundedToOurTime t - t).toNat ≤ 3 := by
  simp only [roundedToOurTime, roundUp]
  split_ifs
  · simp
  all_goals
    simp only [BitVec.toNat_sub, toNat_add_one]
    omega

/-- Away from the end of the range the rounded second is the first one of this replica. -/
lemma roundedToOurTime_least (ht : t ≤ c.roundedToOurTime t) :
    ∀ u : ℕ, t.toNat ≤ u → u % 3 = c.replicaKey - 1 → (c.roundedToOurTime t).toNat ≤ u := by
  intro u hu hm
  rw [BitVec.le_def] at ht
  simp only [roundedToOurTime, roundUp] at ht ⊢
  split_ifs at ht ⊢ with h0 h1 h2
  · exact hu
  all_goals
    rw [mod_eq_remainder_iff] at *
    simp only [toNat_add_one] at *
    omega

end Config

namespace State

variable {c : Config} {s : State}

def Consecutive (s : State) : Prop :=
  ∀ i b, s.recentBuckets[i]? = some b → s.time b = s.frontTime + BitVec.ofNat 32 i

/-- Consecutive, and wide enough for the index of a keep-alive. -/
structure Window (s : State) : Prop where
  wide : futureWindow ≤ s.recentBuckets.length
  consecutive : s.Consecutive

lemma frontTime_eq (hb : s.recentBuckets[0]? = some b) : s.frontTime = s.time b := by
  cases hs : s.recentBuckets with
  | nil => simp [hs] at hb
  | cons a rest =>
    have hab : a = b := by simpa [hs] using hb
    simp [frontTime, hs, hab]

lemma time_addBucket_of_lt (hb : b < s.allocated) (historic : Bool) (time : BitVec 32) :
    (s.addBucket historic time).time b = s.time b := by
  simp [State.time, addBucket, Nat.ne_of_lt hb]

/-- A bucket at the end of the window does not change its front. -/
lemma frontTime_addBucket (ho : s.Owned) (hne : s.recentBuckets ≠ []) (time : BitVec 32) :
    (s.addBucket false time).frontTime = s.frontTime := by
  obtain ⟨first, rest, hs⟩ := exists_cons_of_ne_nil hne
  have hf : (s.addBucket false time).recentBuckets[0]? = some first := by
    simp [addBucket, hs]
  rw [frontTime_eq hf, frontTime_eq (by rw [hs]; rfl)]
  exact time_addBucket_of_lt (ho.recent_lt first (hs ▸ (.head _))) false time

namespace Consecutive

variable (h : s.Consecutive)
include h

lemma popReady (now : BitVec 32) (shortWindow : ℕ) : (s.popReady now shortWindow).Consecutive := by
  intro i b hb
  have hs : s.recentBuckets.takeWhile (s.fallsOut now shortWindow) ++
      (s.popReady now shortWindow).recentBuckets = s.recentBuckets :=
    takeWhile_append_dropWhile
  generalize hp : s.recentBuckets.takeWhile (s.fallsOut now shortWindow) = popped at hs
  have ha : ∀ j x, (s.popReady now shortWindow).recentBuckets[j]? = some x →
      s.time x = s.frontTime + BitVec.ofNat 32 popped.length + BitVec.ofNat 32 j := by
    intro j x hx
    have hx' : s.recentBuckets[popped.length + j]? = some x := by
      rw [← hs, getElem?_append_right (Nat.le_add_right _ _), Nat.add_sub_cancel_left]
      exact hx
    rw [h _ x hx', BitVec.ofNat_add, BitVec.add_assoc]
  obtain ⟨first, hf⟩ : ∃ x, (s.popReady now shortWindow).recentBuckets[0]? = some x := by
    have hlt := (List.getElem?_eq_some_iff.1 hb).1
    exact ⟨_, getElem?_eq_getElem (Nat.lt_of_le_of_lt (Nat.zero_le i) hlt)⟩
  have hr : (s.popReady now shortWindow).frontTime =
      s.frontTime + BitVec.ofNat 32 popped.length := by
    rw [frontTime_eq hf]
    exact (ha 0 first hf).trans (BitVec.add_zero _)
  rw [hr]
  exact ha i b hb

/-- A window with one bucket more. -/
lemma addBucket (ho : s.Owned) {time : BitVec 32}
    (ht : s.recentBuckets ≠ [] → time = s.frontTime + BitVec.ofNat 32 s.recentBuckets.length) :
    (s.addBucket false time).Consecutive := by
  have hn : (s.addBucket false time).time s.allocated = time := by
    simp [State.time, State.addBucket, newAggregatorBucket]
  cases hs : s.recentBuckets with
  | nil =>
    intro i b hb
    have ha : i = 0 ∧ b = s.allocated := by
      simpa [State.addBucket, hs, getElem?_singleton, eq_comm] using hb
    obtain ⟨rfl, rfl⟩ := ha
    rw [hn, frontTime_eq hb, hn]
    simp
  | cons first rest =>
    intro i b hb
    rw [frontTime_addBucket ho (by simp [hs])]
    by_cases hi : i < s.recentBuckets.length
    · have hb' : s.recentBuckets[i]? = some b := by
        rw [← hb]
        exact (getElem?_append_left hi).symm
      rw [time_addBucket_of_lt (ho.recent_lt b (mem_of_getElem? hb')) false time]
      exact h i b hb'
    · have hb' : ([s.allocated] : List ℕ)[i - s.recentBuckets.length]? = some b := by
        rw [← hb]
        exact (getElem?_append_right (Nat.le_of_not_lt hi)).symm
      have ha : i - s.recentBuckets.length = 0 ∧ b = s.allocated := by
        simpa [getElem?_singleton, eq_comm] using hb'
      have hi' : i = s.recentBuckets.length := by omega
      rw [ha.2, hn, hi']
      exact ht (by simp [hs])

lemma extendRecent (ho : s.Owned) (missing : ℕ) : (s.extendRecent missing).Consecutive := by
  induction missing generalizing s with
  | zero => exact h
  | succ missing ih =>
    exact ih (h.addBucket ho (fun _ => rfl)) (ho.addBucket false _)

lemma refill (ho : s.Owned) (now : BitVec 32) (shortWindow : ℕ) :
    (s.refill now shortWindow).Consecutive := by
  unfold State.refill
  split
  · next hs => exact h.addBucket ho (fun hne => absurd hs hne)
  · exact h

end Consecutive

lemma length_extendRecent (s : State) (missing : ℕ) :
    (s.extendRecent missing).recentBuckets.length = s.recentBuckets.length + missing := by
  induction missing generalizing s with
  | zero => rfl
  | succ missing ih =>
    rw [extendRecent, ih]
    simp [addBucket]
    omega

lemma Owned.refill (h : s.Owned) (now : BitVec 32) (shortWindow : ℕ) :
    (s.refill now shortWindow).Owned := by
  unfold State.refill
  split
  · exact h.addBucket false _
  · exact h

lemma Consecutive.advanceRecentBuckets (h : s.Consecutive) (ho : s.Owned) (now : BitVec 32)
    (shortWindow : ℕ) : (s.advanceRecentBuckets now shortWindow).Window := by
  have hp := ho.popReady now shortWindow
  constructor
  · simp only [State.advanceRecentBuckets, length_extendRecent]
    omega
  · exact ((h.popReady now shortWindow).refill hp now shortWindow).extendRecent
      (hp.refill now shortWindow) _

structure Keeps (s s' : State) : Prop where
  recent : s'.recentBuckets = s.recentBuckets
  taken : s'.taken = s.taken
  time : ∀ b < s.allocated, s'.time b = s.time b

lemma Keeps.modify {s₀ : State} (h : Keeps s₀ s) (ht : ∀ k, (f k).time = k.time) :
    Keeps s₀ (s.modifyBucket b f) :=
  { h with time := fun x hx => (field_modify Bucket.time ht x).trans (h.time x hx) }

lemma Keeps.frontTime (k : Keeps s s') (ho : s.Owned) (hne : s.recentBuckets ≠ []) :
    s'.frontTime = s.frontTime := by
  obtain ⟨first, rest, hs⟩ := exists_cons_of_ne_nil hne
  have hlt : first < s.allocated := ho.recent_lt first (hs ▸ (.head _))
  simp only [State.frontTime, k.recent, hs]
  exact k.time first hlt

variable (h : s.Window)
include h

lemma Window.nonempty : s.recentBuckets ≠ [] := by
  intro hs
  have hw := h.wide
  simp [hs, futureWindow] at hw

lemma Window.keeps (ho : s.Owned) (k : Keeps s s') : s'.Window := by
  refine ⟨by rw [k.recent]; exact h.wide, ?_⟩
  intro i b hb
  rw [k.recent] at hb
  rw [k.frontTime ho h.nonempty, k.time b (ho.recent_lt b (mem_of_getElem? hb))]
  exact h.consecutive i b hb

/-- An index in range leads to the bucket of the second it was computed from. -/
lemma Window.at_index (index : (t - s.frontTime).toNat < s.recentBuckets.length) :
    ∃ b, s.recentBuckets[(t - s.frontTime).toNat]? = some b ∧ s.time b = t := by
  refine ⟨_, getElem?_eq_getElem index, ?_⟩
  rw [h.consecutive _ _ (getElem?_eq_getElem index), BitVec.ofNat_toNat,
    BitVec.setWidth_eq, BitVec.add_comm, BitVec.sub_add_cancel]

/-- The index of an accepted recent bucket is in range, also where the window wraps around:
there the oldest second is greater than the newest and nothing is accepted. -/
lemma Window.index (hold : s.frontTime ≤ t) (notFuture : t ≤ s.newestTime) :
    ∃ b, s.recentBuckets[(t - s.frontTime).toNat]? = some b ∧ s.time b = t := by
  have hne := h.nonempty
  have hp := length_pos_of_ne_nil hne
  have hl : s.newestTime = s.frontTime + BitVec.ofNat 32 (s.recentBuckets.length - 1) := by
    apply h.consecutive
    rw [getLastD_eq_getLast?, getLast?_eq_getElem?, getElem?_eq_getElem (by omega)]
    rfl
  have hs := BitVec.toNat_sub_of_le hold
  apply h.at_index
  rw [BitVec.le_def] at hold notFuture
  rw [hl, BitVec.toNat_add, BitVec.toNat_ofNat] at notFuture
  omega

end State

end Aggregator
