import StatsHouse.Routing

/-!
# What the second shard receives

What a shard does with an event depends on the key, the slot, the string top tag and whether the
timestamp was clamped, all computed from the key it is given. The second shard is given the key
that the first one left: without its string top tag, and with the timestamp of the first shard.
So it receives the same as alone only if there was no such tag and its own clock makes the same
of both timestamps.
-/

namespace Shard

open Sampling Option
variable {metricInfo : Option MetricMetaValue} {s s' : Shard} {dropIfBeforeTimestamp : BitVec 32}
  {resolutionHash : BitVec 64} {data : Data} {key key' : Key}

/-- The timestamp under which a shard files an event, and whether it was clamped. -/
def resolved (s : Shard) (metricInfo : Option MetricMetaValue) (t : BitVec 32) : BitVec 32 × Bool :=
  let clamped := clampTimestamp s.currentTime t
  ((place s.sendTime clamped.1 (s.resolution metricInfo) 0).1, clamped.2)

/-- What a bucket of the shard gets. -/
structure Received where
  key : Key
  slot : BitVec 32
  topValue : TagUnion
  clampedFuture : Bool

def received (s : Shard) (key : Key) (resolutionHash : BitVec 64)
    (metricInfo : Option MetricMetaValue) (dropIfBeforeTimestamp : BitVec 32) : Option Received :=
  if s.shouldDiscardIncomingData then none
  else
    (s.resolutionShardFromHashLocked key.removeStringTopTag.1 resolutionHash metricInfo).bind
      fun placed =>
        if placed.1.timestamp < dropIfBeforeTimestamp then none
        else some ⟨placed.1, placed.2.1, key.removeStringTopTag.2, placed.2.2⟩

/-- The key after a call. -/
def leftKey (s : Shard) (key : Key) (resolutionHash : BitVec 64)
    (metricInfo : Option MetricMetaValue) : Key :=
  if s.shouldDiscardIncomingData then key
  else
    match s.resolutionShardFromHashLocked key.removeStringTopTag.1 resolutionHash metricInfo with
    | none => key
    | some placed => placed.1

lemma place_fst (sendTime t resolution : BitVec 32) (resolutionHash : BitVec 64) :
    (place sendTime t resolution resolutionHash).1 =
      if resolution = 1 then t else t / resolution * resolution := by
  unfold place
  simp only
  split_ifs <;> rfl

/-- The key under which a shard files an event. -/
def filed (s : Shard) (key : Key) (metricInfo : Option MetricMetaValue) : Key :=
  { key.removeStringTopTag.1 with timestamp := (s.resolved metricInfo key.timestamp).1 }

lemma resolutionShardFromHashLocked_eq (resolution : s.resolution metricInfo ≠ 0) (key : Key)
    (resolutionHash : BitVec 64) :
    s.resolutionShardFromHashLocked key.removeStringTopTag.1 resolutionHash metricInfo =
      some (s.filed key metricInfo, (place s.sendTime (clampTimestamp s.currentTime
        key.timestamp).1 (s.resolution metricInfo) resolutionHash).2,
        (s.resolved metricInfo key.timestamp).2) := by
  unfold resolutionShardFromHashLocked
  rw [if_neg resolution]
  simp only [filed, resolved, place_fst]
  rfl

/-- A key from which the string top tag was taken has none. -/
lemma removeStringTopTag_filed (s : Shard) (key : Key) (metricInfo : Option MetricMetaValue) :
    (s.filed key metricInfo).removeStringTopTag = (s.filed key metricInfo, ⟨[], 0⟩) := by
  simp [filed, Key.removeStringTopTag]

lemma received_eq (accepted : s.shouldDiscardIncomingData = false)
    (resolution : s.resolution metricInfo ≠ 0) (key : Key) (resolutionHash : BitVec 64)
    (dropIfBeforeTimestamp : BitVec 32) :
    s.received key resolutionHash metricInfo dropIfBeforeTimestamp =
      if (s.resolved metricInfo key.timestamp).1 < dropIfBeforeTimestamp then none
      else some ⟨s.filed key metricInfo, (place s.sendTime (clampTimestamp s.currentTime
        key.timestamp).1 (s.resolution metricInfo) resolutionHash).2,
        key.removeStringTopTag.2, (s.resolved metricInfo key.timestamp).2⟩ := by
  unfold received
  rw [if_neg (Bool.eq_false_iff.1 accepted), resolutionShardFromHashLocked_eq resolution]
  rfl

lemma leftKey_eq (accepted : s.shouldDiscardIncomingData = false)
    (resolution : s.resolution metricInfo ≠ 0) (key : Key) (resolutionHash : BitVec 64) :
    s.leftKey key resolutionHash metricInfo = s.filed key metricInfo := by
  unfold leftKey
  rw [if_neg (Bool.eq_false_iff.1 accepted), resolutionShardFromHashLocked_eq resolution]

/-- The code divides by the resolution. -/
def Panics (s : Shard) (metricInfo : Option MetricMetaValue) : Prop :=
  s.shouldDiscardIncomingData = false ∧ s.resolution metricInfo = 0

section Calls

variable {s : Shard} {key : Key} {resolutionHash : BitVec 64} {metricInfo : Option MetricMetaValue}
  {dropIfBeforeTimestamp : BitVec 32} {extra : Nat}
  {change : TagUnion → MultiItem × Rng → Option (MultiItem × Rng)}

/-- A bucket changed by what it received. -/
def Received.write (r : Received) (s : Shard) (metricInfo : Option MetricMetaValue) (extra : Nat)
    (change : TagUnion → MultiItem × Rng → Option (MultiItem × Rng)) : Option Shard :=
  ((s.superQueue (index r.slot)).change r.key metricInfo extra s.rng (change r.topValue)).map
    fun b => { s with
      superQueue := Function.update s.superQueue (index r.slot) b.1
      rng := b.2 }

lemma add_panics (panics : Panics s metricInfo) :
    s.add key resolutionHash metricInfo dropIfBeforeTimestamp extra change = none := by
  unfold add resolutionShardFromHashLocked
  simp only
  rw [if_neg (Bool.eq_false_iff.1 panics.1), if_pos panics.2]
  rfl

lemma add_received (returns : ¬ Panics s metricInfo) :
    s.add key resolutionHash metricInfo dropIfBeforeTimestamp extra change =
      match s.received key resolutionHash metricInfo dropIfBeforeTimestamp with
      | none => some (s, s.leftKey key resolutionHash metricInfo, false)
      | some r => (r.write s metricInfo extra change).map fun s' =>
          (s', s.leftKey key resolutionHash metricInfo, r.clampedFuture) := by
  by_cases hs : s.shouldDiscardIncomingData = true
  · unfold add received leftKey
    rw [if_pos hs, if_pos hs, if_pos hs]
  · have accepted := Bool.eq_false_iff.2 hs
    have hr : s.resolution metricInfo ≠ 0 := fun hz => returns ⟨accepted, hz⟩
    rw [received_eq accepted hr, leftKey_eq accepted hr]
    unfold add
    rw [if_neg hs]
    simp only [resolutionShardFromHashLocked_eq hr, bind_some]
    have hf : (s.filed key metricInfo).timestamp = (s.resolved metricInfo key.timestamp).1 := rfl
    rw [hf]
    by_cases hd : (s.resolved metricInfo key.timestamp).1 < dropIfBeforeTimestamp
    · rw [if_pos hd, if_pos hd]
    · rw [if_neg hd, if_neg hd]
      simp only [Received.write, map_map]
      rfl

end Calls

/-- The functions for metrics of clients ignore an event without a count. -/
def Data.idle : Data → Bool
  | .applyUnique hashes count => (if count = 0 then (hashes.length : ℚ) else count) ≤ 0
  | .applyValues histogram values count =>
    (if count = 0 then histogram.foldl (fun total kv => total + kv.2) (values.length : ℚ)
      else count) ≤ 0
  | .applyCounter count => count ≤ 0
  | _ => false

/-- A call with a count is an addition and a report, neither of which looks at the key that was
given. -/
structure AddsWith (passes : Nat) (growth : Growth) (resolutionHash : BitVec 64)
    (hostTag : TagUnion) (metricInfo : Option MetricMetaValue) (dropIfBeforeTimestamp : BitVec 32)
    (data : Data) (change : Shard → TagUnion → MultiItem × Rng → Option (MultiItem × Rng))
    (finish : Shard × Key × Bool → Option (Shard × Key)) : Prop where
  call : ∀ s key, addData passes growth s key resolutionHash hostTag metricInfo
    dropIfBeforeTimestamp data = (s.add key resolutionHash metricInfo dropIfBeforeTimestamp
      growth.event (change s)).bind finish
  keeps : ∀ r s' key, finish r = some (s', key) → key = r.2.1
  quiet : ∀ s key, finish (s, key, false) = some (s, key)

lemma reportClamped_keeps {passes extra : Nat} {r : Shard × Key × Bool}
    (h : reportClamped passes extra dropIfBeforeTimestamp r = some (s', key)) : key = r.2.1 := by
  unfold reportClamped at h
  split_ifs at h
  · obtain ⟨_, _, hr⟩ := map_eq_some_iff.1 h
    exact (Prod.mk.inj hr).2.symm
  · exact (Prod.mk.inj (some.inj h)).2.symm

section Data

variable (passes : Nat) (growth : Growth) (resolutionHash : BitVec 64) (hostTag : TagUnion)
  (metricInfo : Option MetricMetaValue) (dropIfBeforeTimestamp : BitVec 32)

lemma addData_addsWith (counted : data.idle = false) :
    ∃ change finish, AddsWith passes growth resolutionHash hostTag metricInfo
      dropIfBeforeTimestamp data change finish := by
  have hr (change : Shard → TagUnion → MultiItem × Rng → Option (MultiItem × Rng))
      (hc : ∀ s key, addData passes growth s key resolutionHash hostTag metricInfo
        dropIfBeforeTimestamp data = (s.add key resolutionHash metricInfo dropIfBeforeTimestamp
          growth.event (change s)).bind
            (reportClamped passes growth.report dropIfBeforeTimestamp)) :
      ∃ change finish, AddsWith passes growth resolutionHash hostTag metricInfo
        dropIfBeforeTimestamp data change finish :=
    ⟨change, _, hc, fun _ _ _ => reportClamped_keeps, fun _ _ => rfl⟩
  have hp (change : Shard → TagUnion → MultiItem × Rng → Option (MultiItem × Rng))
      (hc : ∀ s key, addData passes growth s key resolutionHash hostTag metricInfo
        dropIfBeforeTimestamp data = (s.add key resolutionHash metricInfo dropIfBeforeTimestamp
          growth.event (change s)).map fun r => (r.1, r.2.1)) :
      ∃ change finish, AddsWith passes growth resolutionHash hostTag metricInfo
        dropIfBeforeTimestamp data change finish := by
    refine ⟨change, fun r => some (r.1, r.2.1), fun s key => ?_, fun r s' key h => ?_,
      fun _ _ => rfl⟩
    · rw [hc, map_eq_bind]
      rfl
    · exact (Prod.mk.inj (some.inj h)).2.symm
  cases data with
  | applyUnique hashes count | applyValues histogram values count | applyCounter count =>
    exact hr _ fun s key => if_neg (of_decide_eq_false counted)
  | addCounterHost count | addValueCounterHost value count | mergeItemValue itemValue =>
    exact hp _ fun s key => rfl

lemma addData_idle (idle : data.idle = true) (s : Shard) (key : Key) :
    addData passes growth s key resolutionHash hostTag metricInfo dropIfBeforeTimestamp data =
      some (s, key) := by
  cases data with
  | applyUnique hashes count | applyValues histogram values count | applyCounter count =>
    exact if_pos (of_decide_eq_true idle)
  | addCounterHost | addValueCounterHost | mergeItemValue => cases idle

variable {passes growth resolutionHash hostTag metricInfo dropIfBeforeTimestamp} {data : Data}
  {s : Shard} {key : Key}

lemma addData_returns (counted : data.idle = false) {r : Shard × Key}
    (h : addData passes growth s key resolutionHash hostTag metricInfo dropIfBeforeTimestamp data =
      some r) : ¬ Panics s metricInfo := by
  obtain ⟨change, finish, had⟩ := addData_addsWith passes growth resolutionHash hostTag
    metricInfo dropIfBeforeTimestamp counted
  intro panics
  rw [had.call, add_panics panics] at h
  cases h

lemma received_key {r : Received}
    (h : s.received key resolutionHash metricInfo dropIfBeforeTimestamp = some r) :
    s.leftKey key resolutionHash metricInfo = r.key := by
  unfold received at h
  split_ifs at h with hd
  obtain ⟨placed, hp, h⟩ := bind_eq_some_iff.1 h
  split_ifs at h
  unfold leftKey
  rw [if_neg hd, hp, ← some.inj h]

/-- The key that a call leaves. -/
lemma addData_left (counted : data.idle = false)
    (h : addData passes growth s key resolutionHash hostTag metricInfo dropIfBeforeTimestamp data =
      some (s', key')) : key' = s.leftKey key resolutionHash metricInfo := by
  have returns := addData_returns counted h
  obtain ⟨change, finish, had⟩ := addData_addsWith passes growth resolutionHash hostTag
    metricInfo dropIfBeforeTimestamp counted
  rw [had.call, add_received returns] at h
  obtain ⟨r, hr, hf⟩ := bind_eq_some_iff.1 h
  rw [had.keeps r s' key' hf]
  split at hr
  · rw [← some.inj hr]
  · obtain ⟨_, _, he⟩ := map_eq_some_iff.1 hr
    rw [← he]

/-- The same is received, so the same is done. -/
lemma addData_congr (counted : data.idle = false) (returns : ¬ Panics s metricInfo)
    (same : s.received key' resolutionHash metricInfo dropIfBeforeTimestamp =
      s.received key resolutionHash metricInfo dropIfBeforeTimestamp) :
    (addData passes growth s key' resolutionHash hostTag metricInfo dropIfBeforeTimestamp data).map
        Prod.fst =
      (addData passes growth s key resolutionHash hostTag metricInfo dropIfBeforeTimestamp data).map
        Prod.fst := by
  obtain ⟨change, finish, had⟩ := addData_addsWith passes growth resolutionHash hostTag
    metricInfo dropIfBeforeTimestamp counted
  rw [had.call, had.call, add_received returns, add_received returns]
  cases hr : s.received key resolutionHash metricInfo dropIfBeforeTimestamp with
  | none =>
    rw [hr] at same
    simp [same, had.quiet]
  | some r =>
    rw [hr] at same
    simp [same, received_key hr, received_key same]

end Data

/-- What the first call does to the key is not seen by the second shard. -/
def Unaffected (s s2 : Shard) (key : Key) (metricInfo : MetricMetaValue) (data : Data) : Prop :=
  let t := key.timestamp
  let t' := (s.resolved (some metricInfo) t).1
  data.idle = true ∨ s.shouldDiscardIncomingData = true ∨ s2.shouldDiscardIncomingData = true ∨
    ((s2.resolved (some metricInfo) t).1 < metricInfo.shardFixedKey2Timestamp ∧
      (s2.resolved (some metricInfo) t').1 < metricInfo.shardFixedKey2Timestamp) ∨
    (key.tags Key.stringTopTagIndexV3 = 0 ∧ key.stags Key.stringTopTagIndexV3 = [] ∧
      s2.resolved (some metricInfo) t' = s2.resolved (some metricInfo) t)

/-- The second shard receives what it would receive alone. -/
def SameReceived (s s2 : Shard) (key : Key) (resolutionHash : BitVec 64)
    (metricInfo : MetricMetaValue) (data : Data) : Prop :=
  data.idle = true ∨
    s2.received (s.leftKey key resolutionHash (some metricInfo)) resolutionHash (some metricInfo)
        metricInfo.shardFixedKey2Timestamp =
      s2.received key resolutionHash (some metricInfo) metricInfo.shardFixedKey2Timestamp

/-- The filed key is filed under the timestamp that the second shard makes of the first one's. -/
lemma filed_filed (s s2 : Shard) (key : Key) (metricInfo : Option MetricMetaValue) :
    s2.filed (s.filed key metricInfo) metricInfo = { s2.filed key metricInfo with
        timestamp := (s2.resolved metricInfo (s.resolved metricInfo key.timestamp).1).1 } := by
  unfold filed
  simp [Key.removeStringTopTag]

theorem sameReceived_iff {s2 : Shard} {metricInfo : MetricMetaValue}
    (returns : ¬ Panics s (some metricInfo)) (returns2 : ¬ Panics s2 (some metricInfo)) (key : Key)
    (resolutionHash : BitVec 64) (data : Data) :
    SameReceived s s2 key resolutionHash metricInfo data ↔ Unaffected s s2 key metricInfo data := by
  unfold SameReceived Unaffected
  apply or_congr_right
  by_cases hb : s.shouldDiscardIncomingData = true
  · have hl : s.leftKey key resolutionHash (some metricInfo) = key := if_pos hb
    rw [hl]
    exact iff_of_true rfl (.inl hb)
  by_cases hs : s2.shouldDiscardIncomingData = true
  · refine iff_of_true ?_ (.inr (.inl hs))
    unfold received
    rw [if_pos hs, if_pos hs]
  have accepted := Bool.eq_false_iff.2 hb
  have accepted2 := Bool.eq_false_iff.2 hs
  have hr : s.resolution (some metricInfo) ≠ 0 := fun hz => returns ⟨accepted, hz⟩
  have hrl2 : s2.resolution (some metricInfo) ≠ 0 :=
    fun hz => returns2 ⟨accepted2, hz⟩
  rw [leftKey_eq accepted hr, received_eq accepted2 hrl2,
    received_eq accepted2 hrl2, removeStringTopTag_filed, filed_filed]
  have hi : (s.filed key (some metricInfo)).timestamp =
    (s.resolved (some metricInfo) key.timestamp).1 := rfl
  rw [hi]
  generalize (s.resolved (some metricInfo) key.timestamp).1 = t'
  have hp : key.removeStringTopTag.2 = ⟨[], 0⟩ ↔
      key.tags Key.stringTopTagIndexV3 = 0 ∧ key.stags Key.stringTopTagIndexV3 = [] := by
    simp [Key.removeStringTopTag, and_comm]
  constructor
  · intro ha
    refine .inr (.inr ?_)
    split_ifs at ha with hd hd2 hd2
    · exact .inl ⟨hd2, hd⟩
    · have hf := Received.mk.inj (some.inj ha)
      obtain ⟨hk, _, htV, hm⟩ := hf
      have ht := congrArg Key.timestamp hk
      obtain ⟨hg, hc⟩ := hp.1 htV.symm
      exact .inr ⟨hg, hc, Prod.ext ht hm⟩
  · rintro (he | he | ⟨hd, hd2⟩ | ⟨hg, hc, ha⟩)
    · exact absurd he hb
    · exact absurd he hs
    · rw [if_pos hd, if_pos hd2]
    · have hj : place s2.sendTime (clampTimestamp s2.currentTime t').1
          (s2.resolution (some metricInfo)) resolutionHash =
          place s2.sendTime (clampTimestamp s2.currentTime key.timestamp).1
            (s2.resolution (some metricInfo)) resolutionHash := by
        have ht := congrArg Prod.fst ha
        simp only [resolved, place_fst] at ht
        unfold place
        by_cases ho : s2.resolution (some metricInfo) = 1
        · rw [if_pos ho, if_pos ho] at ht
          rw [ht]
        · rw [if_neg ho, if_neg ho] at ht
          rw [if_neg ho, if_neg ho, ht]
      rw [ha, hj, hp.2 ⟨hg, hc⟩]
      rfl

/-- The fields on which the filing of an event depends. -/
structure SameClock (s s' : Shard) : Prop where
  currentTime : s'.currentTime = s.currentTime
  sendTime : s'.sendTime = s.sendTime
  stopReceivingIncomingData : s'.stopReceivingIncomingData = s.stopReceivingIncomingData
  resolution : s'.resolution = s.resolution

lemma SameClock.refl (s : Shard) : SameClock s s := ⟨rfl, rfl, rfl, rfl⟩

section

variable (h : SameClock s s')
include h

lemma SameClock.trans {s'' : Shard} (h' : SameClock s' s'') : SameClock s s'' :=
  ⟨h'.1.trans h.1, h'.2.trans h.2, h'.3.trans h.3, h'.4.trans h.4⟩

lemma SameClock.discards : s'.shouldDiscardIncomingData = s.shouldDiscardIncomingData := by
  have hg : s'.gapInReceivingQueueLocked = s.gapInReceivingQueueLocked := by
    simp [gapInReceivingQueueLocked, h.currentTime, h.sendTime]
  simp [shouldDiscardIncomingData, hg, h.stopReceivingIncomingData]

lemma SameClock.resolved : s'.resolved = s.resolved := by
  funext metricInfo t
  simp [Shard.resolved, h.currentTime, h.sendTime, h.resolution]

lemma SameClock.placed : s'.resolutionShardFromHashLocked = s.resolutionShardFromHashLocked := by
  funext key resolutionHash metricInfo
  simp [resolutionShardFromHashLocked, h.currentTime, h.sendTime, h.resolution]

lemma SameClock.sameReceived_iff {s2 s2' : Shard} (h2 : SameClock s2 s2') (key : Key)
    (resolutionHash : BitVec 64) (metricInfo : MetricMetaValue) (data : Data) :
    SameReceived s' s2' key resolutionHash metricInfo data ↔
      SameReceived s s2 key resolutionHash metricInfo data := by
  simp [SameReceived, received, leftKey, h.discards, h.placed, h2.discards, h2.placed]

lemma SameClock.unaffected_iff {s2 s2' : Shard} (h2 : SameClock s2 s2') (key : Key)
    (metricInfo : MetricMetaValue) (data : Data) :
    Unaffected s' s2' key metricInfo data ↔ Unaffected s s2 key metricInfo data := by
  simp [Unaffected, h.discards, h.resolved, h2.discards, h2.resolved]

end

lemma add_sameClock {extra : Nat} {change : TagUnion → MultiItem × Rng → Option (MultiItem × Rng)}
    {r : Key × Bool}
    (h : s.add key resolutionHash metricInfo dropIfBeforeTimestamp extra change = some (s', r)) :
    SameClock s s' := by
  by_cases panics : Panics s metricInfo
  · rw [add_panics panics] at h
    cases h
  · rw [add_received panics] at h
    split at h
    · cases h
      exact SameClock.refl _
    · obtain ⟨written, hw, hr⟩ := map_eq_some_iff.1 h
      cases hr
      obtain ⟨b, _, rfl⟩ := map_eq_some_iff.1 hw
      exact ⟨rfl, rfl, rfl, rfl⟩

end Shard

namespace Agent

open Shard
variable {external : External} {outcomes : Outcomes} {a : Agent} {dropIfBeforeTimestamp : BitVec 32}
  {call n : Nat} {n2 : Option Nat} {r : Option Shard} {outcomes2 : Outcomes} {p : Payload}

lemma addStatus_sameClock {s s' : Shard} {status : Status}
    (h : addStatus external outcomes call s status dropIfBeforeTimestamp = some s') :
    SameClock s s' := by
  have ho : ¬(1 : ℚ) ≤ 0 := by decide
  unfold addStatus addCounterHostSrcIngestionStatus addCounterHost
    addCounterHostStringBytesSrcIngestionStatus at h
  cases hs : status.str with
  | none =>
    rw [hs] at h
    simp only [if_neg ho, Option.map_map, Option.map_eq_some_iff] at h
    obtain ⟨r, hd, rfl⟩ := h
    exact add_sameClock hd
  | some str =>
    rw [hs] at h
    simp only [if_neg ho, Option.map_eq_some_iff] at h
    obtain ⟨r, hd, rfl⟩ := h
    exact add_sameClock hd

/-- The same for one shard only. -/
def addStatusesAlone (external : External) (outcomes : Outcomes)
    (dropIfBeforeTimestamp : BitVec 32) :
    Nat → List Status → Shard → Option Shard
  | _, [], s => some s
  | call, status :: rest, s =>
    (addStatus external outcomes call s status dropIfBeforeTimestamp).bind
      (addStatusesAlone external outcomes dropIfBeforeTimestamp (call + 1) rest)

/-- What a shard becomes that is the only destination. -/
def applyAlone (external : External) (outcomes : Outcomes) (p : Payload) (s : Shard) :
    Option Shard := do
  let s ← addStatusesAlone external outcomes p.metricInfo.shardFixedKey2Timestamp 0 p.statuses s
  match p.data with
  | none => some s
  | some data =>
    (s.addData outcomes.passes (outcomes.growth p.statuses.length) p.key p.resolutionHash p.hostTag
      (some p.metricInfo) p.metricInfo.shardFixedKey2Timestamp data).map Prod.fst

lemma addStatuses_alone {statuses : List Status} {s s2 s' : Shard}
    (h : addStatuses external outcomes outcomes2 dropIfBeforeTimestamp call
      statuses (s, some s2) = some (s', r)) : ∃ s2', r = some s2' ∧
      addStatusesAlone external outcomes2 dropIfBeforeTimestamp call statuses s2 = some s2' ∧
      SameClock s s' ∧ SameClock s2 s2' := by
  induction statuses generalizing call s s2 with
  | nil =>
    cases h
    exact ⟨s2, rfl, rfl, SameClock.refl _, SameClock.refl _⟩
  | cons status rest ih =>
    simp only [addStatuses, Option.bind_eq_bind, Option.bind_eq_some_iff] at h
    obtain ⟨s₁, hf, s2₁, hs, ha⟩ := h
    obtain ⟨s2', hr, hl, hc, hcl2⟩ := ih ha
    refine ⟨s2', hr, ?_, (addStatus_sameClock hf).trans hc,
      (addStatus_sameClock hs).trans hcl2⟩
    simp [addStatusesAlone, hs, hl]

/-- The two shards of a payload without data, or whose data are not affected. -/
def Faithful (s s2 : Shard) (p : Payload) : Prop :=
  ∀ data ∈ p.data, Unaffected s s2 p.key p.metricInfo data

/-- What the second shard receives and becomes is what it would receive and become alone. -/
def AsAlone (external : External) (outcomes2 : Outcomes) (s s2 : Shard) (p : Payload)
    (result : Option Shard) : Prop :=
  (∀ data ∈ p.data, SameReceived s s2 p.key p.resolutionHash p.metricInfo data) ∧
    result = applyAlone external outcomes2 p s2

theorem applyTo_iff {s s2 s' : Shard}
    (h : applyTo external outcomes outcomes2 p (s, some s2) = some (s', r)) :
    r.isSome = true ∧ (AsAlone external outcomes2 s s2 p r ↔ Faithful s s2 p) := by
  simp only [applyTo, Option.bind_eq_bind, Option.bind_eq_some_iff] at h
  obtain ⟨⟨s₁, r₁⟩, hb, hd⟩ := h
  obtain ⟨s2₁, rfl, hl, hc, hcl2⟩ := addStatuses_alone hb
  unfold AsAlone Faithful applyAlone
  simp only [hl, Option.bind_eq_bind, Option.bind_some]
  cases hp : p.data with
  | none =>
    rw [hp] at hd
    cases hd
    exact ⟨rfl, by simp⟩
  | some data =>
    rw [hp] at hd
    simp only [addDataTo, Option.bind_eq_bind, Option.bind_eq_some_iff] at hd
    obtain ⟨⟨s₂, key'⟩, hf, ⟨s2₂, key''⟩, hs, hr⟩ := hd
    cases hr
    refine ⟨rfl, ?_⟩
    simp only [Option.mem_def, Option.some.injEq, forall_eq']
    cases hi : data.idle with
    | true =>
      rw [addData_idle _ _ _ _ _ _ hi] at hs ⊢
      cases hs
      exact iff_of_true ⟨.inl hi, rfl⟩ (.inl hi)
    | false =>
      have hk := addData_left hi hf
      have ha := sameReceived_iff (addData_returns hi hf) (addData_returns hi hs)
        p.key p.resolutionHash data
      rw [hc.sameReceived_iff hcl2, hc.unaffected_iff hcl2] at ha
      rw [← ha, and_iff_left_iff_imp]
      intro he
      have hsa₁ := (hc.sameReceived_iff hcl2 _ _ _ _).2 he
      rcases hsa₁ with hn | hsa₁
      · rw [hi] at hn
        cases hn
      · rw [← hk] at hsa₁
        rw [← addData_congr hi (addData_returns hi hs) hsa₁, hs]
        rfl

/-- What a request sends, and the numbers of its shards, if it gets that far. -/
def Request.payload (external : External) (a : Agent) :
    Request → Option (Payload × Nat × Option Nat)
  | .applyMetric m h => do
    let metricInfo ← h.metricMeta
    let (n, shard1ok, n2) ← a.shard external h.key metricInfo
    if shard1ok then some (payloadOf m h metricInfo, n, n2) else none
  | .addCounterHostAERAS t metricInfo tags stags count hostTag aera => do
    let p : Payload :=
      { metricInfo := metricInfo
        key := a.fillKey external t metricInfo tags stags aera
        hostTag := hostTag
        data := some (.addCounterHost count) }
    if count ≤ 0 then none else (a.shard external p.key metricInfo).map fun r => (p, r.1, r.2.2)
  | .addValueCounterHostAERAS t metricInfo tags stags value counter hostTag aera => do
    let p : Payload :=
      { metricInfo := metricInfo
        key := a.fillKey external t metricInfo tags stags aera
        hostTag := hostTag
        data := some (.addValueCounterHost value counter) }
    if counter ≤ 0 then none else (a.shard external p.key metricInfo).map fun r => (p, r.1, r.2.2)
  | .mergeItemValue t metricInfo tags item => do
    let p : Payload :=
      { metricInfo := metricInfo
        key := a.fillKey external t metricInfo tags (fun _ => []) {}
        data := some (.mergeItemValue item) }
    if item.counter ≤ 0 then none
    else (a.shard external p.key metricInfo).map fun r => (p, r.1, r.2.2)

/-- Every request that sends something is routed. -/
lemma handle_route {r : Request} (h : r.payload external a = some (p, n, n2)) :
    a.handle external outcomes outcomes2 r = a.route external outcomes outcomes2 p n n2 := by
  cases r with
  | applyMetric m h' =>
    simp only [Request.payload, Option.bind_eq_bind, Option.bind_eq_some_iff] at h
    obtain ⟨metricInfo, hm, ⟨n', shard1ok, n2'⟩, hs, h⟩ := h
    split_ifs at h with ho
    cases h
    obtain rfl : shard1ok = true := ho
    simp only [handle, applyMetric, hm, hs]
    rfl
  | addCounterHostAERAS | addValueCounterHostAERAS | mergeItemValue =>
    simp only [Request.payload] at h
    simp only [handle, addCounterHostAERAS, addValueCounterHostAERAS, mergeItemValue, addBuiltin]
    split_ifs at h ⊢
    obtain ⟨r, hs, hr⟩ := Option.map_eq_some_iff.1 h
    cases hr
    rw [hs]
    rfl

/-- For every request that goes to two shards and every outcome for which it returns: the second
shard receives and becomes what it would receive and become alone, exactly if the changes of the
first call to the key cannot be seen in it. -/
theorem duplicated_routing_iff (external : External) (outcomes outcomes2 : Outcomes) (a a' : Agent)
    (r : Request) (p : Payload) (n n2 : Nat) (sent : r.payload external a = some (p, n, some n2))
    (returns : a.handle external outcomes outcomes2 r = some a') :
    ∃ s s2, a.shards[n]? = some s ∧ a.shards[n2]? = some s2 ∧
      (AsAlone external outcomes2 s s2 p a'.shards[n2]? ↔ Faithful s s2 p) := by
  rw [handle_route sent] at returns
  simp only [route, Option.bind_eq_bind, Option.bind_eq_some_iff] at returns
  obtain ⟨s, hs, s2, hs2, ⟨s', result⟩, ha, hr⟩ := returns
  refine ⟨s, s2, hs, hs2, ?_⟩
  obtain ⟨hm, hi⟩ := applyTo_iff ha
  obtain ⟨s2', rfl⟩ := Option.isSome_iff_exists.1 hm
  obtain ⟨hlt, _⟩ := List.getElem?_eq_some_iff.1 hs2
  have hc : a'.shards[n2]? = some s2' := by
    rw [← Option.some.inj hr]
    simp [setShard, hlt]
  rw [hc]
  exact hi

/-- Two shards at the second 1000. -/
def twoShards : Agent where
  shards := List.replicate 2
    { currentTime := 1000
      sendTime := 998
      superQueue := fun _ => MetricsBucket.zeroValue
      rng := ⟨fun _ => 0⟩ }

/-- A metric that goes to both. -/
def bothShards : MetricMetaValue := { metricID := 7, shardFixedKey := 1, shardFixedKey2 := 2 }

/-- Nothing is mapped. -/
def unmapped : External := ⟨fun _ => 0, fun _ _ => none⟩

/-- A counter event with the given string top tag. -/
def counterRequest (topTag : List UInt8) : Request :=
  .applyMetric { counter := 3 }
    { metricMeta := some bothShards
      key := ⟨1000, 7, fun _ => 0, fun i => if i = Key.stringTopTagIndexV3 then topTag else []⟩ }

lemma counterRequest_returns (topTag : List UInt8) (h : topTag = [] ∨ topTag = [97]) :
    (twoShards.handle unmapped ⟨1, fun _ => {}⟩ ⟨1, fun _ => {}⟩
      (counterRequest topTag)).isSome = true := by
  rcases h with rfl | rfl <;> decide +kernel

theorem duplicated_routing_iff_plain :
    ∃ s s2 p, (counterRequest []).payload unmapped twoShards = some (p, 0, some 1) ∧
      AsAlone unmapped ⟨1, fun _ => {}⟩ s s2 p
        ((twoShards.handle unmapped ⟨1, fun _ => {}⟩ ⟨1, fun _ => {}⟩ (counterRequest [])).get
          (counterRequest_returns [] (Or.inl rfl))).shards[1]? := by
  obtain ⟨s, s2, hs, hs2, hi⟩ := duplicated_routing_iff unmapped ⟨1, fun _ => {}⟩
    ⟨1, fun _ => {}⟩ twoShards _ (counterRequest []) _ 0 1 rfl (Option.some_get _).symm
  refine ⟨s, s2, _, rfl, hi.2 ?_⟩
  cases hs
  cases hs2
  intro data hd
  cases hd
  exact .inr (.inr (.inr (.inr ⟨rfl, rfl, by decide +kernel⟩)))

/-- The sizes of the string tops in the bucket of the second 1000. -/
def topSizes (s : Shard) : List Nat :=
  (s.superQueue (index 1000)).contents.map fun c => c.1.top.entries.length

lemma counterRequest_topSizes :
    ((twoShards.handle unmapped ⟨1, fun _ => {}⟩ ⟨1, fun _ => {}⟩ (counterRequest [97])).bind
        fun a => a.shards[1]?.map topSizes) = some [0, 0] ∧
    ((counterRequest [97]).payload unmapped twoShards).bind (fun r =>
        (twoShards.shards[1]?.bind (applyAlone unmapped ⟨1, fun _ => {}⟩ r.1)).map topSizes) =
      some [0, 1] := by
  constructor <;> decide +kernel

/-- The first shard takes the string top tag out of the key, and the second one counts the event
without it. -/
theorem duplicated_routing_counterexample :
    ∃ s s2 p a', (counterRequest [97]).payload unmapped twoShards = some (p, 0, some 1) ∧
      twoShards.handle unmapped ⟨1, fun _ => {}⟩ ⟨1, fun _ => {}⟩ (counterRequest [97]) = some a' ∧
      twoShards.shards[0]? = some s ∧ twoShards.shards[1]? = some s2 ∧
      ¬ AsAlone unmapped ⟨1, fun _ => {}⟩ s s2 p a'.shards[1]? := by
  obtain ⟨a', hr⟩ := Option.isSome_iff_exists.1
    (counterRequest_returns [97] (.inr rfl))
  refine ⟨_, _, _, a', rfl, hr, rfl, rfl, ?_⟩
  rintro ⟨_, hs⟩
  obtain ⟨hd, ha⟩ := counterRequest_topSizes
  rw [hr, Option.bind_some, hs] at hd
  have hf := hd.symm.trans ha
  exact absurd hf (by decide)

end Agent
