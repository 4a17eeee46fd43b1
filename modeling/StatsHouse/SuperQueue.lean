import StatsHouse.Shard

/-!
# Slots of the super-queue

`SendTime` only grows, and the slot of an accepted event lies less than one round of the ring
ahead of it. Its bucket is therefore taken out when `SendTime` reaches that slot, unless the
flusher jumps ahead before. A jump is a number of whole rounds, so the bucket is then sent under
a time that is later by as many rounds.

A reading of the clock is a number of nanoseconds since the epoch.
-/

namespace Shard

open List Option Nat Function Bool Or MetricsBucket
variable {now : Int} {r : Key × Bool} {out : List Output} {s : Shard} {resolution : BitVec 32}
  {e : Event} {metricInfo : Option MetricMetaValue} {s' : Shard}

def agentWindow : Int := 1300000000

/-- The seconds of a reading, as `uint32`. -/
def unix (now : Int) : BitVec 32 := BitVec.ofInt 32 (now / 1000000000)

/-- What the flusher did: it sent a bucket to the preprocessor, or jumped ahead. -/
inductive Output where
  | flushed (b : MetricsBucket)
  | jumped (seconds : BitVec 32)

def flushAllDataSingleStep (s : Shard) (sendEmpty : Bool) : Shard × List Output :=
  let sendTime := s.sendTime
  let s := { s with sendTime := s.sendTime + 1 }
  let b := s.superQueue (index sendTime)
  if b.empty && !sendEmpty then (s, [])
  else
    let b := { b with time := sendTime }
    ({ s with
      superQueue := update s.superQueue (index sendTime) zeroValue
      bucketsToPreprocess := s.bucketsToPreprocess ++ [b] }, [.flushed b])

/-- The loop of `flushBuckets`. It ends after as many turns as there are seconds to send. -/
def flushLoop (sendUpToTime : BitVec 32) : Nat → Shard → Shard × List Output
  | 0, s => (s, [])
  | turns + 1, s =>
    if sendUpToTime ≤ s.sendTime ∨ s.bucketsToPreprocess.length ≠ 0 then (s, [])
    else if s.sendTime ≥ s.currentTime then (s, [])
    else
      let r := s.flushAllDataSingleStep (s.gapInReceivingQueueLocked ≤ 0)
      let r' := flushLoop sendUpToTime turns r.1
      (r'.1, r.2 ++ r'.2)

/-- The clock goes forward only. Also the gap and the send time that are reported. -/
def tick (s : Shard) (now : Int) : Shard × Int × BitVec 32 :=
  let nowUnix := unix now
  if nowUnix > s.currentTime then
    let s := { s with currentTime := nowUnix }
    let gap := s.gapInReceivingQueueLocked
    (s, gap, if gap > 0 then s.sendTime else 0)
  else (s, 0, 0)

/-- The last future time that the ring holds. -/
def farBehind (s : Shard) : BitVec 32 :=
  s.currentTime - BitVec.ofNat 32 (superQueueLen - superQueueFutureSlots)

/-- Whole rounds of the ring. -/
def rounds (s : Shard) : BitVec 32 :=
  (s.farBehind - s.sendTime + BitVec.ofNat 32 superQueueLen - 1) /
    BitVec.ofNat 32 superQueueLen * BitVec.ofNat 32 superQueueLen

def jumpAhead (s : Shard) : Shard × List Output :=
  if s.sendTime < s.farBehind then
    ({ s with sendTime := s.sendTime + s.rounds }, [.jumped s.rounds])
  else (s, [])

def flushBuckets (s : Shard) (now : Int) : (Shard × List Output) × Int × BitVec 32 :=
  let ticked := s.tick now
  let jumped := ticked.1.jumpAhead
  let sendUpToTime := unix (now - agentWindow)
  let r := flushLoop sendUpToTime (sendUpToTime.toNat - jumped.1.sendTime.toNat) jumped.1
  ((r.1, jumped.2 ++ r.2), ticked.2)

/-- `n` single steps. -/
def flushSteps : Nat → Shard → Shard × List Output
  | 0, s => (s, [])
  | n + 1, s =>
    let r := s.flushAllDataSingleStep false
    let r' := flushSteps n r.1
    (r'.1, r.2 ++ r'.2)

/-- The end of a shard: one round of the ring, and the channel is closed. -/
def flushAllData (s : Shard) : Shard × List Output :=
  let r := flushSteps superQueueLen s
  ({ r.1 with preprocessorStopped := true }, r.2)

/-- An event that is added; what is done with its item may be anything. -/
structure Event where
  key : Key
  resolutionHash : BitVec 64
  metricInfo : Option MetricMetaValue
  dropIfBeforeTimestamp : BitVec 32
  extra : Nat
  change : TagUnion → MultiItem × Sampling.Rng → Option (MultiItem × Sampling.Rng)

def addEvent (s : Shard) (e : Event) : Option (Shard × Key × Bool) :=
  s.add e.key e.resolutionHash e.metricInfo e.dropIfBeforeTimestamp e.extra e.change

inductive Action where
  | event (e : Event)
  | flushBuckets (now : Int)
  /-- The preprocessor takes a bucket. -/
  | preprocess
  | updateConfig (stringTopCapacity : Int) (legacyApplyValues : Bool)
      (hardwareMetricResolution hardwareSlowMetricResolution : BitVec 32)
  | stopReceivingIncomingData
  | flushAllData

/-- The flusher is stopped before the last flush, and nothing is flushed after it. -/
def step (s : Shard) : Action → Option (Shard × List Output)
  | .event e => (s.addEvent e).map fun r => (r.1, [])
  | .flushBuckets now => if s.preprocessorStopped then none else some (s.flushBuckets now).1
  | .preprocess => some ({ s with bucketsToPreprocess := s.bucketsToPreprocess.tail }, [])
  | .updateConfig stringTopCapacity legacyApplyValues resolution slowResolution =>
    some ({ s with
      stringTopCapacity := stringTopCapacity
      legacyApplyValues := legacyApplyValues
      hardwareMetricResolutionResolved := resolution
      hardwareSlowMetricResolutionResolved := slowResolution }, [])
  | .stopReceivingIncomingData => some ({ s with stopReceivingIncomingData := true }, [])
  | .flushAllData =>
    if s.stopReceivingIncomingData && !s.preprocessorStopped then some s.flushAllData else none

def run (s : Shard) : List Action → Option (Shard × List Output)
  | [] => some (s, [])
  | a :: actions =>
    (s.step a).bind fun r => (run r.1 actions).map fun r' => (r'.1, r.2 ++ r'.2)

/-- A new shard. -/
def start (now : Int) (rng : Sampling.Rng) : Shard where
  currentTime := unix now
  sendTime := unix now - 2
  superQueue := fun _ => zeroValue
  rng := rng

/-- Readings for which no slot wraps: from the epoch on, up to 130 seconds before the last one
that 32 bits can hold. -/
def Clock (now : Int) : Prop := 0 ≤ now / 1000000000 ∧ now / 1000000000 + 130 < 2 ^ 32

def Action.Clocked : Action → Prop
  | .flushBuckets now => Clock now
  | _ => True

lemma unix_toNat (h : Clock now) :
    ((unix now).toNat : Int) = now / 1000000000 ∧ (unix now).toNat + 130 < 2 ^ 32 := by
  obtain ⟨hl, hhi⟩ := h
  have hv : (unix now).toNat = (now / 1000000000).toNat := by
    unfold unix
    rw [BitVec.toNat_ofInt, Int.emod_eq_of_lt (by omega) (by omega)]
  omega

lemma resolutionShardNum_lt (resolutionHash : BitVec 64) (h : resolution ≠ 0) :
    (resolutionShardNum resolutionHash resolution).toNat < resolution.toNat := by
  have hp := pos_of_ne_zero fun hz => h (BitVec.eq_of_toNat_eq hz)
  have hm : (resolutionHash &&& 0xFFFFFFFF#64).toNat < 2 ^ 32 := by
    exact lt_of_le_of_lt and_le_right (by decide)
  unfold resolutionShardNum
  rw [BitVec.toNat_setWidth, BitVec.toNat_ushiftRight, BitVec.toNat_mul, BitVec.toNat_setWidth,
    shiftRight_eq_div_pow]
  generalize (resolutionHash &&& 0xFFFFFFFF#64).toNat = a at hm
  rw [mod_eq_of_lt (show resolution.toNat < 2 ^ 64 by omega)]
  apply lt_of_le_of_lt (mod_le _ _)
  rw [div_lt_iff_lt_mul (by decide)]
  apply lt_of_le_of_lt (mod_le _ _)
  rw [mul_comm resolution.toNat]
  exact mul_lt_mul_of_pos_right hm hp

lemma clampTimestamp_le {currentTime t : BitVec 32} (h : currentTime.toNat + 130 < 2 ^ 32) :
    (clampTimestamp currentTime t).1.toNat ≤ currentTime.toNat + 3 := by
  have hs : (currentTime + BitVec.ofNat 32 superQueueFutureSlots).toNat =
      currentTime.toNat + 3 := by
    rw [BitVec.toNat_add, show (BitVec.ofNat 32 superQueueFutureSlots).toNat = 3 from rfl]
    omega
  unfold clampTimestamp
  simp only
  split_ifs with hz hf hf
  · exact hs.le
  · exact le_add_right _ _
  · exact hs.le
  · rw [gt_iff_lt, BitVec.lt_def, hs] at hf
    exact not_lt.1 hf

/-- Rounding up to a multiple. -/
lemma roundUp {d r : Nat} (hr : 0 < r) : d ≤ (d + r - 1) / r * r ∧ (d + r - 1) / r * r < d + r := by
  have hd := div_add_mod (d + r - 1) r
  have hm := mod_lt (d + r - 1) hr
  rw [mul_comm] at hd
  omega

/-- The slot of an event that is at most eight seconds ahead of `SendTime`. -/
lemma place_spec {sendTime t : BitVec 32} (resolutionHash : BitVec 64) (hpos : 1 ≤ resolution.toNat)
    (hhi : resolution.toNat ≤ 60) (early : sendTime.toNat + 128 ≤ 2 ^ 32)
    (ht : t.toNat ≤ sendTime.toNat + 8) :
    sendTime.toNat ≤ (place sendTime t resolution resolutionHash).2.toNat ∧
      (place sendTime t resolution resolutionHash).2.toNat < sendTime.toNat + superQueueLen ∧
      (place sendTime t resolution resolutionHash).1.toNat ≤
        (place sendTime t resolution resolutionHash).2.toNat := by
  unfold place superQueueLen
  by_cases ho : resolution = 1
  · rw [if_pos ho]
    simp only [BitVec.lt_def]
    split_ifs with hl <;> omega
  have hs := resolutionShardNum_lt resolutionHash
    (show resolution ≠ 0 by rintro rfl; exact absurd hpos (by decide))
  generalize resolutionShardNum resolutionHash resolution = n at hs
  have hr : (t / resolution * resolution).toNat =
      t.toNat / resolution.toNat * resolution.toNat := by
    exact mod_eq_of_lt (lt_of_le_of_lt (div_mul_le_self _ _) t.isLt)
  have hle := div_mul_le_self t.toNat resolution.toNat
  rw [← hr] at hle
  simp only
  generalize t / resolution * resolution = rounded at hle
  have ha : (rounded + resolution + n).toNat = rounded.toNat + resolution.toNat + n.toNat := by
    rw [BitVec.toNat_add, BitVec.toNat_add]
    omega
  generalize rounded + resolution + n = slot at ha
  split_ifs with hl
  · rw [BitVec.lt_def] at hl
    obtain ⟨hu, hw⟩ := roundUp (d := sendTime.toNat - slot.toNat) hpos
    have hd : ((sendTime - slot + resolution - 1) / resolution * resolution).toNat =
        (sendTime.toNat - slot.toNat + resolution.toNat - 1) / resolution.toNat *
          resolution.toNat := by
      have hn : (sendTime - slot + resolution - 1).toNat =
          sendTime.toNat - slot.toNat + resolution.toNat - 1 := by
        bv_omega
      rw [BitVec.toNat_mul, BitVec.toNat_udiv, hn]
      exact mod_eq_of_lt (by omega)
    have hm : (slot + (sendTime - slot + resolution - 1) / resolution * resolution).toNat =
        slot.toNat + (sendTime.toNat - slot.toNat + resolution.toNat - 1) / resolution.toNat *
          resolution.toNat := by
      rw [BitVec.toNat_add, hd]
      exact mod_eq_of_lt (by omega)
    simp only [hm]
    omega
  · rw [BitVec.lt_def] at hl
    simp only
    omega

def Grows (b b' : MetricsBucket) : Prop :=
  b.items <+: b'.items ∧ (b.empty = false → b'.empty = false)

lemma Grows.refl (b : MetricsBucket) : Grows b b := ⟨prefix_rfl, id⟩

lemma getOrCreateMultiItem_grows (b : MultiItemMap) (key : Key) (keyBytes : List UInt8)
    (extra : Nat) : b.items <+: (b.getOrCreateMultiItem key keyBytes extra).1.items ∧
      (b.getOrCreateMultiItem key keyBytes extra).1.entries ≠ [] := by
  have ha bytes : (b.appendKey bytes extra).1.items = b.items := by
    unfold MultiItemMap.appendKey
    simp only
    split_ifs <;> rfl
  unfold MultiItemMap.getOrCreateMultiItem
  simp only
  generalize hm : b.appendKey (if keyBytes.length > 0 then keyBytes else key.marshal) extra = r
  have hit : r.1.items = b.items := hm ▸ ha _
  cases hf : r.1.lookup (MultiItemMap.deref r.1.heap r.2) with
  | some item =>
    constructor
    · simp only [MultiItemMap.truncate, hit]
      exact prefix_rfl
    · intro hn
      have he : r.1.entries = [] := hn
      simp [MultiItemMap.lookup, he] at hf
  | none =>
    constructor
    · simp only [hit]
      exact prefix_append _ _
    · exact cons_ne_nil _ _

lemma change_grows {b b' : MetricsBucket} {key : Key} {extra : Nat} {rng rng' : Sampling.Rng}
    {place : MultiItem × Sampling.Rng → Option (MultiItem × Sampling.Rng)}
    (h : b.change key metricInfo extra rng place = some (b', rng')) :
    Grows b b' ∧ b'.empty = false := by
  unfold change at h
  simp only [bind_eq_some_iff, map_eq_some_iff, Prod.mk.injEq] at h
  obtain ⟨content, _, st, _, rfl, _⟩ := h
  obtain ⟨hit, he⟩ := getOrCreateMultiItem_grows b.toMultiItemMap key [] extra
  have hf : (empty ⟨(b.toMultiItemMap.getOrCreateMultiItem key [] extra).1, b.time,
      (if (b.toMultiItemMap.getOrCreateMultiItem key [] extra).2.2 = true then
        b.contents ++ [(({} : MultiItem), metricInfo)] else b.contents).set
          (b.toMultiItemMap.getOrCreateMultiItem key [] extra).2.1 (st.1, content.2)⟩) = false := by
    simpa [empty] using he
  exact ⟨⟨hit, fun _ => hf⟩, hf⟩

/-- One thing the flusher does, or something that leaves `SendTime` alone. -/
inductive Move (s : Shard) : List Output → Shard → Prop
  | quiet {s' : Shard} (same : s'.sendTime = s.sendTime)
      (grows : ∀ i, Grows (s.superQueue i) (s'.superQueue i)) : Move s [] s'
  | skip {s' : Shard} (next : s'.sendTime.toNat = s.sendTime.toNat + 1)
      (empty : (s.superQueue (index s.sendTime)).empty = true)
      (same : s'.superQueue = s.superQueue) : Move s [] s'
  | send {s' : Shard} (next : s'.sendTime.toNat = s.sendTime.toNat + 1)
      (rest : ∀ i, i ≠ index s.sendTime → s'.superQueue i = s.superQueue i) :
      Move s [.flushed { s.superQueue (index s.sendTime) with time := s.sendTime }] s'
  | jump {s' : Shard} {seconds : BitVec 32}
      (ahead : s'.sendTime.toNat = s.sendTime.toNat + seconds.toNat)
      (rounds : superQueueLen ∣ seconds.toNat)
      (same : s'.superQueue = s.superQueue) : Move s [.jumped seconds] s'

inductive Moves : Shard → List Output → Shard → Prop
  | nil (s : Shard) : Moves s [] s
  | cons {s s' s'' : Shard} {out out' : List Output} (first : Move s out s')
      (rest : Moves s' out' s'') : Moves s (out ++ out') s''

lemma Move.moves (h : Move s out s') : Moves s out s' := by
  simpa using Moves.cons h (Moves.nil s')

lemma Moves.append {s'' : Shard} {out' : List Output} (h : Moves s out s')
    (h' : Moves s' out' s'') :
    Moves s (out ++ out') s'' := by
  induction h with
  | nil => exact h'
  | cons first _ ih =>
    rw [append_assoc]
    exact Moves.cons first (ih h')

def flushedTimes (out : List Output) : List Nat := out.filterMap fun
    | .flushed b => some b.time.toNat
    | .jumped _ => none

/-- How far `SendTime` jumped ahead. -/
def jumps (out : List Output) : Nat := (out.map fun
    | .flushed _ => 0
    | .jumped seconds => seconds.toNat).sum

lemma Move.times (h : Move s out s') :
    s.sendTime.toNat ≤ s'.sendTime.toNat ∧ (flushedTimes out).Pairwise (· < ·) ∧
      ∀ t ∈ flushedTimes out, s.sendTime.toNat ≤ t ∧ t < s'.sendTime.toNat := by
  cases h with
  | quiet same => simp [flushedTimes, same]
  | skip next | jump ahead =>
    refine ⟨by omega, List.Pairwise.nil, fun t ht => ?_⟩
    cases ht
  | send next =>
    refine ⟨by omega, pairwise_singleton _ _, fun t ht => ?_⟩
    rw [mem_singleton.1 ht]
    simp only
    omega

/-- Buckets are sent in the order of their times. -/
lemma Moves.times (h : Moves s out s') :
    s.sendTime.toNat ≤ s'.sendTime.toNat ∧ (flushedTimes out).Pairwise (· < ·) ∧
      ∀ t ∈ flushedTimes out, s.sendTime.toNat ≤ t ∧ t < s'.sendTime.toNat := by
  induction h with
  | nil => exact ⟨le_refl _, List.Pairwise.nil, fun t ht => by cases ht⟩
  | cons first rest ih =>
    obtain ⟨hle, hp, hb⟩ := first.times
    obtain ⟨hle', hpr', hbt'⟩ := ih
    have ha : ∀ a b : List Output, flushedTimes (a ++ b) = flushedTimes a ++ flushedTimes b :=
      fun a b => filterMap_append
    rw [ha]
    refine ⟨hle.trans hle', pairwise_append.2 ⟨hp, hpr', ?_⟩, ?_⟩
    · intro t ht t' ht'
      exact (hb t ht).2.trans_le (hbt' t' ht').1
    · intro t ht
      rcases mem_append.1 ht with ht | ht
      · exact ⟨(hb t ht).1, (hb t ht).2.trans_le hle'⟩
      · exact ⟨hle.trans (hbt' t ht).1, (hbt' t ht).2⟩

/-- A second that is still to be sent, with something in its bucket. -/
structure Pending (s : Shard) (second : Nat) (items : List Key) : Prop where
  low : s.sendTime.toNat ≤ second
  high : second < s.sendTime.toNat + superQueueLen
  full : ∀ i : Fin superQueueLen, i.val = second % superQueueLen →
    (s.superQueue i).empty = false ∧ items <+: (s.superQueue i).items

/-- An index belongs to one pending second. -/
lemma second_unique {sendTime a b : Nat} (ha : sendTime ≤ a) (ha' : a < sendTime + superQueueLen)
    (hb : sendTime ≤ b) (hb' : b < sendTime + superQueueLen)
    (same : a % superQueueLen = b % superQueueLen) : a = b := by
  unfold superQueueLen at *
  omega

section Pending

variable {s s' : Shard} {second : Nat} {items : List Key}

lemma Pending.quiet (h : Pending s second items) (same : s'.sendTime = s.sendTime)
    (grows : ∀ i, Grows (s.superQueue i) (s'.superQueue i)) : Pending s' second items := by
  refine ⟨same ▸ h.low, same ▸ h.high, ?_⟩
  intro i hi
  obtain ⟨hf, hit⟩ := h.full i hi
  exact ⟨(grows i).2 hf, hit.trans (grows i).1⟩

/-- Another second is taken out. -/
lemma Pending.next (h : Pending s second items) (other : second ≠ s.sendTime.toNat)
    (next : s'.sendTime.toNat = s.sendTime.toNat + 1)
    (rest : ∀ i, i ≠ index s.sendTime → s'.superQueue i = s.superQueue i) :
    Pending s' second items := by
  have hl := h.low
  have hhi := h.high
  refine ⟨by omega, by omega, ?_⟩
  intro i hi
  rw [rest i]
  · exact h.full i hi
  · rintro rfl
    exact other (second_unique hl hhi le_rfl (by unfold superQueueLen; omega) hi.symm)

lemma Pending.jump (h : Pending s second items) {seconds : BitVec 32}
    (ahead : s'.sendTime.toNat = s.sendTime.toNat + seconds.toNat)
    (rounds : superQueueLen ∣ seconds.toNat) (same : s'.superQueue = s.superQueue) :
    Pending s' (second + seconds.toNat) items := by
  have hl := h.low
  have hhi := h.high
  refine ⟨by omega, by omega, ?_⟩
  intro i hi
  rw [same]
  apply h.full i
  obtain ⟨k, hk⟩ := rounds
  rw [hi, hk, add_mul_mod_self_left]

/-- The first bucket that is sent from the index of a pending second carries that second, later
by the jumps in between. -/
lemma Moves.first_flushed (h : Moves s out s') (pending : Pending s second items)
    {before after : List Output} {b : MetricsBucket} (joined : out = before ++ .flushed b :: after)
    (sameSlot : b.time.toNat % superQueueLen = second % superQueueLen)
    (others : ∀ t ∈ flushedTimes before, t % superQueueLen ≠ second % superQueueLen) :
    b.time.toNat = second + jumps before ∧ items <+: b.items := by
  induction h generalizing second before with
  | nil s => exact absurd joined (by simp)
  | @cons s _ _ _ _ first rest ih =>
    cases first with
    | quiet same grows => exact ih (pending.quiet same grows) joined sameSlot others
    | skip next empty same =>
      have ho : second ≠ s.sendTime.toNat := by
        rintro rfl
        rw [(pending.full (index s.sendTime) rfl).1] at empty
        cases empty
      exact ih (pending.next ho next fun i _ => by rw [same]) joined sameSlot others
    | send next rest' =>
      cases before with
      | nil =>
        obtain ⟨hb, _⟩ := cons.inj joined
        cases hb
        have ha :=
          second_unique pending.low pending.high le_rfl (by unfold superQueueLen; omega)
            sameSlot.symm
        refine ⟨ha.symm, ?_⟩
        exact (pending.full (index s.sendTime) (by rw [index, ha])).2
      | cons o before =>
        obtain ⟨rfl, hr⟩ := cons.inj joined
        have ho : second ≠ s.sendTime.toNat := by
          rintro rfl
          exact others _ (.head _) rfl
        have hm := ih (pending.next ho next rest') hr sameSlot fun t ht =>
          others t (.tail _ ht)
        simpa [jumps] using hm
    | @jump _ seconds ahead rounds same =>
      cases before with
      | nil => cases (cons.inj joined).1
      | cons o before =>
        obtain ⟨rfl, hr⟩ := cons.inj joined
        have hd : (second + seconds.toNat) % superQueueLen = second % superQueueLen := by
          obtain ⟨k, hk⟩ := rounds
          rw [hk, add_mul_mod_self_left]
        have hm := ih (pending.jump ahead rounds same) hr (hd ▸ sameSlot) fun t ht =>
          hd ▸ others t ht
        refine ⟨?_, hm.2⟩
        rw [hm.1]
        simp only [jumps, map_cons, sum_cons]
        omega

end Pending

/-- What the clock readings and the actions keep: no time wraps. -/
structure Sound (s : Shard) : Prop where
  late : s.currentTime.toNat + 130 < 2 ^ 32
  sent : s.preprocessorStopped = false → s.sendTime.toNat ≤ s.currentTime.toNat + 2
  stopped : s.preprocessorStopped = true → s.stopReceivingIncomingData = true

lemma start_sound (h : Clock now) (second : 2 ≤ now / 1000000000) (rng : Sampling.Rng) :
    Sound (start now rng) := by
  obtain ⟨hv, hhi⟩ := unix_toNat h
  refine ⟨hhi, fun _ => ?_, fun hp => by cases hp⟩
  simp only [start]
  bv_omega

/-- An event that is accepted changes the bucket of its slot. -/
lemma add_accepted {placed : Key × BitVec 32 × Bool}
    (accepted : s.shouldDiscardIncomingData = false)
    (hplaced : s.resolutionShardFromHashLocked e.key.removeStringTopTag.1 e.resolutionHash
      e.metricInfo = some placed) (kept : ¬ placed.1.timestamp < e.dropIfBeforeTimestamp)
    (h : s.addEvent e = some (s', r)) :
    ∃ b rng, (s.superQueue (index placed.2.1)).change placed.1 e.metricInfo e.extra s.rng
        (e.change e.key.removeStringTopTag.2) = some (b, rng) ∧
      s' = { s with
        superQueue := update s.superQueue (index placed.2.1) b
        rng := rng } := by
  unfold addEvent add at h
  rw [if_neg (eq_false_iff.1 accepted)] at h
  simp only [hplaced, bind_some] at h
  rw [if_neg kept] at h
  obtain ⟨⟨b, rng⟩, hc, hr⟩ := map_eq_some_iff.1 h
  cases hr
  exact ⟨b, rng, hc, rfl⟩

/-- Any other event changes nothing. -/
lemma add_cases (h : s.addEvent e = some (s', r)) :
    s' = s ∨ ∃ i key b rng rng', (s.superQueue i).change key e.metricInfo e.extra s.rng
        (e.change e.key.removeStringTopTag.2) = some (b, rng) ∧
      s' = { s with
        superQueue := update s.superQueue i b
        rng := rng' } := by
  by_cases hs : s.shouldDiscardIncomingData = true
  · unfold addEvent add at h
    rw [if_pos hs] at h
    cases h
    exact inl rfl
  cases hp : s.resolutionShardFromHashLocked e.key.removeStringTopTag.1 e.resolutionHash
      e.metricInfo with
  | none =>
    unfold addEvent add at h
    rw [if_neg hs] at h
    simp [hp] at h
  | some placed =>
    by_cases hd : placed.1.timestamp < e.dropIfBeforeTimestamp
    · unfold addEvent add at h
      rw [if_neg hs] at h
      simp only [hp, bind_some] at h
      rw [if_pos hd] at h
      cases h
      exact inl rfl
    · obtain ⟨b, rng, hc, hs'⟩ := add_accepted (eq_false_iff.2 hs) hp hd h
      exact inr ⟨_, _, b, rng, rng, hc, hs'⟩

lemma add_move (h : s.addEvent e = some (s', r)) : Move s [] s' := by
  rcases add_cases h with rfl | ⟨j, key, b, rng, rng', hc, rfl⟩
  · exact Move.quiet rfl fun i => Grows.refl _
  · refine Move.quiet rfl fun i => ?_
    by_cases hi : i = j
    · simp only [hi, update_self]
      exact (change_grows hc).1
    · simp only [update_of_ne hi]
      exact Grows.refl _

/-- The fields that flushing leaves alone. -/
structure SameFlags (s s' : Shard) : Prop where
  currentTime : s'.currentTime = s.currentTime
  stopReceivingIncomingData : s'.stopReceivingIncomingData = s.stopReceivingIncomingData
  preprocessorStopped : s'.preprocessorStopped = s.preprocessorStopped

lemma SameFlags.trans {s'' : Shard} (h : SameFlags s s') (h' : SameFlags s' s'') :
    SameFlags s s'' :=
  ⟨h'.1.trans h.1, h'.2.trans h.2, h'.3.trans h.3⟩

lemma singleStep_spec (room : s.sendTime.toNat + 1 < 2 ^ 32) (sendEmpty : Bool) :
    Move s (s.flushAllDataSingleStep sendEmpty).2 (s.flushAllDataSingleStep sendEmpty).1 ∧
      SameFlags s (s.flushAllDataSingleStep sendEmpty).1 ∧
      (s.flushAllDataSingleStep sendEmpty).1.sendTime.toNat = s.sendTime.toNat + 1 := by
  have hn : (s.sendTime + 1).toNat = s.sendTime.toNat + 1 := by bv_omega
  unfold flushAllDataSingleStep
  by_cases hs : ((s.superQueue (index s.sendTime)).empty && !sendEmpty) = true
  · rw [if_pos hs]
    rw [and_eq_true] at hs
    exact ⟨Move.skip hn hs.1 rfl, ⟨rfl, rfl, rfl⟩, hn⟩
  · rw [if_neg hs]
    exact ⟨Move.send hn fun i hi => update_of_ne hi _ _, ⟨rfl, rfl, rfl⟩, hn⟩

/-- The loop sends seconds before the current one. -/
lemma flushLoop_spec (sendUpToTime : BitVec 32) (turns : Nat) (s : Shard) :
    Moves s (flushLoop sendUpToTime turns s).2 (flushLoop sendUpToTime turns s).1 ∧
      SameFlags s (flushLoop sendUpToTime turns s).1 ∧
      (flushLoop sendUpToTime turns s).1.sendTime.toNat ≤
        max s.sendTime.toNat s.currentTime.toNat := by
  induction turns generalizing s with
  | zero => exact ⟨Moves.nil s, ⟨rfl, rfl, rfl⟩, le_max_left _ _⟩
  | succ turns ih =>
    rw [flushLoop]
    split_ifs with hs hc
    · exact ⟨Moves.nil s, ⟨rfl, rfl, rfl⟩, le_max_left _ _⟩
    · exact ⟨Moves.nil s, ⟨rfl, rfl, rfl⟩, le_max_left _ _⟩
    · have hlt : s.sendTime.toNat < s.currentTime.toNat := by
        rw [ge_iff_le, BitVec.le_def] at hc
        omega
      obtain ⟨hm, hf, hn⟩ := singleStep_spec (s := s)
        (by have := s.currentTime.isLt; omega) (s.gapInReceivingQueueLocked ≤ 0)
      generalize s.flushAllDataSingleStep (s.gapInReceivingQueueLocked ≤ 0) = r at hm hf hn
      obtain ⟨hv, hfl', hx⟩ := ih r.1
      refine ⟨Moves.cons hm hv, hf.trans hfl', ?_⟩
      simp only
      rw [hf.currentTime] at hx
      omega

/-- The code adds 127 to a difference and drops 125, so a difference that wraps around does no
harm: nothing is added then. -/
lemma rounds_toNat (late : s.currentTime.toNat + 130 < 2 ^ 32)
    (sent : s.sendTime.toNat ≤ s.currentTime.toNat + 2) :
    s.rounds.toNat = (s.currentTime.toNat + 2 - s.sendTime.toNat) / 128 * 128 := by
  have hn : (s.farBehind - s.sendTime + BitVec.ofNat 32 superQueueLen - 1).toNat =
      s.currentTime.toNat + 2 - s.sendTime.toNat := by
    unfold farBehind superQueueLen superQueueFutureSlots
    bv_omega
  unfold rounds
  rw [BitVec.toNat_mul, BitVec.toNat_udiv, hn,
    show (BitVec.ofNat 32 superQueueLen).toNat = 128 from rfl]
  exact mod_eq_of_lt (by omega)

lemma jumpAhead_spec (late : s.currentTime.toNat + 130 < 2 ^ 32)
    (sent : s.sendTime.toNat ≤ s.currentTime.toNat + 2) :
    Moves s s.jumpAhead.2 s.jumpAhead.1 ∧ SameFlags s s.jumpAhead.1 ∧
      s.jumpAhead.1.sendTime.toNat ≤ s.currentTime.toNat + 2 := by
  unfold jumpAhead
  split_ifs with hb
  · have hr := rounds_toNat late sent
    have hs : (s.sendTime + s.rounds).toNat = s.sendTime.toNat + s.rounds.toNat := by
      exact mod_eq_of_lt (by omega)
    have hm : Move s [.jumped s.rounds] { s with sendTime := s.sendTime + s.rounds } :=
      Move.jump hs ⟨_, hr.trans (mul_comm _ _)⟩ rfl
    refine ⟨hm.moves, ⟨rfl, rfl, rfl⟩, ?_⟩
    simp only [hs]
    omega
  · exact ⟨Moves.nil s, ⟨rfl, rfl, rfl⟩, sent⟩

lemma flushSteps_spec {n : Nat} (room : s.sendTime.toNat + n < 2 ^ 32) :
    Moves s (flushSteps n s).2 (flushSteps n s).1 ∧ SameFlags s (flushSteps n s).1 := by
  induction n generalizing s with
  | zero => exact ⟨Moves.nil s, ⟨rfl, rfl, rfl⟩⟩
  | succ n ih =>
    obtain ⟨hm, hf, hn⟩ := singleStep_spec (s := s) (by omega) false
    rw [flushSteps]
    generalize s.flushAllDataSingleStep false = r at hm hf hn
    obtain ⟨hv, hfl'⟩ := ih (s := r.1) (by omega)
    exact ⟨Moves.cons hm hv, hf.trans hfl'⟩

lemma tick_spec (clock : Clock now) (h : Sound s) :
    Move s [] (s.tick now).1 ∧ Sound (s.tick now).1 ∧
      (s.tick now).1.preprocessorStopped = s.preprocessorStopped := by
  obtain ⟨_, hhi⟩ := unix_toNat clock
  unfold tick
  by_cases hl : unix now > s.currentTime
  · rw [if_pos hl]
    rw [gt_iff_lt, BitVec.lt_def] at hl
    refine ⟨Move.quiet rfl fun i => Grows.refl _, ⟨hhi, fun hr => ?_, h.stopped⟩, rfl⟩
    exact (h.sent hr).trans (by simp only; omega)
  · rw [if_neg hl]
    exact ⟨Move.quiet rfl fun i => Grows.refl _, h, rfl⟩

lemma flushBuckets_spec (clock : Clock now) (h : Sound s)
    (running : s.preprocessorStopped = false) :
    Moves s (s.flushBuckets now).1.2 (s.flushBuckets now).1.1 ∧ Sound (s.flushBuckets now).1.1 := by
  obtain ⟨ht, hs, hp⟩ := tick_spec clock h
  unfold flushBuckets
  simp only
  generalize s.tick now = ticked at ht hs hp
  have hr := hp.trans running
  obtain ⟨hj, hf, he⟩ := jumpAhead_spec hs.late (hs.sent hr)
  generalize ticked.1.jumpAhead = jumped at hj hf he
  obtain ⟨hl, hfl', hm⟩ := flushLoop_spec (unix (now - agentWindow))
    ((unix (now - agentWindow)).toNat - jumped.1.sendTime.toNat) jumped.1
  refine ⟨ht.moves.append (hj.append hl), ?_⟩
  obtain ⟨hc, hb, ha⟩ := hf.trans hfl'
  rw [hf.currentTime] at hm
  refine ⟨hc ▸ hs.late, fun _ => ?_, fun hn => ?_⟩
  · rw [hc]
    omega
  · rw [ha, hr] at hn
    cases hn

lemma flushAllData_spec (h : Sound s) (running : s.preprocessorStopped = false)
    (stopped : s.stopReceivingIncomingData = true) :
    Moves s s.flushAllData.2 s.flushAllData.1 ∧ Sound s.flushAllData.1 := by
  have hl := h.late
  have hs := h.sent running
  obtain ⟨hv, hf⟩ := flushSteps_spec (n := superQueueLen) (s := s)
    (by unfold superQueueLen; omega)
  unfold flushAllData
  generalize flushSteps superQueueLen s = r at hv hf
  constructor
  · have hc : Move r.1 [] { r.1 with preprocessorStopped := true } :=
      Move.quiet rfl fun i => Grows.refl _
    simpa using hv.append hc.moves
  · refine ⟨?_, fun hr => absurd hr Bool.noConfusion, fun _ => ?_⟩
    · exact hf.currentTime ▸ h.late
    · exact hf.stopReceivingIncomingData.trans stopped

/-- Every action is a row of moves and keeps the times sound. -/
lemma step_spec {a : Action} (clocked : a.Clocked) (h : Sound s)
    (taken : s.step a = some (s', out)) :
    Moves s out s' ∧ Sound s' := by
  have hb {t : Shard} hn (hq : t.superQueue = s.superQueue)
      hd : Moves s [] t ∧ Sound t :=
    ⟨(Move.quiet hn fun i => hq ▸ Grows.refl _).moves, hd⟩
  cases a with
  | event e =>
    obtain ⟨r, had, hr⟩ := map_eq_some_iff.1 taken
    cases hr
    refine ⟨(add_move had).moves, ?_⟩
    rcases add_cases had with ha | ⟨_, _, _, _, _, _, ha⟩
    · exact ha ▸ h
    · rw [ha]
      exact ⟨h.late, h.sent, h.stopped⟩
  | flushBuckets now =>
    simp only [step] at taken
    split_ifs at taken with hp
    have hs := flushBuckets_spec clocked h (eq_false_iff.2 hp)
    rw [some.inj taken] at hs
    exact hs
  | preprocess | updateConfig =>
    cases taken
    exact hb rfl rfl ⟨h.late, h.sent, h.stopped⟩
  | stopReceivingIncomingData =>
    cases taken
    exact hb rfl rfl ⟨h.late, h.sent, fun _ => rfl⟩
  | flushAllData =>
    simp only [step] at taken
    split_ifs at taken with ht
    rw [and_eq_true, not_eq_true'] at ht
    have hs := flushAllData_spec h ht.2 ht.1
    rw [some.inj taken] at hs
    exact hs

theorem run_spec {actions : List Action} (clocked : ∀ a ∈ actions, a.Clocked) (h : Sound s)
    (taken : s.run actions = some (s', out)) : Moves s out s' ∧ Sound s' := by
  induction actions generalizing s out with
  | nil =>
    cases taken
    exact ⟨Moves.nil s', h⟩
  | cons a actions ih =>
    simp only [run, bind_eq_some_iff, map_eq_some_iff] at taken
    obtain ⟨r, hs, r', hr, he⟩ := taken
    cases he
    obtain ⟨hv, hd⟩ := step_spec (clocked a (.head _)) h hs
    obtain ⟨hvs', hsd'⟩ := ih (fun a ha => clocked a (.tail _ ha)) hd hr
    exact ⟨hv.append hvs', hsd'⟩

/-- An event that is not discarded gets a slot less than one round ahead of `SendTime`. -/
lemma placed_spec (h : Sound s) (accepted : s.shouldDiscardIncomingData = false) (key : Key)
    (resolutionHash : BitVec 64) (hpos : 1 ≤ (s.resolution metricInfo).toNat)
    (hhi : (s.resolution metricInfo).toNat ≤ 60) :
    ∃ placed, s.resolutionShardFromHashLocked key resolutionHash metricInfo = some placed ∧
      s.sendTime.toNat ≤ placed.2.1.toNat ∧
      placed.2.1.toNat < s.sendTime.toNat + superQueueLen ∧
      placed.1.timestamp.toNat ≤ placed.2.1.toNat := by
  obtain ⟨hr, hg⟩ : s.stopReceivingIncomingData = false ∧ ¬s.gapInReceivingQueueLocked > 0 := by
    simpa [shouldDiscardIncomingData] using accepted
  have hn : s.preprocessorStopped = false := by
    refine eq_false_iff.2 fun hp => ?_
    rw [h.stopped hp] at hr
    cases hr
  have hs := h.sent hn
  have hl := h.late
  have hc : s.currentTime.toNat ≤ s.sendTime.toNat + 5 := by
    unfold gapInReceivingQueueLocked superQueueLen superQueueFutureSlots at hg
    omega
  have hm := clampTimestamp_le (t := key.timestamp) hl
  have hne : s.resolution metricInfo ≠ 0 := by
    intro hz
    rw [hz] at hpos
    exact absurd hpos (by decide)
  unfold resolutionShardFromHashLocked
  rw [if_neg hne]
  exact ⟨_, rfl, place_spec resolutionHash hpos hhi (by omega) (by omega)⟩

/-- In every reachable state: the buckets sent so far have increasing times, and an event that
is accepted gets a slot of its own index less than one round ahead, at or after its timestamp.
Its bucket is sent under that slot, later by what `SendTime` jumped ahead in between. -/
theorem event_placement (now : Int) (rng : Sampling.Rng) (clock : Clock now)
    (second : 2 ≤ now / 1000000000) (before : List Action)
    (clocked : ∀ a ∈ before, a.Clocked) (s : Shard) (out : List Output)
    (reached : (start now rng).run before = some (s, out)) :
    (flushedTimes out).Pairwise (· < ·) ∧
    ∀ e : Event, s.shouldDiscardIncomingData = false →
      1 ≤ (s.resolution e.metricInfo).toNat → (s.resolution e.metricInfo).toNat ≤ 60 →
      ∃ key slot clamped, s.resolutionShardFromHashLocked e.key.removeStringTopTag.1
          e.resolutionHash e.metricInfo = some (key, slot, clamped) ∧
        s.sendTime.toNat ≤ slot.toNat ∧ slot.toNat < s.sendTime.toNat + superQueueLen ∧
        (∀ t, s.sendTime.toNat ≤ t → t < s.sendTime.toNat + superQueueLen →
          t % superQueueLen = slot.toNat % superQueueLen → t = slot.toNat) ∧
        key.timestamp.toNat ≤ slot.toNat ∧
        (¬ key.timestamp < e.dropIfBeforeTimestamp → ∀ s' r, s.addEvent e = some (s', r) →
          ∀ after s'' out', (∀ a ∈ after, a.Clocked) → s'.run after = some (s'', out') →
          ∀ earlier b later, out' = earlier ++ .flushed b :: later →
            b.time.toNat % superQueueLen = slot.toNat % superQueueLen →
            (∀ t ∈ flushedTimes earlier, t % superQueueLen ≠ slot.toNat % superQueueLen) →
            b.time.toNat = slot.toNat + jumps earlier ∧
              (s'.superQueue (index slot)).items <+: b.items) := by
  obtain ⟨hv, hs⟩ := run_spec clocked (start_sound clock second rng) reached
  refine ⟨hv.times.2.1, ?_⟩
  intro e accepted hl hhi
  obtain ⟨⟨key, slot, clamped⟩, hp, hf, ho, hk⟩ :=
    placed_spec hs accepted e.key.removeStringTopTag.1 e.resolutionHash hl hhi
  refine ⟨key, slot, clamped, hp, hf, ho, ?_, hk, ?_⟩
  · exact fun t ht ht' ha => second_unique ht ht' hf ho ha
  · intro hb s' r had after s'' out' hc hr earlier b later hu hd he
    obtain ⟨bucket, rng', hh, hs'⟩ := add_accepted accepted hp hb had
    have hg : s'.superQueue (index slot) = bucket := by
      rw [hs']
      exact update_self _ _ _
    have hsd' : Sound s' := by
      rw [hs']
      exact ⟨hs.late, hs.sent, hs.stopped⟩
    have hn : s'.sendTime = s.sendTime := by rw [hs']
    have hj : Pending s' slot.toNat (s'.superQueue (index slot)).items := by
      refine ⟨hn ▸ hf, hn ▸ ho, fun i hi => ?_⟩
      obtain rfl : i = index slot := Fin.ext hi
      rw [hg]
      exact ⟨(change_grows hh).2, prefix_rfl⟩
    exact (run_spec hc hsd' hr).1.first_flushed hj hu hd he

/-- An event of the second 1000 without a resolution. -/
def secondEvent : Event where
  key := ⟨1000, 7, fun _ => 0, fun _ => []⟩
  resolutionHash := 0
  metricInfo := none
  dropIfBeforeTimestamp := 0
  extra := 0
  change := fun _ st => some st

theorem event_placement_second :
    ∃ s key slot clamped, (start 1000000000000 ⟨fun _ => 0⟩).run [.flushBuckets 1001500000000] =
        some (s, [.flushed { zeroValue with time := 998 }]) ∧
      s.resolutionShardFromHashLocked secondEvent.key.removeStringTopTag.1
          secondEvent.resolutionHash secondEvent.metricInfo = some (key, slot, clamped) ∧
      s.sendTime.toNat ≤ slot.toNat ∧ slot.toNat < s.sendTime.toNat + superQueueLen ∧
      key.timestamp.toNat ≤ slot.toNat := by
  have hp := event_placement 1000000000000 ⟨fun _ => 0⟩ (by unfold Clock; decide)
    (by decide) [.flushBuckets 1001500000000] (fun a ha => by
      cases mem_singleton.1 ha
      exact (by unfold Clock; decide : Clock 1001500000000)) _ _ rfl
  obtain ⟨key, slot, clamped, hl, hw, hhi, _, hk, _⟩ := hp.2 secondEvent
    (by decide +kernel) (by decide +kernel) (by decide +kernel)
  exact ⟨_, key, slot, clamped, rfl, hl, hw, hhi, hk⟩

lemma secondEvent_flushed : ((start 1000000000000 ⟨fun _ => 0⟩).run [.event secondEvent,
        .flushBuckets 1200000000000]).map (fun r => flushedTimes r.2) = some [1128] := by
  decide +kernel

/-- The machine sleeps for 200 seconds after an event of the second 1000, and its bucket is sent
under the time 1128. -/
theorem event_placement_counterexample :
    ∃ s s' s'' key clamped r out, (start 1000000000000 ⟨fun _ => 0⟩).run [] = some (s, []) ∧
      s.shouldDiscardIncomingData = false ∧
      s.resolutionShardFromHashLocked secondEvent.key.removeStringTopTag.1
        secondEvent.resolutionHash secondEvent.metricInfo = some (key, 1000, clamped) ∧
      s.addEvent secondEvent = some (s', r) ∧
      s'.run [.flushBuckets 1200000000000] = some (s'', out) ∧ flushedTimes out = [1128] := by
  have hs := secondEvent_flushed
  simp only [run, step] at hs
  obtain ⟨r, hu, ht⟩ := map_eq_some_iff.1 hs
  obtain ⟨r', hp, ha⟩ := bind_eq_some_iff.1 hu
  obtain ⟨⟨s', key⟩, had, he⟩ := map_eq_some_iff.1 hp
  obtain ⟨⟨s'', out⟩, hl, hr⟩ := map_eq_some_iff.1 ha
  cases he
  cases hr
  exact ⟨_, s', s'', _, _, key, out, rfl, by decide +kernel, rfl, had, hl, ht⟩

end Shard
