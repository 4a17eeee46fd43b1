import Mathlib.Data.List.TakeWhile
import StatsHouse.AggregatorSeconds

/-!
# The window and the clock

Between both ends of the `uint32` range no sum of a second and a window wraps, whatever the
clock does: the window then holds consecutive seconds of time, the buckets taken out of it go
forward, and the handler rounds up. Near the ends it is not so.
-/

namespace Aggregator

open List BitVec
variable {now : BitVec 32} {shortWindow : ℕ}

namespace State

variable {c : Config} {s : State}

/-- A reading of the clock and a short window for which nothing wraps. -/
def InRange (now : BitVec 32) (shortWindow : ℕ) : Prop :=
  shortWindow ≤ maxShortWindow ∧ maxShortWindow + 3 ≤ now.toNat ∧
    now.toNat + maxShortWindow + futureWindow < 2 ^ 32

/-- The window is away from both ends of the range, and after everything taken out of it. -/
structure Timely (s : State) : Prop where
  front_ge : 3 ≤ s.frontTime.toNat
  front_lt : s.frontTime.toNat + maxShortWindow + futureWindow < 2 ^ 32
  short : s.recentBuckets.length ≤ maxShortWindow + futureWindow
  taken_lt : ∀ t ∈ s.taken, t < s.frontTime
  increasing : s.taken.Pairwise (· < ·)

lemma toNat_add_small {t : BitVec 32} {i : ℕ} (h : t.toNat + i < 2 ^ 32) :
    (t + BitVec.ofNat 32 i).toNat = t.toNat + i := by
  rw [toNat_add, toNat_ofNat]
  omega

/-- The seconds of the window, as numbers. -/
lemma Timely.toNat_time (h : s.Timely) (hw : s.Consecutive) {i b : ℕ}
    (hb : s.recentBuckets[i]? = some b) : (s.time b).toNat = s.frontTime.toNat + i := by
  have hi := (List.getElem?_eq_some_iff.1 hb).1
  have hlt := h.front_lt
  have hs := h.short
  rw [hw i b hb, toNat_add_small (by omega)]

lemma frontTime_extendRecent (ho : s.Owned) (hne : s.recentBuckets ≠ []) (missing : ℕ) :
    (s.extendRecent missing).frontTime = s.frontTime := by
  induction missing generalizing s with
  | zero => rfl
  | succ missing ih =>
    rw [extendRecent, ih (ho.addBucket false _) (by simp [addBucket])]
    exact frontTime_addBucket ho hne _

lemma taken_extendRecent (s : State) (missing : ℕ) : (s.extendRecent missing).taken = s.taken := by
  induction missing generalizing s with
  | zero => rfl
  | succ missing ih => exact ih _

/-- What is popped is a front of the window. -/
lemma popped_getElem? {i b : ℕ}
    (hb : (s.recentBuckets.takeWhile (s.fallsOut now shortWindow))[i]? = some b) :
    s.recentBuckets[i]? = some b := by
  have hi := (List.getElem?_eq_some_iff.1 hb).1
  rw [← takeWhile_append_dropWhile (l := s.recentBuckets),
    getElem?_append_left hi]
  exact hb

/-- A bucket that is popped fell out of the window, in time and not only modulo `2^32`: the
loop stops at the first second that did not, before any sum wraps. -/
lemma Timely.popped_lt (h : s.Timely) (hw : s.Consecutive) {i b : ℕ} (hr : InRange now shortWindow)
    (hb : (s.recentBuckets.takeWhile (s.fallsOut now shortWindow))[i]? = some b) :
    s.frontTime.toNat + i + shortWindow < now.toNat := by
  by_contra hge
  obtain ⟨hs, hl, hhi⟩ := hr
  have ha := h.front_lt
  have hi := (List.getElem?_eq_some_iff.1 hb).1
  set j := now.toNat - shortWindow - s.frontTime.toNat with hj
  obtain ⟨x, hx⟩ : ∃ x, (s.recentBuckets.takeWhile (s.fallsOut now shortWindow))[j]? = some x :=
    ⟨_, getElem?_eq_getElem (by omega)⟩
  have hf : s.time x + BitVec.ofNat 32 shortWindow < now := by
    simpa [fallsOut] using mem_takeWhile_imp (mem_of_getElem? hx)
  have ht := h.toNat_time hw (popped_getElem? hx)
  rw [lt_def, toNat_add_small (by simp only [futureWindow] at *; omega), ht] at hf
  omega

/-- What `popReady` leaves, from which the window is filled up. -/
structure Popped (now : BitVec 32) (shortWindow : ℕ) (s : State) : Prop where
  increasing : s.taken.Pairwise (· < ·)
  timely : s.recentBuckets ≠ [] → s.Timely
  before : s.recentBuckets = [] → ∀ t ∈ s.taken, t.toNat + shortWindow < now.toNat

lemma Timely.popReady (h : s.Timely) (hw : s.Consecutive) (hne : s.recentBuckets ≠ [])
    (hr : InRange now shortWindow) : (s.popReady now shortWindow).Popped now shortWindow := by
  have hd : ∀ t ∈ (s.recentBuckets.takeWhile (s.fallsOut now shortWindow)).map s.time,
      s.frontTime ≤ t ∧ t.toNat + shortWindow < now.toNat := by
    intro t ht
    obtain ⟨b, hb, rfl⟩ := mem_map.1 ht
    obtain ⟨i, hi⟩ := getElem?_of_mem hb
    have hm := h.toNat_time hw (popped_getElem? hi)
    have hlt := h.popped_lt hw hr hi
    rw [le_def]
    omega
  have hin : (s.popReady now shortWindow).taken.Pairwise (· < ·) := by
    refine pairwise_append.2 ⟨h.increasing, ?_, ?_⟩
    · rw [pairwise_map, pairwise_iff_getElem]
      intro i j hi hj hij
      have hk := h.toNat_time hw (popped_getElem? (getElem?_eq_getElem hi))
      have ho := h.toNat_time hw (popped_getElem? (getElem?_eq_getElem hj))
      rw [lt_def]
      omega
    · intro t ht u hu
      have hq := h.taken_lt t ht
      have ha := (hd u hu).1
      rw [lt_def] at *
      rw [le_def] at ha
      omega
  have hs : s.recentBuckets.takeWhile (s.fallsOut now shortWindow) ++
      (s.popReady now shortWindow).recentBuckets = s.recentBuckets :=
    takeWhile_append_dropWhile
  refine ⟨hin, ?_, ?_⟩
  · intro hc
    obtain ⟨first, rest, hf⟩ := exists_cons_of_ne_nil hc
    generalize hp : s.recentBuckets.takeWhile (s.fallsOut now shortWindow) = popped at hs
    have he : s.recentBuckets[popped.length]? = some first := by
      rw [← hs, hf]
      simp
    have ha : (s.popReady now shortWindow).frontTime.toNat =
        s.frontTime.toNat + popped.length := by
      rw [frontTime_eq (by rw [hf]; rfl)]
      exact h.toNat_time hw he
    have hge := h.front_ge
    have hlt := h.front_lt
    have hh := h.short
    have hv : popped.length + (s.popReady now shortWindow).recentBuckets.length =
        s.recentBuckets.length := by
      rw [← length_append, hs]
    constructor
    · omega
    · cases hn : popped.length with
      | zero => omega
      | succ n =>
        have hl := h.popped_lt hw hr (b := popped[n])
          (by rw [hp]; exact getElem?_eq_getElem _)
        obtain ⟨_, _, hhi⟩ := hr
        omega
    · omega
    · intro t ht
      rw [lt_def, ha]
      rcases mem_append.1 ht with ht | ht
      · have := h.taken_lt t ht
        rw [lt_def] at this
        omega
      · rw [hp] at ht
        obtain ⟨b, hb, rfl⟩ := mem_map.1 ht
        obtain ⟨i, hi⟩ := getElem?_of_mem hb
        have hi' := (List.getElem?_eq_some_iff.1 hi).1
        have hm := h.toNat_time hw (popped_getElem? (hp ▸ hi))
        omega
    · exact hin
  · intro hc t ht
    rcases mem_append.1 ht with ht | ht
    · have hg : s.recentBuckets.takeWhile (s.fallsOut now shortWindow) = s.recentBuckets := by
        rw [hc, append_nil] at hs
        exact hs
      obtain ⟨first, rest, hf⟩ := exists_cons_of_ne_nil hne
      have hl := h.popped_lt hw hr (i := 0) (by rw [hg, hf]; rfl)
      have := h.taken_lt t ht
      rw [lt_def] at this
      omega
    · exact (hd t ht).2

lemma Popped.refill (h : s.Popped now shortWindow) (hr : InRange now shortWindow) :
    (s.refill now shortWindow).Timely ∧ (s.refill now shortWindow).recentBuckets ≠ [] := by
  obtain ⟨hh, hl, hhi⟩ := hr
  unfold State.refill
  split
  · next hs =>
    refine ⟨?_, by simp [addBucket]⟩
    have hle : BitVec.ofNat 32 shortWindow ≤ now := by
      rw [le_def, toNat_ofNat]
      omega
    have hn : (now - BitVec.ofNat 32 shortWindow).toNat = now.toNat - shortWindow := by
      rw [toNat_sub_of_le hle, toNat_ofNat, Nat.mod_eq_of_lt (by omega)]
    have hf : (s.addBucket false (now - BitVec.ofNat 32 shortWindow)).frontTime =
        now - BitVec.ofNat 32 shortWindow := by
      simp [State.frontTime, State.time, addBucket, hs, newAggregatorBucket]
    constructor
    · rw [hf, hn]
      omega
    · rw [hf, hn]
      omega
    · simp [addBucket, hs, futureWindow]
    · intro t ht
      have hb := h.before hs t ht
      rw [hf, lt_def, hn]
      omega
    · exact h.increasing
  · next hs => exact ⟨h.timely hs, hs⟩

lemma Timely.extendRecent (h : s.Timely) (ho : s.Owned) (hne : s.recentBuckets ≠ [])
    {missing : ℕ} (hm : s.recentBuckets.length + missing ≤ maxShortWindow + futureWindow) :
    (s.extendRecent missing).Timely := by
  have hf := frontTime_extendRecent ho hne missing
  have ht := taken_extendRecent s missing
  constructor
  · rw [hf]
    exact h.front_ge
  · rw [hf]
    exact h.front_lt
  · rw [length_extendRecent]
    exact hm
  · rw [hf, ht]
    exact h.taken_lt
  · rw [ht]
    exact h.increasing

lemma Popped.advance (ho : s.Owned) (h : (s.popReady now shortWindow).Popped now shortWindow)
    (hr : InRange now shortWindow) : (s.advanceRecentBuckets now shortWindow).Timely := by
  obtain ⟨ht, hne⟩ := h.refill hr
  apply ht.extendRecent ((ho.popReady now shortWindow).refill now shortWindow) hne
  have hs := ht.short
  have hw := hr.1
  omega

lemma Timely.keeps {s' : State} (h : s.Timely) (ho : s.Owned) (hne : s.recentBuckets ≠ [])
    (k : Keeps s s') : s'.Timely := by
  have hf := k.frontTime ho hne
  constructor
  · rw [hf]
    exact h.front_ge
  · rw [hf]
    exact h.front_lt
  · rw [k.recent]
    exact h.short
  · rw [hf, k.taken]
    exact h.taken_lt
  · rw [k.taken]
    exact h.increasing

/-- The clock of an action, if it reads one, is in range. -/
def ClockInRange : Action → Prop
  | .advance now shortWindow => InRange now shortWindow
  | _ => True

lemma Timely.step (h : s.Timely) (hs : s.Sound c) {a : Action} (ha : ClockInRange a) :
    (s.step c a).Timely := by
  rcases hs.step_cases a with hd | ⟨now, shortWindow, rfl, had⟩
  · exact h.keeps hs.owned hs.window.nonempty hd.keeps
  · rw [had]
    exact (h.popReady hs.window.consecutive hs.window.nonempty ha).advance hs.owned ha

lemma Timely.start (hr : InRange now shortWindow) : (start now shortWindow).Timely := by
  apply Popped.advance Owned.initial _ hr
  constructor
  · exact List.Pairwise.nil
  · exact fun hne => absurd rfl hne
  · exact fun _ t ht => absurd ht not_mem_nil

/-- The window in every state of every run, for every clock and every handler: it is not empty,
holds consecutive seconds modulo `2^32`, the index of an accepted request is in range and leads
to the bucket of the rounded second, and nothing panics. With a clock away from the ends of the
range the seconds are consecutive, the buckets taken out go forward in time, and the rounded
second is the first one of this replica that is not before the request's. -/
theorem recent_window_sound (c : Config) (now : BitVec 32) (shortWindow : ℕ)
    (actions : List Action) :
    let s := (start now shortWindow).run c actions
    s.recentBuckets ≠ [] ∧ s.Consecutive ∧ (∀ args historicWindow index,
        place c args s.frontTime s.newestTime historicWindow = .ok (.recent index) →
        ∃ b, s.recentBuckets[index]? = some b ∧ s.time b = c.roundedToOurTime args.time ∧
          s.time b % 3 = c.remainder) ∧
      s.panicked = none ∧
      (InRange now shortWindow → (∀ a ∈ actions, ClockInRange a) →
        (∀ i b, s.recentBuckets[i]? = some b → (s.time b).toNat = s.frontTime.toNat + i) ∧
        s.taken.Pairwise (· < ·) ∧
        ∀ args historicWindow index,
          place c args s.frontTime s.newestTime historicWindow = .ok (.recent index) →
          args.time ≤ c.roundedToOurTime args.time ∧
            ∀ u : ℕ, args.time.toNat ≤ u → u % 3 = c.replicaKey - 1 →
              (c.roundedToOurTime args.time).toNat ≤ u) := by
  intro s
  have hc := Sound.start c now shortWindow
  obtain ⟨hs, hn, _⟩ := Sound.run_induction (fun _ => True) actions
    (fun _ _ _ _ _ => trivial) hc (Housed.start c now shortWindow).panicked trivial
  refine ⟨hs.window.nonempty, hs.window.consecutive, ?_, hn, ?_⟩
  · intro args historicWindow index hp
    obtain ⟨rfl, hold, he⟩ := place_recent hp
    obtain ⟨b, hb, hm⟩ := hs.window.index hold he
    refine ⟨b, hb, hm, ?_⟩
    rw [hm]
    exact c.roundedToOurTime_mod args.time
  · intro hr hl
    obtain ⟨_, _, ht⟩ := Sound.run_induction Timely actions
      (fun s a ha hs ht => Timely.step ht hs (hl a ha)) hc
      (Housed.start c now shortWindow).panicked (Timely.start hr)
    refine ⟨fun i b hb => ht.toNat_time hs.window.consecutive hb, ht.increasing, ?_⟩
    intro args historicWindow index hp
    have hle : args.time ≤ c.roundedToOurTime args.time := by
      have hold := (place_recent hp).2.1
      have hd := c.roundedToOurTime_sub args.time
      have hf : 3 ≤ s.frontTime.toNat := ht.front_ge
      rw [le_def] at *
      rw [toNat_sub] at hd
      omega
    exact ⟨hle, c.roundedToOurTime_least hle⟩

/-- A request of an agent for the second `time`. -/
def bucketAt (time : BitVec 32) (historic : Bool) : Request :=
  { kind := .sendSourceBucket3, malformed := none, buildCommitTs := leastAllowedAgentCommitTs,
    shardReplica := 0, time, historic, items := 1, validItem := fun _ => true }

/-- The first replica of the first shard; request `i` is for the second `time i`. -/
def firstReplica (time : ℕ → BitVec 32) : Config :=
  { shardKey := 1, replicaKey := 1, replicaKey_pos := by decide, replicaKey_le := by decide,
    withoutCluster := false, khAddr := "localhost:8123",
    request := fun i => bucketAt (time i) false }

/-- Two readings eleven seconds apart take a whole window out. -/
theorem recent_window_sound_jump :
    let s := (start 1000 5).run (firstReplica fun _ => 1002) [.advance 1011 5]
    s.taken.Pairwise (· < ·) ∧ s.taken.length = 9 ∧ s.panicked = none :=
  have h := recent_window_sound (firstReplica fun _ => 1002) 1000 5 [.advance 1011 5]
  ⟨(h.2.2.2.2 (by unfold InRange; decide) (by simp [ClockInRange, InRange]; decide)).2.1,
    by decide +kernel, h.2.2.2.1⟩

/-- A clock that starts two seconds after the epoch: the window begins before zero, and the
seconds taken out of it go from the end of the range to its start. -/
theorem taken_wraps_around :
    ¬ ((start 2 5).run (firstReplica fun _ => 0) [.advance 9 5]).taken.Pairwise (· < ·) := by
  decide +kernel

end State

end Aggregator
