import StatsHouse.Conveyor
import StatsHouse.Custody
import StatsHouse.DiskIndex

/-!
# No bucket is lost on the conveyor

Every bucket is held by one goroutine or is in the historic queue, or nobody holds it and it
is known on disk, or it has left for one of six reasons. The conveyor is a custody of tokens:
each section of a goroutine is a step of it, with the shard's queue among the holders.
-/

namespace Conveyor

open DiskCache Custody List DiskCacheShard Shared Function AList Custody.Step
open scoped List
variable {d : DiskCacheShard} {queue : List CompressedBucketData} {a : Action} {nowUnix : BitVec 32}
  {d' : DiskCacheShard} {j : Nat}

def token (cbd : CompressedBucketData) : Token (BitVec 32) × Option Int :=
  (⟨cbd.number, cbd.time⟩, if cbd.id = 0 then none else some cbd.id)

namespace Shared

def known (s : Shared) (id : Int) : Option DiskCacheBucket :=
  s.diskBucketCache.bind fun d => d.knownBuckets.lookup id

def stored (s : Shared) (id : Int) : Option (Token (BitVec 32)) :=
  (s.known id).bind fun b => (s.saved id).map fun n => ⟨n, b.time⟩

end Shared

/-- The custody of the buckets `others`, which goroutines hold, and of those in the queue. -/
def custody (others : List CompressedBucketData) (s : Shared) : Custody.State Int (BitVec 32) :=
  ⟨(others ++ s.historicBucketsToSend).map token, s.stored, s.came⟩

/-- Disk ids are positive and were given out. -/
def Indexed (s : Shared) : Prop := ∀ d, s.diskBucketCache = some d →
    0 ≤ d.lastBucketID ∧ ∀ id, id ∈ d.knownBuckets → 0 < id ∧ id ≤ d.lastBucketID

structure Valid (others : List CompressedBucketData) (s : Shared) : Prop where
  sound : Sound (custody others s)
  indexed : Indexed s

structure Evolves (others : List CompressedBucketData) (s : Shared) (label : Option Nat)
    (others' : List CompressedBucketData) (s' : Shared) : Prop where
  step : Custody.Step (custody others s) label (custody others' s')
  indexed : Indexed s'

variable {others others' rest : List CompressedBucketData} {s s' : Shared}
  {cbd : CompressedBucketData} {label : Option Nat}

lemma Evolves.valid (h : Evolves others s label others' s') (valid : Valid others s) :
    Valid others' s' :=
  ⟨h.step.sound valid.sound, h.indexed⟩

/-- Only the goroutines' own variables change hands. -/
lemma Valid.evolves_move (valid : Valid others s) (perm : others'.Perm others)
    (queue : s'.historicBucketsToSend = s.historicBucketsToSend)
    (disk : s'.diskBucketCache = s.diskBucketCache) (saved : s'.saved = s.saved)
    (came : s'.came = s.came) : Evolves others s none others' s' := by
  have hs : s'.stored = s.stored := by
    funext id
    simp [stored, known, disk, saved]
  constructor
  · refine .move ?_ hs came
    simp only [custody, queue]
    exact (perm.append_right _).map token
  · intro d hd
    exact valid.indexed d (disk ▸ hd)

lemma Valid.evolves_refl (valid : Valid others s) : Evolves others s none others s :=
  valid.evolves_move (.refl _) rfl rfl rfl rfl

lemma Evolves.perm (h : Evolves others s label others' s') {xs xs' : List CompressedBucketData}
    (perm : xs.Perm others) (perm' : xs'.Perm others') : Evolves xs s label xs' s' := by
  refine ⟨h.step.perm ?_ ?_ rfl rfl rfl rfl, h.indexed⟩
  · exact (perm.append_right _).map token
  · exact (perm'.append_right _).map token

lemma Valid.of_perm {xs : List CompressedBucketData} (valid : Valid others s)
    (perm : xs.Perm others) : Valid xs s :=
  (valid.evolves_move perm rfl rfl rfl rfl).valid valid

lemma token_of_unsaved (h : cbd.id = 0) : token cbd = (⟨cbd.number, cbd.time⟩, none) := by
  simp [token, h]

lemma token_of_saved (h : cbd.id ≠ 0) : token cbd = (⟨cbd.number, cbd.time⟩, some cbd.id) := by
  simp [token, h]

/-- A saved bucket is known on disk, under its second. -/
lemma Valid.known (valid : Valid (cbd :: rest) s) (hid' : cbd.id ≠ 0) :
    ∃ d b, s.diskBucketCache = some d ∧ d.knownBuckets.lookup cbd.id = some b ∧
      b.time = cbd.time ∧ s.saved cbd.id = some cbd.number := by
  have hm : (⟨cbd.number, cbd.time⟩, some cbd.id) ∈ (custody (cbd :: rest) s).held := by
    rw [← token_of_saved hid']
    exact mem_map_of_mem (.head _)
  have hs := valid.sound.saved hm
  obtain ⟨b, hb, hv⟩ := Option.bind_eq_some_iff.1 hs
  obtain ⟨n, hn, ht⟩ := Option.map_eq_some_iff.1 hv
  obtain ⟨d, hd, hl⟩ := Option.bind_eq_some_iff.1 hb
  injection ht with ha hc
  exact ⟨d, b, hd, hl, hc, ha ▸ hn⟩

lemma Valid.unknown_zero (valid : Valid others s) : s.known 0 = none := by
  refine Option.bind_eq_none_iff.2 fun d hd => lookup_eq_none.2 fun h => ?_
  exact absurd ((valid.indexed d hd).2 0 h).1 (lt_irrefl 0)

/-- The state after the disk cache has forgotten one id. -/
structure Forgets (s : Shared) (id : Int) (s' : Shared) : Prop where
  known : ∀ i, s'.known i = if i = id then none else s.known i
  indexed : Indexed s'
  queue : s'.historicBucketsToSend = s.historicBucketsToSend
  saved : s'.saved = s.saved
  came : s'.came = s.came

lemma Valid.forgets (valid : Valid others s) {id : Int} (disk : s.diskBucketCache = some d)
    (last : d'.lastBucketID = d.lastBucketID)
    (lookup : ∀ i, d'.knownBuckets.lookup i = if i = id then none else d.knownBuckets.lookup i) :
    Forgets s id { s with diskBucketCache := some d' } := by
  refine ⟨fun i => ?_, fun d'' hd'' => ?_, rfl, rfl, rfl⟩
  · simp [Shared.known, disk, lookup]
  · obtain rfl := Option.some.inj hd''
    obtain ⟨hl, his⟩ := valid.indexed d disk
    refine ⟨last ▸ hl, fun i hi => ?_⟩
    have hm : i ∈ d.knownBuckets := by
      rw [← lookup_isSome] at hi ⊢
      rw [lookup] at hi
      split_ifs at hi
      · cases hi
      · exact hi
    exact last ▸ his i hm

lemma Valid.forgets_erase (valid : Valid others s) (id : Int) :
    Forgets s id (s.diskCacheEraseWithLog id) := by
  cases hd : s.diskBucketCache with
  | none =>
    refine ⟨fun i => ?_, fun d h => ?_, rfl, rfl, rfl⟩
    · simp [Shared.known, Shared.diskCacheEraseWithLog, hd]
    · simp [diskCacheEraseWithLog, hd] at h
  | some d =>
    obtain ⟨hl, hk⟩ := d.eraseBucket_index id
    have hf := valid.forgets hd hl hk
    simpa only [diskCacheEraseWithLog, hd, Option.map_some] using hf

section

variable (valid : Valid (cbd :: rest) s)
include valid

/-- The holder drops a bucket together with what the disk cache has of it. -/
lemma Valid.evolves_forget (forgets : Forgets s cbd.id s') :
    Evolves (cbd :: rest) s (some cbd.number) rest s' := by
  have hs : s'.stored = update s.stored cbd.id none := by
    funext i
    by_cases hi : i = cbd.id
    · simp [stored, forgets.known, hi]
    · simp [stored, forgets.known, forgets.saved, hi]
  refine ⟨?_, forgets.indexed⟩
  by_cases hd : cbd.id = 0
  · refine drop (t := ⟨cbd.number, cbd.time⟩) ?_ ?_ forgets.came
    · rw [← token_of_unsaved hd]
      simp only [custody, forgets.queue, cons_append, map_cons, List.Perm.refl]
    · have hne : s.stored cbd.id = none := by
        simp [stored, hd, valid.unknown_zero]
      simp only [custody, hs]
      rw [← hne, update_eq_self]
  · refine erase (t := ⟨cbd.number, cbd.time⟩) ?_ hs forgets.came
    rw [← token_of_saved hd]
    simp only [custody, forgets.queue, cons_append, map_cons, List.Perm.refl]

lemma Valid.evolves_erase :
    Evolves (cbd :: rest) s (some cbd.number) rest (s.diskCacheEraseWithLog cbd.id) :=
  valid.evolves_forget (valid.forgets_erase cbd.id)

/-- The holder drops a bucket and nothing else happens. -/
lemma Valid.evolves_release :
    Evolves (cbd :: rest) s (if cbd.id = 0 then some cbd.number else none) rest s := by
  refine ⟨?_, valid.indexed⟩
  split_ifs with hi
  · refine drop (t := ⟨cbd.number, cbd.time⟩) ?_ rfl rfl
    rw [← token_of_unsaved hi]
    exact .refl _
  · have hh : (custody (cbd :: rest) s).held =
        (⟨cbd.number, cbd.time⟩, some cbd.id) :: (custody rest s).held := by
      rw [← token_of_saved hi]
      rfl
    exact .release (.of_eq hh) rfl rfl

end

lemma Valid.fresh (valid : Valid others s) (disk : s.diskBucketCache = some d) :
    d.lastBucketID + 1 ∉ d.knownBuckets := fun h => by
  have := ((valid.indexed d disk).2 _ h).2
  omega

/-- The state after the disk cache has learnt one id. -/
structure Learns (s : Shared) (id : Int) (n : Nat) (time : BitVec 32) (s' : Shared) : Prop where
  fresh : s.stored id = none
  nonzero : id ≠ 0
  stored : s'.stored = update s.stored id (some ⟨n, time⟩)
  indexed : Indexed s'

lemma Valid.learns (valid : Valid others s) {b : DiskCacheBucket}
    (disk : s.diskBucketCache = some d)
    (known : d'.knownBuckets = d.knownBuckets.insert (d.lastBucketID + 1) b)
    (last : d'.lastBucketID = d.lastBucketID + 1) (n : Nat) (t : Shared)
    (disk' : t.diskBucketCache = some d')
    (saved : t.saved = update s.saved (d.lastBucketID + 1) (some n)) :
    Learns s (d.lastBucketID + 1) n b.time t := by
  obtain ⟨hl, his⟩ := valid.indexed d disk
  have hne := lookup_eq_none.2 (valid.fresh disk)
  refine ⟨?_, by omega, ?_, fun d'' hd'' => ?_⟩
  · simp [Shared.stored, Shared.known, disk, hne]
  · funext i
    by_cases hi : i = d.lastBucketID + 1
    · subst hi
      simp [Shared.stored, Shared.known, disk', known, saved]
    · simp [Shared.stored, Shared.known, disk', disk, known, saved, hi]
  · obtain rfl := Option.some.inj (disk'.symm.trans hd'')
    refine ⟨by omega, fun i hi => ?_⟩
    rw [known] at hi
    rcases (mem_insert _).1 hi with rfl | hi
    · omega
    · have := his i hi
      omega

/-- The disk cache does something that leaves its index as it is. -/
lemma Valid.evolves_sameIndex (valid : Valid others s) (disk : s.diskBucketCache = some d)
    (same : d.SameIndex d') (tokens : others'.map token = others.map token) :
    Evolves others s none others' { s with diskBucketCache := some d' } := by
  refine ⟨.move ?_ (funext fun id => ?_) rfl, fun d'' hd'' => ?_⟩
  · simp [custody, tokens]
  · simp [custody, stored, Shared.known, disk, same.1]
  · obtain rfl := Option.some.inj hd''
    rw [same.1, same.2]
    exact valid.indexed d disk

variable (crc32c : List UInt8 → BitVec 32)

lemma Valid.evolves_put (valid : Valid (cbd :: rest) s)
    (hid' : cbd.id = 0) (now : Now) :
    Evolves (cbd :: rest) s none ((s.put crc32c now cbd).1 :: rest) (s.put crc32c now cbd).2 := by
  cases hd : s.diskBucketCache with
  | none => simpa only [put, hd] using valid.evolves_refl
  | some d =>
    rcases d.putBucket_index crc32c now cbd.time cbd.data with
      ⟨e, d', hp, hs⟩ | ⟨b, d', hp, ht, hk, hl⟩
    · simp only [put, hd, hp]
      exact valid.evolves_sameIndex hd hs rfl
    · simp only [put, hd, hp]
      have hr := valid.learns hd hk hl cbd.number { s with
        diskBucketCache := some d'
        saved := update s.saved (d.lastBucketID + 1) (some cbd.number) } rfl rfl
      rw [ht] at hr
      have hh : (custody (cbd :: rest) s).held =
          (⟨cbd.number, cbd.time⟩, none) :: (rest ++ s.historicBucketsToSend).map token := by
        rw [← token_of_unsaved hid']
        rfl
      refine ⟨.save hr.fresh (.of_eq hh) ?_ hr.stored rfl, hr.indexed⟩
      refine .of_eq (congrArg₂ cons (token_of_saved ?_) rfl)
      exact hr.nonzero

/-- Reading the data of a bucket back, whatever comes of it. -/
lemma Valid.evolves_read (valid : Valid (cbd :: rest) s)
    (disk : s.diskBucketCache = some d) :
    (∃ data d', d.getBucket crc32c cbd.id cbd.time = (.ok data, d') ∧
      Evolves (cbd :: rest) s none ({ cbd with data } :: rest)
        { s with diskBucketCache := some d' }) ∨
    ∃ e d', d.getBucket crc32c cbd.id cbd.time = (.error e, d') ∧
      Evolves (cbd :: rest) s (some cbd.number) rest { s with diskBucketCache := some d' } := by
  by_cases ha : cbd.id = 0
  · have hne : d.knownBuckets.lookup cbd.id = none := by
      rw [ha]
      simpa only [Shared.known, disk, Option.bind_some] using valid.unknown_zero
    refine .inr ⟨.notKnown cbd.id, d, by simp only [getBucket, hne], ?_⟩
    refine valid.evolves_forget (valid.forgets disk rfl fun i => ?_)
    split_ifs with hi
    · rw [hi, hne]
    · rfl
  · obtain ⟨d₁, b, hd, hk, ht, -⟩ := valid.known ha
    obtain rfl := Option.some.inj (disk.symm.trans hd)
    rcases d.getBucket_index crc32c hk ht with
      ⟨data, d', hgt, hs⟩ | ⟨e, d', hgt, hl, hf⟩
    · exact .inl ⟨data, d', hgt, valid.evolves_sameIndex disk hs rfl⟩
    · exact .inr ⟨e, d', hgt, valid.evolves_forget (valid.forgets disk hl hf)⟩

variable (numShards : Nat)

lemma Valid.evolves_readHistoric (valid : Valid others s)
    (read : s.readHistoricSecondLocked = some s') : Evolves others s none others s' := by
  cases hd : s.diskBucketCache with
  | none =>
    simp only [readHistoricSecondLocked, hd, Option.some.injEq] at read
    exact read ▸ valid.evolves_refl
  | some d =>
    rcases d.readNextTailSecond_index with ⟨time, id, d', ha, ht⟩ | ⟨-, hu⟩
    · simp only [readHistoricSecondLocked, hd, ha, Option.bind_eq_bind, Option.bind_some] at read
      rcases ht with ⟨hi, hs⟩ | ⟨b, hi, rfl, -, hk, hl⟩
      · rw [if_pos hi, Option.some.injEq] at read
        subst read
        exact valid.evolves_sameIndex hd hs rfl
      · subst hi
        have hr := valid.learns hd hk hl s.came { s with
          diskBucketCache := some d'
          saved := update s.saved (d.lastBucketID + 1) (some s.came) } rfl rfl
        rw [if_neg hr.nonzero, Option.some.injEq] at read
        subst read
        refine ⟨.recall b.time hr.fresh ?_ hr.stored rfl, hr.indexed⟩
        simp only [custody, map_append, map_cons, ← append_assoc]
        rw [token_of_saved hr.nonzero]
        exact perm_append_singleton _ _
    · exact absurd hu (valid.fresh hd)

namespace Shared

lemma oldestPosLoop_oldest :
    ∀ {i pos : Nat} (rest : List CompressedBucketData), queue.drop i = rest → pos < queue.length →
      (∀ j < i, (queue.getD pos default).time ≤ (queue.getD j default).time) →
      oldestPosLoop queue i pos rest < queue.length ∧ ∀ j < queue.length,
        (queue.getD (oldestPosLoop queue i pos rest) default).time ≤
          (queue.getD j default).time := by
  intro i pos rest
  induction rest generalizing i pos with
  | nil =>
    intro hd hp hm
    have hl := drop_eq_nil_iff.1 hd
    exact ⟨hp, fun j hj => hm j (Nat.lt_of_lt_of_le hj hl)⟩
  | cons e rest ih =>
    intro hd hp hm
    have hi : i < queue.length := by
      by_contra h
      rw [drop_eq_nil_of_le (Nat.le_of_not_lt h)] at hd
      cases hd
    rw [drop_eq_getElem_cons hi] at hd
    obtain ⟨he, hr⟩ := cons.inj hd
    have hgt : queue.getD i default = e := by
      rw [getD_eq_getElem _ _ hi, he]
    rw [oldestPosLoop]
    split_ifs with hlt
    · refine ih hr hi fun j hj => ?_
      rcases Nat.lt_succ_iff_lt_or_eq.1 hj with hj | rfl
      · rw [hgt]
        exact BitVec.le_trans (BitVec.le_of_lt hlt) (hm j hj)
      · exact BitVec.le_refl _
    · refine ih hr hp fun j hj => ?_
      rcases Nat.lt_succ_iff_lt_or_eq.1 hj with hj | rfl
      · exact hm j hj
      · rw [hgt]
        exact BitVec.not_lt.1 hlt

lemma oldestPos_oldest (nonempty : queue ≠ []) :
    oldestPos queue < queue.length ∧ ∀ j < queue.length,
      (queue.getD (oldestPos queue) default).time ≤ (queue.getD j default).time :=
  oldestPosLoop_oldest queue rfl (length_pos_iff.2 nonempty) fun _ h => absurd h (by omega)

lemma removeAt_perm {pos : Nat} (inside : pos < queue.length) :
    (queue.getD pos default :: removeAt queue pos).Perm queue := by
  obtain ⟨init, last, rfl⟩ := (eq_nil_or_concat queue).resolve_left
    (length_pos_iff.1 (Nat.zero_lt_of_lt inside))
  rw [concat_eq_append, length_append, length_singleton] at inside
  rw [concat_eq_append, removeAt, getLastD_concat]
  by_cases hl : pos = init.length
  · subst hl
    simp only [getD_eq_getElem?_getD, getElem?_concat_length, set_append_right _ _ (le_rfl),
      Nat.sub_self, set_cons_zero, dropLast_concat]
    exact (perm_append_singleton _ _).symm
  · have hin : pos < init.length := by omega
    rw [set_append_left _ _ hin, dropLast_concat, getD_append _ _ _ _ hin, getD_eq_getElem _ _ hin]
    calc init[pos] :: init.set pos last
        _ ~ init[pos] :: last :: init.eraseIdx pos := (set_perm_cons_eraseIdx hin last).cons _
        _ ~ last :: init[pos] :: init.eraseIdx pos := .swap ..
        _ ~ last :: init := (getElem_cons_eraseIdx_perm hin).cons _
        _ ~ init ++ [last] := (perm_append_singleton last init).symm

lemma popOldest_oldest (pop : s.popOldestHistoricSecondLocked nowUnix = some (some cbd, s')) :
    cbd ∈ s.historicBucketsToSend ∧ ∀ c ∈ s.historicBucketsToSend, cbd.time ≤ c.time := by
  simp only [popOldestHistoricSecondLocked] at pop
  split_ifs at pop with he
  · cases pop
  · cases pop
  · obtain ⟨_, -, ho⟩ := Option.bind_eq_some_iff.1 pop
    cases ho
    obtain ⟨hp, hold⟩ := oldestPos_oldest he
    constructor
    · rw [getD_eq_getElem _ _ hp]
      exact getElem_mem hp
    · intro c hc
      obtain ⟨j, hj, rfl⟩ := getElem_of_mem hc
      exact getD_eq_getElem _ default hj ▸ hold j hj

end Shared

lemma Valid.evolves_pop (valid : Valid others s) {popped : Option CompressedBucketData}
    (pop : s.popOldestHistoricSecondLocked nowUnix = some (popped, s')) :
    Evolves others s none (popped.toList ++ others) s' := by
  simp only [popOldestHistoricSecondLocked] at pop
  split_ifs at pop with ha
  · cases pop
    exact valid.evolves_refl
  · cases pop
    exact valid.evolves_refl
  · obtain ⟨s₂, hr, ho⟩ := Option.bind_eq_some_iff.1 pop
    cases ho
    generalize hc : s.historicBucketsToSend.getD _ default = cbd at hr ⊢
    have hp : (custody others s).held ~ (custody (cbd :: others) { s with
        historicBucketsToSend := removeAt s.historicBucketsToSend
          (oldestPos s.historicBucketsToSend)
        historicBucketsDataSize := s.historicBucketsDataSize - cbd.data.length }).held := by
      apply List.Perm.map token
      have hm := removeAt_perm (oldestPos_oldest ha).1
      rw [hc] at hm
      exact (hm.symm.append_left others).trans perm_middle
    have hv : Valid (cbd :: others) _ := ⟨valid.sound.of_perm hp.symm rfl rfl, valid.indexed⟩
    have he := hv.evolves_readHistoric hr
    exact ⟨he.step.perm hp (.refl _) rfl rfl rfl rfl, he.indexed⟩

/-- Why a bucket leaves the conveyor. -/
inductive Reason where
  /-- An aggregator answered with the discard flag. -/
  | discarded
  | outOfWindow
  | overDiskLimit
  /-- It was only in memory, and there is no room for it in the queue. -/
  | overMemoryLimit
  /-- The disk cache could not read it back. -/
  | unreadable
  /-- It was only in memory when the sends were cancelled. -/
  | cancelled
deriving Repr, DecidableEq

def Preprocessor.bucket : Preprocessor → Option CompressedBucketData
  | .idle => none
  | .saving cbd | .putting cbd | .queueing cbd => some cbd

def RecentSender.bucket : RecentSender → Option CompressedBucketData
  | .waiting => none
  | .received cbd | .saving cbd _ | .putting cbd _ | .sending cbd | .queueing cbd => some cbd

def HistoricSender.bucket : HistoricSender → Option CompressedBucketData
  | .idle => none
  | .looping cbd | .judging cbd _ _ | .reading cbd | .sending cbd | .pausing cbd => some cbd

def Eraser.bucket : Eraser → Option CompressedBucketData
  | .idle | .pausing => none
  | .judging cbd _ _ _ | .measuring cbd _ | .limiting cbd _ _ => some cbd

/-- A bucket is put on disk only when it is not there. -/
def Preprocessor.Fresh : Preprocessor → Prop
  | .putting cbd => cbd.id = 0
  | _ => True

def RecentSender.Fresh : RecentSender → Prop
  | .putting cbd _ => cbd.id = 0
  | _ => True

section Leaving

variable (crc32c : List UInt8 → BitVec 32) (numShards : Nat)

/-- Whether `appendHistoricBucketsToSend` throws the bucket out. -/
def Shared.leaving (s : Shared) (cbd : CompressedBucketData) : Option (Nat × Reason) :=
  if cbd.id = 0 ∧ s.overMemoryLimit numShards cbd = true then some (cbd.number, .overMemoryLimit)
  else none

def Preprocessor.leaving (s : Shared) : Preprocessor → Option (Nat × Reason)
  | .queueing cbd => s.leaving numShards cbd
  | _ => none

def RecentSender.leaving (i : Input) (s : Shared) : RecentSender → Option (Nat × Reason)
  | .sending cbd =>
    if ¬ cbd.time + maxShortWindow + futureWindow < i.nowUnix ∧ i.outcome = .response true then
      some (cbd.number, .discarded)
    else none
  | .queueing cbd => s.leaving numShards cbd
  | _ => none

def HistoricSender.leaving (i : Input) (s : Shared) : HistoricSender → Option (Nat × Reason)
  | .judging cbd nowUnix historicWindow =>
    if Conveyor.outOfWindow nowUnix cbd historicWindow then some (cbd.number, .outOfWindow)
    else none
  | .reading cbd =>
    match s.diskBucketCache with
    | none => some (cbd.number, .unreadable)
    | some d =>
      match (d.getBucket crc32c cbd.id cbd.time).1 with
      | .error _ => some (cbd.number, .unreadable)
      | .ok _ => none
  | .sending cbd =>
    if i.outcome = .response true then some (cbd.number, .discarded)
    else if i.outcome = .error true ∧ cbd.id = 0 then some (cbd.number, .cancelled)
    else none
  | .pausing cbd =>
    if i.cancelled = true ∧ cbd.id = 0 then some (cbd.number, .cancelled) else none
  | _ => none

def Eraser.leaving (s : Shared) : Eraser → Option (Nat × Reason)
  | .judging cbd nowUnix _ historicWindow =>
    if Conveyor.outOfWindow nowUnix cbd historicWindow then some (cbd.number, .outOfWindow)
    else none
  | .limiting cbd diskLimit diskUsed =>
    if diskLimit < diskUsed then some (cbd.number, .overDiskLimit) else s.leaving numShards cbd
  | _ => none

end Leaving

lemma wantsPut_unsaved (h : s.wantsPut cbd = true) : cbd.id = 0 := by
  simp only [wantsPut, Bool.and_eq_true, beq_iff_eq] at h
  exact h.1.2

lemma Valid.evolves_queueing (valid : Valid (cbd :: rest) s) :
    Evolves (cbd :: rest) s ((s.leaving numShards cbd).map Prod.fst) rest
      (s.appendHistoricBucketsToSend numShards cbd) := by
  have hq : ∀ c : CompressedBucketData, token c = token cbd → ∀ n : Int,
      Evolves (cbd :: rest) s none rest { s with
        historicBucketsToSend := s.historicBucketsToSend ++ [c],
        historicBucketsDataSize := n } := by
    intro c ht n
    refine ⟨.move ?_ rfl rfl, valid.indexed⟩
    simp only [custody, map_cons, map_append, ht, ← append_assoc]
    exact perm_append_singleton _ _
  rw [appendHistoricBucketsToSend, leaving]
  by_cases ho : s.overMemoryLimit numShards cbd = true
  · rw [if_pos ho]
    by_cases hi : cbd.id = 0
    · rw [if_pos hi, if_pos ⟨hi, ho⟩]
      simpa only [hi, if_true, Option.map_some] using valid.evolves_release
    · rw [if_neg hi, if_neg fun h => hi h.1]
      exact hq { cbd with data := [] } rfl s.historicBucketsDataSize
  · rw [if_neg ho, if_neg fun h => ho h.2]
    exact hq cbd rfl _

/-- A sender gives up when the sends are cancelled. -/
lemma Valid.evolves_cancelled (valid : Valid (cbd :: rest) s) {p : Prop} [Decidable p] (hp : p) :
    Evolves (cbd :: rest) s
      ((if p ∧ cbd.id = 0 then some (cbd.number, Reason.cancelled) else none).map Prod.fst)
      rest s := by
  have hr := valid.evolves_release
  simp only [hp, true_and]
  split_ifs at hr ⊢ <;> exact hr

section Goroutines

variable (crc32c : List UInt8 → BitVec 32) (numShards : Nat) (i : Input)

lemma Preprocessor.evolves (p : Preprocessor) (valid : Valid (p.bucket.toList ++ rest) s)
    (fresh : p.Fresh) :
    Evolves (p.bucket.toList ++ rest) s ((p.leaving numShards s).map Prod.fst)
      ((p.step crc32c numShards i s).1.bucket.toList ++ rest)
      (p.step crc32c numShards i s).2 ∧ (p.step crc32c numShards i s).1.Fresh := by
  cases p with
  | idle => exact ⟨valid.evolves_refl, trivial⟩
  | saving cbd =>
    simp only [Preprocessor.step]
    split_ifs with hw
    · exact ⟨valid.evolves_refl, wantsPut_unsaved hw⟩
    · exact ⟨valid.evolves_refl, trivial⟩
  | putting cbd => exact ⟨valid.evolves_put crc32c fresh i.now, trivial⟩
  | queueing cbd => exact ⟨valid.evolves_queueing numShards, trivial⟩

lemma RecentSender.bucket_afterSave (cbd : CompressedBucketData) (before : Bool) :
    (afterSave cbd before).bucket = some cbd ∧ (afterSave cbd before).Fresh := by
  cases before <;> exact ⟨rfl, trivial⟩

lemma RecentSender.evolves (p : RecentSender) (valid : Valid (p.bucket.toList ++ rest) s)
    (fresh : p.Fresh) :
    Evolves (p.bucket.toList ++ rest) s ((p.leaving numShards i s).map Prod.fst)
      ((p.step crc32c numShards i s).1.bucket.toList ++ rest)
      (p.step crc32c numShards i s).2 ∧ (p.step crc32c numShards i s).1.Fresh := by
  cases p with
  | waiting => exact ⟨valid.evolves_refl, trivial⟩
  | received cbd =>
    simp only [RecentSender.step]
    split_ifs <;> exact ⟨valid.evolves_refl, trivial⟩
  | saving cbd before =>
    simp only [RecentSender.step]
    split_ifs with hw
    · exact ⟨valid.evolves_refl, wantsPut_unsaved hw⟩
    · obtain ⟨hb, hf⟩ := bucket_afterSave cbd before
      rw [hb]
      exact ⟨valid.evolves_refl, hf⟩
  | putting cbd before =>
    obtain ⟨hb, hf⟩ := bucket_afterSave (s.put crc32c i.now cbd).1 before
    simp only [RecentSender.step]
    rw [hb]
    exact ⟨valid.evolves_put crc32c fresh i.now, hf⟩
  | sending cbd =>
    have hs : sendRecent i cbd = true ↔
        ¬cbd.time + maxShortWindow + futureWindow < i.nowUnix ∧ i.outcome = .response true := by
      rw [sendRecent]
      split_ifs with hl <;> simp [hl]
    simp only [RecentSender.step, RecentSender.leaving, ← hs]
    split_ifs
    · exact ⟨valid.evolves_erase, trivial⟩
    · exact ⟨valid.evolves_refl, trivial⟩
  | queueing cbd => exact ⟨valid.evolves_queueing numShards, trivial⟩

lemma HistoricSender.evolves (p : HistoricSender) {p' : HistoricSender}
    (valid : Valid (p.bucket.toList ++ rest) s) (step : p.step crc32c i s = some (p', s')) :
    Evolves (p.bucket.toList ++ rest) s ((p.leaving crc32c i s).map Prod.fst)
      (p'.bucket.toList ++ rest) s' := by
  cases p with
  | idle =>
    obtain ⟨⟨popped, s₁⟩, hp, hs⟩ := Option.bind_eq_some_iff.1 step
    have he : Evolves rest s none (popped.toList ++ rest) s₁ := Valid.evolves_pop valid hp
    cases popped <;> cases hs <;> exact he
  | looping cbd =>
    cases step
    exact valid.evolves_refl
  | judging cbd nowUnix historicWindow =>
    simp only [HistoricSender.step, HistoricSender.leaving] at step ⊢
    split_ifs at step ⊢ <;> cases step
    · exact valid.evolves_erase
    · exact valid.evolves_refl
    · exact valid.evolves_refl
  | reading cbd =>
    have hv := valid
    cases hd : s.diskBucketCache with
    | none =>
      have hi : cbd.id = 0 := by
        by_contra hi
        obtain ⟨d, -, hd', -⟩ := hv.known hi
        cases hd.symm.trans hd'
      have hr := hv.evolves_release
      rw [if_pos hi] at hr
      simp only [HistoricSender.step, HistoricSender.leaving, hd] at step ⊢
      cases step
      exact hr
    | some d =>
      rcases hv.evolves_read crc32c hd with
        ⟨data, d', hgt, he⟩ | ⟨e, d', hgt, he⟩
      all_goals
        simp only [HistoricSender.step, HistoricSender.leaving, hd, hgt] at step ⊢
        cases step
        exact he
  | sending cbd =>
    simp only [HistoricSender.step, HistoricSender.leaving] at step ⊢
    rcases ho : i.outcome with - | (_ | _) | (_ | _) <;> rw [ho] at step <;> cases step
    · exact valid.evolves_refl
    · exact valid.evolves_refl
    · exact Valid.evolves_cancelled valid rfl
    · exact valid.evolves_refl
    · exact valid.evolves_erase
  | pausing cbd =>
    simp only [HistoricSender.step, HistoricSender.leaving] at step ⊢
    cases hc : i.cancelled <;> rw [hc] at step <;> cases step
    · exact valid.evolves_refl
    · exact Valid.evolves_cancelled valid rfl

lemma Eraser.evolves (p : Eraser) {p' : Eraser} (valid : Valid (p.bucket.toList ++ rest) s)
    (step : p.step numShards i s = some (p', s')) :
    Evolves (p.bucket.toList ++ rest) s ((p.leaving numShards s).map Prod.fst)
      (p'.bucket.toList ++ rest) s' := by
  cases p with
  | idle =>
    obtain ⟨⟨popped, s₁⟩, hp, hs⟩ := Option.bind_eq_some_iff.1 step
    have he : Evolves rest s none (popped.toList ++ rest) s₁ := Valid.evolves_pop valid hp
    cases popped <;> cases hs <;> exact he
  | judging cbd nowUnix diskLimit historicWindow =>
    simp only [Eraser.step, Eraser.leaving] at step ⊢
    split_ifs at step ⊢ <;> cases step
    · exact valid.evolves_erase
    · exact valid.evolves_refl
  | measuring cbd diskLimit =>
    cases step
    exact valid.evolves_refl
  | limiting cbd diskLimit diskUsed =>
    simp only [Eraser.step, Eraser.leaving] at step ⊢
    split_ifs at step ⊢ <;> cases step
    · exact valid.evolves_erase
    · exact valid.evolves_queueing numShards
  | pausing =>
    simp only [Eraser.step] at step
    split_ifs at step
    cases step
    exact valid.evolves_refl

end Goroutines

namespace State

/-- The buckets in the hands of the goroutines. -/
def carried (s : State) : List CompressedBucketData :=
  s.preprocessor.bucket.toList ++ (s.recent.flatMap (·.bucket.toList) ++
    (s.historic.flatMap (·.bucket.toList) ++ s.eraser.bucket.toList))

/-- Every bucket in memory. -/
def held (s : State) : List CompressedBucketData := s.carried ++ s.shared.historicBucketsToSend

def OnDisk (s : State) (n : Nat) : Prop :=
  ∃ id, (s.shared.known id).isSome ∧ s.shared.saved id = some n

end State

/-- What an action makes leave the conveyor, and why. -/
def leaving (crc32c : List UInt8 → BitVec 32) (numShards : Nat) (s : State) :
    Action → Option (Nat × Reason)
  | .preprocessor _ => s.preprocessor.leaving numShards s.shared
  | .recent j i => (s.recent[j]?).bind (·.leaving numShards i s.shared)
  | .historic j i => (s.historic[j]?).bind (·.leaving crc32c i s.shared)
  | .eraser _ => s.eraser.leaving numShards s.shared
  | _ => none

/-- All that leaves along a run. -/
def left (crc32c : List UInt8 → BitVec 32) (numShards : Nat) :
    State → List Action → List (Nat × Reason)
  | _, [] => []
  | s, a :: actions =>
    (leaving crc32c numShards s a).toList ++
      (step crc32c numShards s a).elim [] fun s => left crc32c numShards s actions

structure Safe (s : State) : Prop where
  valid : Valid s.carried s.shared
  preprocessor : s.preprocessor.Fresh
  recent : ∀ r ∈ s.recent, r.Fresh

lemma flatMap_set_perm {α β : Type*} (f : α → List β) {xs : List α} {x : α} (h : xs[j]? = some x) :
    ∃ rest, xs.flatMap f ~ f x ++ rest ∧ ∀ y, (xs.set j y).flatMap f ~ f y ++ rest := by
  obtain ⟨hj, rfl⟩ := List.getElem?_eq_some_iff.1 h
  exact ⟨(xs.eraseIdx j).flatMap f, ((getElem_cons_eraseIdx_perm hj).flatMap_right f).symm,
    fun y => (set_perm_cons_eraseIdx hj y).flatMap_right f⟩

lemma perm_middle_of_perm {α : Type*} {xs x rest : List α} (h : xs ~ x ++ rest) (ys zs : List α) :
    ys ++ (xs ++ zs) ~ x ++ (rest ++ (ys ++ zs)) := by
  rw [← append_assoc x]
  exact (perm_append_comm_assoc ys xs zs).trans (h.append_right _)

section Steps

variable {st st' : State}

/-- What everyone but one recent sender carries. -/
lemma carried_recent {r : RecentSender} (h : st.recent[j]? = some r) :
    ∃ rest, st.carried ~ r.bucket.toList ++ rest ∧ ∀ (r' : RecentSender) (shared : Shared),
      State.carried { st with shared, recent := st.recent.set j r' } ~
        r'.bucket.toList ++ rest := by
  obtain ⟨rest, hb, ha⟩ := flatMap_set_perm (·.bucket.toList) h
  exact ⟨_, perm_middle_of_perm hb _ _, fun r' _ => perm_middle_of_perm (ha r') _ _⟩

/-- A new bucket is in the hands of the preprocessor or of one recent sender. -/
lemma sendToSenders_carried (st : State) (cbd : CompressedBucketData) (receiver : Option Nat)
    (idle : st.preprocessor = .idle) :
    (sendToSenders st cbd receiver).carried ~ cbd :: st.carried ∧
      (sendToSenders st cbd receiver).shared = st.shared ∧
      (sendToSenders st cbd receiver).preprocessor.Fresh ∧
      ∀ r ∈ (sendToSenders st cbd receiver).recent, r ∈ st.recent ∨ r = .received cbd := by
  have hp : State.carried { st with preprocessor := .saving cbd } ~ cbd :: st.carried := by
    simp only [State.carried, idle]
    exact .refl _
  cases receiver with
  | none => exact ⟨hp, rfl, trivial, fun r hr => .inl hr⟩
  | some j =>
    simp only [sendToSenders]
    split_ifs with hy
    · obtain ⟨rest, hb, ha⟩ := carried_recent hy.2
      refine ⟨?_, rfl, ?_, fun r hr => mem_or_eq_of_mem_set hr⟩
      · exact (ha (.received cbd) st.shared).trans (hb.symm.cons cbd)
      · simp only [idle, Preprocessor.Fresh]
    · exact ⟨hp, rfl, trivial, fun r hr => .inl hr⟩

lemma Valid.evolves_arrive {others : List CompressedBucketData} {s : Shared}
    (valid : Valid others s) (time : BitVec 32) (data : List UInt8) :
    Evolves others s none ({ number := s.came, time := time, data := data } :: others)
      { s with came := s.came + 1 } :=
  ⟨.arrive time (.of_eq (congrArg₂ cons (token_of_unsaved rfl) rfl)) rfl rfl, valid.indexed⟩

variable (crc32c : List UInt8 → BitVec 32) (numShards : Nat)

/-- Every action is a step of custody. -/
lemma step_evolves (safe : Safe st) (taken : step crc32c numShards st a = some st') :
    Evolves st.carried st.shared ((leaving crc32c numShards st a).map Prod.fst)
      st'.carried st'.shared ∧ st'.preprocessor.Fresh ∧ ∀ r ∈ st'.recent, r.Fresh := by
  obtain ⟨valid, hp, hc⟩ := safe
  cases a with
  | configure config | disableNewSends =>
    cases taken
    exact ⟨valid.evolves_move (.refl _) rfl rfl rfl rfl, hp, hc⟩
  | flush time originalSize compressed receiver =>
    simp only [step] at taken
    split_ifs at taken with hi
    · cases taken
      obtain ⟨hd, hs, hf, hm⟩ := sendToSenders_carried
        { st with shared := { st.shared with came := st.shared.came + 1 } }
        { number := st.shared.came, time := time,
          data := ByteCodec.putUint32 originalSize ++ compressed } receiver hi
      refine ⟨?_, hf, fun r hr => ?_⟩
      · rw [hs]
        exact (valid.evolves_arrive time _).perm (.refl _) hd
      · rcases hm r hr with hr | rfl
        · exact hc r hr
        · trivial
    · cases taken
      exact ⟨valid.evolves_refl, hp, hc⟩
  | preprocessor i =>
    cases taken
    obtain ⟨hv, hf⟩ := st.preprocessor.evolves crc32c numShards i valid hp
    exact ⟨hv, hf, hc⟩
  | recent j i =>
    simp only [step] at taken
    cases hj : st.recent[j]? with
    | none =>
      simp only [hj] at taken
      cases taken
      simp only [leaving, hj]
      exact ⟨valid.evolves_refl, hp, hc⟩
    | some r =>
      simp only [hj] at taken
      cases taken
      obtain ⟨rest, hb, ha⟩ := carried_recent hj
      obtain ⟨hv, hf⟩ := r.evolves crc32c numShards i (valid.of_perm hb.symm)
        (hc r (mem_of_getElem? hj))
      simp only [leaving, hj]
      refine ⟨hv.perm hb (ha _ _), hp, fun r' hr' => ?_⟩
      rcases mem_or_eq_of_mem_set hr' with hr' | rfl
      · exact hc r' hr'
      · exact hf
  | historic j i =>
    simp only [step] at taken
    cases hj : st.historic[j]? with
    | none =>
      simp only [hj] at taken
      cases taken
      simp only [leaving, hj]
      exact ⟨valid.evolves_refl, hp, hc⟩
    | some r =>
      simp only [hj] at taken
      obtain ⟨⟨r', shared⟩, hr, hst'⟩ := Option.bind_eq_some_iff.1 taken
      cases hst'
      obtain ⟨rest, hb, ha⟩ := flatMap_set_perm (·.bucket.toList) hj
      simp only [State.carried, leaving, hj,
        ← append_assoc st.preprocessor.bucket.toList] at valid ⊢
      have hv := r.evolves crc32c i (valid.of_perm (perm_middle_of_perm hb _ _).symm) hr
      exact ⟨hv.perm (perm_middle_of_perm hb _ _) (perm_middle_of_perm (ha _) _ _), hp, hc⟩
  | eraser i =>
    obtain ⟨⟨e, shared⟩, he, hst'⟩ := Option.bind_eq_some_iff.1 taken
    cases hst'
    simp only [State.carried, ← append_assoc] at valid ⊢
    have hv := st.eraser.evolves numShards i (valid.of_perm perm_append_comm) he
    exact ⟨hv.perm perm_append_comm perm_append_comm, hp, hc⟩

lemma step_safe (safe : Safe st) (taken : step crc32c numShards st a = some st') : Safe st' := by
  obtain ⟨he, hp, hr⟩ := step_evolves crc32c numShards safe taken
  exact ⟨he.valid safe.valid, hp, hr⟩

lemma count_label (o : Option (Nat × Reason)) (n : Nat) :
    (o.toList.map Prod.fst).count n = [o.map Prod.fst].count (some n) := by
  cases o <;> simp [count_singleton]

/-- A run of the conveyor is a run of custody in which leave the buckets that `left` tells. -/
lemma run_custody {actions : List Action} (safe : Safe st)
    (hrun : run crc32c numShards st actions = some st') :
    Safe st' ∧ ∃ labels, Custody.Run (custody st.carried st.shared) labels
      (custody st'.carried st'.shared) ∧
      ∀ n, ((left crc32c numShards st actions).map Prod.fst).count n = labels.count (some n) := by
  induction actions generalizing st with
  | nil =>
    cases hrun
    exact ⟨safe, [], .nil _, fun n => rfl⟩
  | cons a actions ih =>
    obtain ⟨st₁, hs, hr⟩ := Option.bind_eq_some_iff.1 hrun
    obtain ⟨hf, labels, hc, hn⟩ := ih (step_safe crc32c numShards safe hs) hr
    have ha := (step_evolves crc32c numShards safe hs).1
    refine ⟨hf, _ :: labels, .cons ha.step hc, fun n => ?_⟩
    rw [left, hs, Option.elim_some, map_append, count_append, hn, count_label,
      ← count_append, singleton_append]

end Steps

lemma readTimes_custody {s s' : Shared} {n : Nat} (valid : Valid [] s)
    (read : readTimes n s = some s') :
    Valid [] s' ∧ ∃ k, Custody.Run (custody [] s) (List.replicate k none) (custody [] s') := by
  induction n generalizing s with
  | zero =>
    cases read
    exact ⟨valid, 0, .nil _⟩
  | succ n ih =>
    obtain ⟨s₁, hf, hr⟩ := Option.bind_eq_some_iff.1 read
    have he := valid.evolves_readHistoric hf
    obtain ⟨hv, k, hrun⟩ := ih (he.valid valid) hr
    exact ⟨hv, k + 1, .cons he.step hrun⟩

lemma start_custody {config : Config} {folder : Option Folder} {s : State}
    (hstart : start config folder = some s) :
    Safe s ∧ ∃ k, Custody.Run {} (List.replicate k none) (custody s.carried s.shared) := by
  obtain ⟨shared, ha, hs⟩ := Option.bind_eq_some_iff.1 hstart
  cases hs
  have he : custody [] {
      config := config
      diskBucketCache := folder.map makeDiscCacheShard } = {} := by
    cases folder <;> rfl
  have hv : Valid [] {
      config := config
      diskBucketCache := folder.map makeDiscCacheShard } := by
    constructor
    · rw [he]
      exact Custody.sound_empty
    · intro d hd
      obtain ⟨f, -, rfl⟩ := Option.map_eq_some_iff.1 hd
      exact ⟨le_refl _, fun id hi => absurd hi (notMem_empty id)⟩
  obtain ⟨hvl', k, hrun⟩ := readTimes_custody hv ha
  rw [he] at hrun
  refine ⟨⟨hvl', trivial, fun r hr => ?_⟩, k, hrun⟩
  rw [eq_of_mem_replicate hr]
  trivial

/-- A bucket is in memory once, or it is only on disk, or it left once. -/
def Placed (s : State) (left : List (Nat × Reason)) (n : Nat) : Prop :=
  (s.held.map (·.number)).count n = 1 ∧ n ∉ left.map Prod.fst ∨
  n ∉ s.held.map (·.number) ∧ s.OnDisk n ∧ n ∉ left.map Prod.fst ∨
  n ∉ s.held.map (·.number) ∧ ¬ s.OnDisk n ∧ (left.map Prod.fst).count n = 1

lemma custody_numbers (s : State) :
    ((custody s.carried s.shared).held.map fun x => x.1.number) = s.held.map (·.number) := by
  simp only [custody, map_map]
  rfl

lemma custody_stored (s : State) (n : Nat) :
    (custody s.carried s.shared).Stored n ↔ s.OnDisk n := by
  constructor
  · rintro ⟨id, t, ht, rfl⟩
    obtain ⟨b, hb, hs⟩ := Option.bind_eq_some_iff.1 ht
    obtain ⟨m, hm, rfl⟩ := Option.map_eq_some_iff.1 hs
    exact ⟨id, Option.isSome_of_mem hb, hm⟩
  · rintro ⟨id, hk, hs⟩
    obtain ⟨b, hb⟩ := Option.isSome_iff_exists.1 hk
    exact ⟨id, ⟨n, b.time⟩, by simp only [custody, stored, hb, hs]; rfl, rfl⟩

lemma held_onDisk {s : State} (sound : Sound (custody s.carried s.shared))
    {cbd : CompressedBucketData} (held : cbd ∈ s.held) : cbd.id ≠ 0 ↔ s.OnDisk cbd.number := by
  rw [← custody_stored]
  have hm : token cbd ∈ (custody s.carried s.shared).held := mem_map_of_mem held
  constructor
  · intro hi
    rw [token_of_saved hi] at hm
    exact ⟨cbd.id, _, sound.saved hm, rfl⟩
  · rintro ⟨id, t, ht, hn⟩ hi
    rw [token_of_unsaved hi] at hm
    exact sound.unsaved hm ht hn

/-- No bucket is lost: from any folder and after any actions, with any answers and any faults
of the disk, each bucket that came is in memory once and has not left, or only on disk and has
not left, or has left once, for one of the reasons. The buckets in memory know whether they
are on disk, and the one that is popped is the oldest of the queue. -/
theorem buckets_kept {config : Config}
    {folder : Option Folder} {s₀ s : State} {actions : List Action}
    (hstart : start config folder = some s₀)
    (hrun : run crc32c numShards s₀ actions = some s) :
    (∀ n < s.shared.came, Placed s (left crc32c numShards s₀ actions) n) ∧
    (∀ cbd ∈ s.held, cbd.id ≠ 0 ↔ s.OnDisk cbd.number) ∧
    ∀ nowUnix cbd shared, s.shared.popOldestHistoricSecondLocked nowUnix = some (some cbd, shared) →
      cbd ∈ s.shared.historicBucketsToSend ∧
        ∀ c ∈ s.shared.historicBucketsToSend, cbd.time ≤ c.time := by
  obtain ⟨hsf₀, k, ht⟩ := start_custody hstart
  obtain ⟨hf, labels, hc, ha⟩ := run_custody crc32c numShards hsf₀ hrun
  have hs := hf.valid.sound
  refine ⟨fun n hn => ?_, fun cbd => held_onDisk hs, fun _ _ _ => popOldest_oldest⟩
  have hp := (ht.append hc).present_or_left Custody.sound_empty hn (.inl (Nat.zero_le n))
  have hl : (replicate k none ++ labels).count (some n) =
      ((left crc32c numShards s₀ actions).map Prod.fst).count n := by
    rw [count_append, ha, count_eq_zero.2, Nat.zero_add]
    intro h
    cases eq_of_mem_replicate h
  rw [← count_eq_zero, hl, State.Present, State.Held, custody_numbers, custody_stored] at hp
  rw [Placed, ← count_eq_zero]
  rcases hp with ⟨hprs, hv⟩ | ⟨hab, ho⟩
  · by_cases hh : n ∈ s.held.map (·.number)
    · have hd : (s.held.map (·.number)).Nodup := custody_numbers s ▸ hs.nodup
      exact .inl ⟨count_eq_one_of_mem hd hh, hv⟩
    · exact .inr (.inl ⟨hh, hprs.resolve_left hh, hv⟩)
  · exact .inr (.inr ⟨fun h => hab (.inl h), fun h => hab (.inr h), ho⟩)

lemma start_nothing (config : Config) (folder : Option Folder) (h : ∀ f ∈ folder, f.files = ∅) :
    start config folder = some { shared := {
      config := config
      diskBucketCache := folder.map DiskCacheShard.makeDiscCacheShard } } := by
  have hr : readHistoricSecondLocked {
      config := config
      diskBucketCache := folder.map makeDiscCacheShard } = some {
      config := config
      diskBucketCache := folder.map makeDiscCacheShard } := by
    cases folder with
    | none => rfl
    | some f =>
      have hw : (makeDiscCacheShard f).waitingFilesTail = [] := by
        rw [makeDiscCacheShard, h f rfl]
        exact mergeSort_nil
      have ht : (makeDiscCacheShard f).tailTurn = .done 0 0 (makeDiscCacheShard f) := by
        rw [tailTurn, hw]
        rfl
      simp [readHistoricSecondLocked, readNextTailSecond_done ht]
  have ha : ∀ n s, s.readHistoricSecondLocked = some s → readTimes n s = some s := by
    intro n
    induction n with
    | zero => exact fun _ _ => rfl
    | succ n ih =>
      intro s hs
      rw [readTimes, hs, Option.bind_eq_bind, Option.bind_some, ih s hs]
  rw [start, ha _ _ hr]
  rfl

/-- What a goroutine sees at a second when nothing is cancelled. -/
def inputAt (nowUnix : BitVec 32) (outcome : SendOutcome) : Input :=
  ⟨⟨"", 0⟩, nowUnix, outcome, false⟩

/-- A bucket is taken by a recent sender, which saves it first and is about to send it. -/
def savedThenSent : List Action := [.flush 100 1 [7] (some 0), .recent 0 (inputAt 101 .noReplica),
    .recent 0 (inputAt 101 .noReplica), .recent 0 (inputAt 101 .noReplica)]

theorem buckets_kept_saved : ∃ s₀ s : State, start ⟨1000, 1, true⟩ (some {}) = some s₀ ∧
    run (fun _ => 0) 1 s₀ savedThenSent = some s ∧
    Placed s (left (fun _ => 0) 1 s₀ savedThenSent) 0 := by
  have hstart := start_nothing ⟨1000, 1, true⟩ (some {}) fun f hf => by cases hf; rfl
  refine ⟨_, _, hstart, rfl, ?_⟩
  exact (buckets_kept (fun _ => 0) 1 hstart rfl).1 0 (by decide +kernel)

/-- A bucket that nobody took goes to the queue; a historic sender pops it, and its request
ends with `context.Canceled`. -/
def queuedThenCancelled : List Action :=
  [.flush 100 1 [7] none, .preprocessor (inputAt 101 .noReplica),
    .preprocessor (inputAt 101 .noReplica), .historic 0 (inputAt 101 .noReplica),
    .historic 0 (inputAt 101 .noReplica), .historic 0 (inputAt 101 .noReplica),
    .historic 0 (inputAt 101 (.error true))]

/-- A bucket can be on disk while it is being sent, and can leave without a response, in the
window and under every limit. -/
theorem buckets_not_exclusive : (∃ s₀ s : State, start ⟨1000, 1, true⟩ (some {}) = some s₀ ∧
      run (fun _ => 0) 1 s₀ savedThenSent = some s ∧
      s.recent[0]? = some (.sending ⟨0, 1, 100, [1, 0, 0, 0, 7]⟩) ∧ s.OnDisk 0) ∧
    ∃ s₀ s : State, start ⟨1000, 1, true⟩ none = some s₀ ∧
      run (fun _ => 0) 1 s₀ queuedThenCancelled = some s ∧
      s.held = [] ∧ ¬ s.OnDisk 0 ∧
      left (fun _ => 0) 1 s₀ queuedThenCancelled = [(0, .cancelled)] := by
  constructor
  · have hstart := start_nothing ⟨1000, 1, true⟩ (some {}) fun f hf => by cases hf; rfl
    exact ⟨_, _, hstart, rfl, rfl, 1, rfl, rfl⟩
  · have hstart := start_nothing ⟨1000, 1, true⟩ none fun f hf => by cases hf
    refine ⟨_, _, hstart, rfl, rfl, ?_, rfl⟩
    rintro ⟨id, hk, -⟩
    cases hk

end Conveyor
