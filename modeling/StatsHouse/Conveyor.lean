import StatsHouse.DiskCache

/-!
# The conveyor from the preprocessor to the aggregators

What the goroutines of one agent shard do with a compressed bucket: the preprocessor hands it
to a recent sender or, when none is ready, to the historic queue; recent senders try once;
historic senders take the oldest bucket of the queue and try for ever; the eraser throws out
what is too old or over the disk limit. A step is what one goroutine does between two points
where another one can get in: a section under the shard's lock, a call of the disk cache, or
the outcome of a request.

Which bucket is which cannot be told from its fields, so every bucket carries a number, and
the shard keeps which number a disk id stands for. The source has neither; no decision
depends on them.
-/

namespace Conveyor

open ByteCodec DiskCache

def maxShortWindow : BitVec 32 := 5

def futureWindow : BitVec 32 := 4

/-- `MaxShortWindow + FutureWindow + InsertDelay + AgentAggregatorDelay`, in seconds; as many
recent senders run. -/
def maxConveyorDelay : Nat := 5 + 4 + 10 + 5

def maxHistorySendStreams : Nat := 24

def maxHistoricBucketsMemorySize : Nat := 50 <<< 20

def maxFutureSecondsOnDisk : BitVec 32 := 122

structure CompressedBucketData where
  number : Nat := 0
  /-- In the disk cache, 0 if it is not there. -/
  id : Int := 0
  time : BitVec 32 := 0
  data : List UInt8 := []
deriving Repr, DecidableEq, Inhabited

structure Config where
  historicWindow : BitVec 64
  maxHistoricDiskSize : Int
  saveSecondsImmediately : Bool
deriving Repr, DecidableEq

structure Shared where
  config : Config
  /-- Whether the channel `BucketsToSend` is still open. It has no buffer. -/
  bucketsToSend : Bool := true
  diskBucketCache : Option DiskCacheShard
  historicBucketsToSend : List CompressedBucketData := []
  historicBucketsDataSize : Int := 0
  /-- Buckets that came so far. -/
  came : Nat := 0
  saved : Int → Option Nat := fun _ => none

namespace Shared

def diskCacheEraseWithLog (s : Shared) (id : Int) : Shared :=
  { s with diskBucketCache := s.diskBucketCache.map fun d => (d.eraseBucket id).2 }

/-- The first half of `diskCachePutWithLog`: whether the bucket is to be put at all. -/
def wantsPut (s : Shared) (cbd : CompressedBucketData) : Bool :=
  s.diskBucketCache.isSome && cbd.id == 0 && decide (0 < s.config.maxHistoricDiskSize)

/-- The second half of `diskCachePutWithLog`. -/
def put (crc32c : List UInt8 → BitVec 32) (s : Shared) (now : Now) (cbd : CompressedBucketData) :
    CompressedBucketData × Shared :=
  match s.diskBucketCache with
  | none => (cbd, s)
  | some d =>
    match d.putBucket crc32c now cbd.time cbd.data with
    | (.error _, d) => (cbd, { s with diskBucketCache := some d })
    | (.ok id, d) =>
      ({ cbd with id }, { s with
        diskBucketCache := some d
        saved := Function.update s.saved id (some cbd.number) })

def overMemoryLimit (numShards : Nat) (s : Shared) (cbd : CompressedBucketData) : Bool :=
  decide (((maxHistoricBucketsMemorySize / numShards : Nat) : Int) <
    s.historicBucketsDataSize + cbd.data.length)

def appendHistoricBucketsToSend (numShards : Nat) (s : Shared) (cbd : CompressedBucketData) :
    Shared :=
  if s.overMemoryLimit numShards cbd then
    -- without its data the bucket can only come back from disk
    if cbd.id = 0 then s
    else { s with historicBucketsToSend := s.historicBucketsToSend ++ [{ cbd with data := [] }] }
  else
    { s with
      historicBucketsDataSize := s.historicBucketsDataSize + cbd.data.length
      historicBucketsToSend := s.historicBucketsToSend ++ [cbd] }

/-- `none` is a panic. -/
def readHistoricSecondLocked (s : Shared) : Option Shared :=
  match s.diskBucketCache with
  | none => some s
  | some d => do
    let ((sec, id), d) ← d.readNextTailSecond
    if id = 0 then some { s with diskBucketCache := some d }
    else some { s with
      diskBucketCache := some d
      historicBucketsToSend :=
        s.historicBucketsToSend ++ [{ number := s.came, id := id, time := sec }]
      came := s.came + 1
      saved := Function.update s.saved id (some s.came) }

/-- The loop over the queue, from position `i` on. -/
def oldestPosLoop (queue : List CompressedBucketData) : Nat → Nat → List CompressedBucketData → Nat
  | _, oldestPos, [] => oldestPos
  | i, oldestPos, e :: rest =>
    oldestPosLoop queue (i + 1)
      (if e.time < (queue.getD oldestPos default).time then i else oldestPos) rest

def oldestPos (queue : List CompressedBucketData) : Nat := oldestPosLoop queue 0 0 queue

/-- The last element takes the place of the removed one. -/
def removeAt (queue : List CompressedBucketData) (pos : Nat) : List CompressedBucketData :=
  (queue.set pos (queue.getLastD default)).dropLast

/-- The outer `none` is a panic, the inner one that there is nothing to send now. -/
def popOldestHistoricSecondLocked (s : Shared) (nowUnix : BitVec 32) :
    Option (Option CompressedBucketData × Shared) :=
  if s.historicBucketsToSend = [] then some (none, s)
  else
    let pos := oldestPos s.historicBucketsToSend
    let cbd := s.historicBucketsToSend.getD pos default
    if nowUnix ≤ cbd.time ∧ cbd.time ≤ nowUnix + maxFutureSecondsOnDisk then some (none, s)
    else
      let s := { s with
        historicBucketsToSend := removeAt s.historicBucketsToSend pos
        historicBucketsDataSize := s.historicBucketsDataSize - cbd.data.length }
      if s.historicBucketsDataSize < 0 then none
      else do
        let s ← s.readHistoricSecondLocked
        some (some cbd, s)

def historicBucketsDataSizeDisk (s : Shared) : Int × Int :=
  match s.diskBucketCache with
  | none => (0, 0)
  | some d => d.totalFileSizes

end Shared

/-- The test of `checkOutOfWindow`. -/
def outOfWindow (nowUnix : BitVec 32) (cbd : CompressedBucketData) (historicWindow : BitVec 32) :
    Bool :=
  !(decide (nowUnix < historicWindow) || decide (nowUnix - historicWindow ≤ cbd.time))

/-- How a request ends. -/
inductive SendOutcome where
  | noReplica
  /-- The error may be `context.Canceled`. -/
  | error (canceled : Bool)
  | response (discard : Bool)
deriving Repr, DecidableEq

/-- What a goroutine sees of the world during a step. -/
structure Input where
  now : Now
  nowUnix : BitVec 32
  outcome : SendOutcome
  /-- Whether `cancelSendsCtx` is done. -/
  cancelled : Bool
deriving Repr, DecidableEq

def sendRecent (i : Input) (cbd : CompressedBucketData) : Bool :=
  if cbd.time + maxShortWindow + futureWindow < i.nowUnix then false
  else decide (i.outcome = .response true)

/-- `goPreProcess`, once it has a compressed bucket that no recent sender took. -/
inductive Preprocessor where
  | idle
  | saving (cbd : CompressedBucketData)
  | putting (cbd : CompressedBucketData)
  | queueing (cbd : CompressedBucketData)
deriving Repr, DecidableEq

/-- `goSendRecent`. The flag tells the save before sending from the one after. -/
inductive RecentSender where
  | waiting
  | received (cbd : CompressedBucketData)
  | saving (cbd : CompressedBucketData) (before : Bool)
  | putting (cbd : CompressedBucketData) (before : Bool)
  | sending (cbd : CompressedBucketData)
  | queueing (cbd : CompressedBucketData)
deriving Repr, DecidableEq

/-- `goSendHistoric` and `sendHistoric`. -/
inductive HistoricSender where
  | idle
  | looping (cbd : CompressedBucketData)
  | judging (cbd : CompressedBucketData) (nowUnix historicWindow : BitVec 32)
  | reading (cbd : CompressedBucketData)
  | sending (cbd : CompressedBucketData)
  | pausing (cbd : CompressedBucketData)
deriving Repr, DecidableEq

/-- `goEraseHistoric`. -/
inductive Eraser where
  | idle
  | judging (cbd : CompressedBucketData) (nowUnix : BitVec 32) (diskLimit : Int)
      (historicWindow : BitVec 32)
  | measuring (cbd : CompressedBucketData) (diskLimit : Int)
  | limiting (cbd : CompressedBucketData) (diskLimit diskUsed : Int)
  | pausing
deriving Repr, DecidableEq

section Steps

variable (crc32c : List UInt8 → BitVec 32) (numShards : Nat)

def Preprocessor.step (i : Input) (s : Shared) : Preprocessor → Preprocessor × Shared
  | .idle => (.idle, s)
  | .saving cbd => (if s.wantsPut cbd then .putting cbd else .queueing cbd, s)
  | .putting cbd =>
    let (cbd, s) := s.put crc32c i.now cbd
    (.queueing cbd, s)
  | .queueing cbd => (.idle, s.appendHistoricBucketsToSend numShards cbd)

def RecentSender.afterSave (cbd : CompressedBucketData) (before : Bool) : RecentSender :=
  if before then .sending cbd else .queueing cbd

def RecentSender.step (i : Input) (s : Shared) : RecentSender → RecentSender × Shared
  | .waiting => (.waiting, s)
  | .received cbd => (if s.config.saveSecondsImmediately then .saving cbd true else .sending cbd, s)
  | .saving cbd before => (if s.wantsPut cbd then .putting cbd before else afterSave cbd before, s)
  | .putting cbd before =>
    let (cbd, s) := s.put crc32c i.now cbd
    (afterSave cbd before, s)
  | .sending cbd =>
    if sendRecent i cbd then (.waiting, s.diskCacheEraseWithLog cbd.id) else (.saving cbd false, s)
  | .queueing cbd => (.waiting, s.appendHistoricBucketsToSend numShards cbd)

def HistoricSender.step (i : Input) (s : Shared) : HistoricSender → Option (HistoricSender × Shared)
  | .idle => do
    match ← s.popOldestHistoricSecondLocked i.nowUnix with
    | (none, s) => some (.idle, s)
    | (some cbd, s) => some (.looping cbd, s)
  | .looping cbd => some (.judging cbd i.nowUnix (s.config.historicWindow.setWidth 32), s)
  | .judging cbd nowUnix historicWindow =>
    if outOfWindow nowUnix cbd historicWindow then some (.idle, s.diskCacheEraseWithLog cbd.id)
    else some (if cbd.data = [] then .reading cbd else .sending cbd, s)
  | .reading cbd =>
    match s.diskBucketCache with
    | none => some (.idle, s)
    | some d =>
      match d.getBucket crc32c cbd.id cbd.time with
      | (.error _, d) => some (.idle, { s with diskBucketCache := some d })
      | (.ok data, d) => some (.sending { cbd with data }, { s with diskBucketCache := some d })
  | .sending cbd =>
    match i.outcome with
    | .noReplica => some (.pausing cbd, s)
    | .error canceled => some (if canceled then .idle else .pausing cbd, s)
    | .response false => some (.pausing cbd, s)
    | .response true => some (.idle, s.diskCacheEraseWithLog cbd.id)
  | .pausing cbd => some (if i.cancelled then .idle else .looping cbd, s)

/-- When the context is done the goroutine returns without the lock that its deferred
`Unlock` expects, which is fatal. -/
def Eraser.step (i : Input) (s : Shared) : Eraser → Option (Eraser × Shared)
  | .idle => do
    match ← s.popOldestHistoricSecondLocked i.nowUnix with
    | (none, s) => some (.idle, s)
    | (some cbd, s) =>
      some (.judging cbd i.nowUnix (s.config.maxHistoricDiskSize.tdiv numShards)
        (s.config.historicWindow.setWidth 32), s)
  | .judging cbd nowUnix diskLimit historicWindow =>
    if outOfWindow nowUnix cbd historicWindow then some (.idle, s.diskCacheEraseWithLog cbd.id)
    else some (.measuring cbd diskLimit, s)
  | .measuring cbd diskLimit => some (.limiting cbd diskLimit s.historicBucketsDataSizeDisk.1, s)
  | .limiting cbd diskLimit diskUsed =>
    if diskLimit < diskUsed then some (.idle, s.diskCacheEraseWithLog cbd.id)
    else some (.pausing, s.appendHistoricBucketsToSend numShards cbd)
  | .pausing => if i.cancelled then none else some (.idle, s)

end Steps

structure State where
  shared : Shared
  preprocessor : Preprocessor := .idle
  recent : List RecentSender := List.replicate maxConveyorDelay .waiting
  historic : List HistoricSender := List.replicate maxHistorySendStreams .idle
  eraser : Eraser := .idle

inductive Action where
  | configure (config : Config)
  | disableNewSends
  /-- The preprocessor has compressed a bucket; the recent sender, if any, is ready to take it. -/
  | flush (time originalSize : BitVec 32) (compressed : List UInt8) (receiver : Option Nat)
  | preprocessor (i : Input)
  | recent (j : Nat) (i : Input)
  | historic (j : Nat) (i : Input)
  | eraser (i : Input)
deriving Repr, DecidableEq

def readTimes : Nat → Shared → Option Shared
  | 0, s => some s
  | n + 1, s => do readTimes n (← s.readHistoricSecondLocked)

def start (config : Config) (folder : Option Folder) : Option State := do
  let shared ← readTimes (maxConveyorDelay * 2)
    { config, diskBucketCache := folder.map DiskCacheShard.makeDiscCacheShard }
  some { shared }

section Run

variable (crc32c : List UInt8 → BitVec 32) (numShards : Nat)

/-- `sendToSenders`, up to the hand-over. -/
def sendToSenders (s : State) (cbd : CompressedBucketData) (receiver : Option Nat) : State :=
  match receiver with
  | none => { s with preprocessor := .saving cbd }
  | some j =>
    if s.shared.bucketsToSend = true ∧ s.recent[j]? = some .waiting then
      { s with recent := s.recent.set j (.received cbd) }
    else { s with preprocessor := .saving cbd }

/-- A goroutine that is not there, or busy, does nothing. -/
def step (s : State) : Action → Option State
  | .configure config => some { s with shared := { s.shared with config } }
  | .disableNewSends => some { s with shared := { s.shared with bucketsToSend := false } }
  | .flush time originalSize compressed receiver =>
    if s.preprocessor = .idle then
      -- `CompressAndFrame` puts the size before the data
      let cbd : CompressedBucketData :=
        { number := s.shared.came, time := time, data := putUint32 originalSize ++ compressed }
      some (sendToSenders { s with shared := { s.shared with came := s.shared.came + 1 } } cbd
        receiver)
    else some s
  | .preprocessor i =>
    let (preprocessor, shared) := s.preprocessor.step crc32c numShards i s.shared
    some { s with shared, preprocessor }
  | .recent j i =>
    match s.recent[j]? with
    | none => some s
    | some r =>
      let (r, shared) := r.step crc32c numShards i s.shared
      some { s with shared, recent := s.recent.set j r }
  | .historic j i =>
    match s.historic[j]? with
    | none => some s
    | some r => do
      let (r, shared) ← r.step crc32c i s.shared
      some { s with shared, historic := s.historic.set j r }
  | .eraser i => do
    let (eraser, shared) ← s.eraser.step numShards i s.shared
    some { s with shared, eraser }

def run (s : State) (actions : List Action) : Option State :=
  actions.foldlM (step crc32c numShards) s

end Run

end Conveyor
