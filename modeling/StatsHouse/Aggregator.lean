import Mathlib.Algebra.Group.Nat.Defs
import Mathlib.Data.List.Basic

/-!
# The aggregator's window of seconds and its insert conveyor

Agents send the aggregator one bucket per second and wait in a long poll for the word that
they may throw their copy away. `handleSendSourceBucket` merges the data into a bucket of the
aggregator, recent or historic; the ticker moves the window of recent buckets with the clock
and hands those that fell out of it to an inserter; an inserter adds historic buckets, writes
them all to ClickHouse and answers the requests of each.

A step is what one goroutine does between two points where another one can get in: a section
under `a.mu` or under a bucket's `mu`, a piece of the merge, or the outcome of an insert.
Readers of a bucket's `sendMu` are kept as a list, so that a goroutine that takes the lock
for writing is enabled when the list is empty. Values read from the remote configuration are
arguments of the step that reads them: they may be different at every step.

Buckets are numbered in the order in which they are made, requests are numbers too, and
`Config.request` says what each of them holds.
-/

namespace Aggregator

open Function

def maxShortWindow : ℕ := 5

def futureWindow : ℕ := 4

/-- Release v2025.03.0. -/
def leastAllowedAgentCommitTs : BitVec 32 := 1741804412

inductive Kind
  | sendSourceBucket3
  | sendKeepAlive (version3 : Bool)
deriving DecidableEq

/-- What a handler merges into a bucket: first the items of the metrics, and after the request
has become a contributor the sample factors and ingestion statuses. -/
inductive Part
  | item (index : ℕ)
  | statuses
deriving DecidableEq

structure Request where
  kind : Kind
  /-- The text of the first error of reading the request, decompressing and reading the bucket. -/
  malformed : Option String
  buildCommitTs : BitVec 32
  shardReplica : Int
  time : BitVec 32
  historic : Bool
  /-- How many items of metrics the bucket holds. -/
  items : ℕ
  /-- Whether `validateStringTag` accepts all strings of an item. -/
  validItem : ℕ → Bool

namespace Request

/-- The data of the request; a keep-alive has none. -/
def parts (args : Request) : List Part :=
  match args.kind with
  | .sendSourceBucket3 => (List.range args.items).map .item ++ [.statuses]
  | .sendKeepAlive _ => []

/-- The items that are merged; the loop leaves out the others by `continue outer`. -/
def validItems (args : Request) : List Part :=
  ((List.range args.items).filter args.validItem).map .item

end Request

structure Config where
  shardKey : Int
  replicaKey : ℕ
  replicaKey_pos : 0 < replicaKey
  replicaKey_le : replicaKey ≤ 3
  withoutCluster : Bool
  /-- Empty in local mode, which inserts nothing. -/
  khAddr : String
  request : ℕ → Request

namespace Config

variable (c : Config)

def ourShardReplica : Int := (c.shardKey - 1) * 3 + (c.replicaKey - 1)

/-- `uint32(a.replicaKey-1)`: the remainder of the seconds this replica inserts. -/
def remainder : BitVec 32 := BitVec.ofNat 32 (c.replicaKey - 1)

def roundUp (remainder : BitVec 32) : ℕ → BitVec 32 → BitVec 32
  | 0, time => time
  | fuel + 1, time =>
    if time % 3 = remainder then time else roundUp remainder fuel (time + 1)

/-- The loop `for roundedToOurTime%3 != uint32(a.replicaKey-1)`. Three increments are enough,
also where they pass the end of the `uint32` range, which is a multiple of 3 plus 1. -/
def roundedToOurTime (time : BitVec 32) : BitVec 32 := roundUp c.remainder 3 time

end Config

/-- How a request is answered. The arguments are the values the decision was made on. -/
inductive Reply
  | malformed (err : String)
  | tooOld (buildCommitTs : BitVec 32)
  | wrongShard (shardReplica ourShardReplica : Int)
  | future (historic : Bool) (roundedToOurTime newestTime : BitVec 32)
  | beyondHistoricWindow (roundedToOurTime oldestTime historicWindow : BitVec 32)
  | lateRecent
  /-- `StartLongpoll` failed, after the data was merged. -/
  | notStarted
  | conveyorFull (time : BitVec 32) (contributors : ℕ)
  | staleBucket (time oldestTime historicWindow : BitVec 32)
  | inserted
  | insertFailed (err : String)
  | simulatedError
  /-- An answer to `SendKeepAlive2`, which has no order to discard. -/
  | keepAlive2 (text : String)
  /-- An RPC error, to a keep-alive or by `WriteEmptyResponse`. -/
  | rpcError

namespace Reply

/-- Whether the agent is told to discard its bucket. -/
def discard : Reply → Bool
  | malformed _ | tooOld _ | wrongShard _ _ | future _ _ _ => true
  | beyondHistoricWindow _ _ _ | staleBucket _ _ _ | inserted => true
  | lateRecent | notStarted | conveyorFull _ _ | insertFailed _ => false
  | simulatedError | keepAlive2 _ | rpcError => false

/-- The text the agent prints. -/
def warning (c : Config) : Reply → String
  | malformed err => err
  | tooOld _ => "agent is too old please update"
  | wrongShard shardReplica ourShardReplica =>
    "statshouse misconfiguration! shard*replica sent by source (" ++ toString shardReplica ++
      ") does not match shard*replica expected by aggregator (" ++ toString ourShardReplica ++
      ") with shard:replica " ++ toString c.shardKey ++ ":" ++ toString c.replicaKey
  | future true _ _ => "historic bucket time is too far in the future"
  | future false _ _ => "bucket time is too far in the future"
  | beyondHistoricWindow _ _ _ => "Successfully discarded historic bucket beyond historic window"
  | lateRecent => "bucket time is too far in the past for recent conveyor"
  | conveyorFull time contributors =>
    "insert conveyor is full for Bucket time=" ++ toString time.toNat ++ ", contributors " ++
      toString contributors ++ ".000000"
  | staleBucket _ _ _ =>
    "Successfully discarded historic bucket with timestamp before historic window"
  | insertFailed err => err
  | simulatedError => "simulated error"
  | keepAlive2 text => text
  | notStarted | inserted | rpcError => ""

end Reply

/-- `historic` says for which of the two maps the bucket was made. The source does not keep it
and no step depends on it. -/
structure Bucket where
  historic : Bool
  time : BitVec 32
  merged : List (ℕ × Part)
  contributors : List ℕ
  contributors3 : List ℕ
  contributorsSimulatedErrors : List ℕ
  /-- The handlers that hold `sendMu` for reading. -/
  readers : List ℕ

def newAggregatorBucket (historic : Bool) (time : BitVec 32) : Bucket :=
  { historic, time, merged := [], contributors := [], contributors3 := [],
    contributorsSimulatedErrors := [], readers := [] }

namespace Bucket

def hasContributors (k : Bucket) : Bool :=
  !k.contributors.isEmpty || !k.contributors3.isEmpty || !k.contributorsSimulatedErrors.isEmpty

/-- Source counts a request when it joins the bucket; once the readers have left, each of them
has merged its statuses. -/
def contributorsCount (k : Bucket) : ℕ := (k.merged.filter (·.2 = .statuses)).length

/-- `CancelLongpoll`. The merged data cannot be taken back. -/
def cancelLongpoll (k : Bucket) (req : ℕ) : Bucket := { k with
    contributors := k.contributors.filter (· ≠ req)
    contributors3 := k.contributors3.filter (· ≠ req)
    contributorsSimulatedErrors := k.contributorsSimulatedErrors.filter (· ≠ req) }

end Bucket

/-- Where the handler of a request stands. From `merging` to `leaving` it holds the bucket's
`sendMu` for reading; the reply it carries is the one it writes when no long poll started. -/
inductive Handler
  | waiting
  | merging (b : ℕ)
  | registering (b : ℕ)
  | summing (b : ℕ) (reply : Option Reply)
  | leaving (b : ℕ) (reply : Option Reply)
  | simulating (b : ℕ)
  | pinging (b : ℕ) (version3 : Bool)
  | done

def Handler.bucket? : Handler → Option ℕ
  | waiting | done => none
  | merging b | registering b | summing b _ | leaving b _ | simulating b | pinging b _ => some b

/-- Where an inserter stands. -/
inductive Inserter
  | idle
  | received (b : ℕ)
  | collecting (oldestTime : BitVec 32) (willInsertHistoric : Bool) (aggBuckets : List ℕ)
  /-- Waiting in `popOldestHistoricBucket` for the handlers of the popped buckets. -/
  | waiting (oldestTime historicWindow : BitVec 32) (aggBuckets : List ℕ)
      (historicBucket : Option ℕ) (staleBuckets : List ℕ)
  | dropping (oldestTime historicWindow : BitVec 32) (aggBuckets : List ℕ)
      (historicBucket : Option ℕ) (staleBuckets : List ℕ)
  | sending (aggBuckets : List ℕ) (body : List (ℕ × Part))
  | responding (aggBucket : Option ℕ) (aggBuckets : List ℕ) (sendErr : Option String)

namespace Inserter

def isIdle : Inserter → Bool
  | idle => true
  | _ => false

/-- The buckets nobody else can reach, `here we have exclusive access`. -/
def exclusive : Inserter → List ℕ
  | idle => []
  | received b => [b]
  | collecting _ _ aggBuckets | waiting _ _ aggBuckets _ _ => aggBuckets
  | dropping _ _ aggBuckets historicBucket staleBuckets =>
    aggBuckets ++ historicBucket.toList ++ staleBuckets
  | sending aggBuckets _ | responding _ aggBuckets _ => aggBuckets

/-- The stale buckets the inserter has taken and not answered yet. -/
def stale : Inserter → List ℕ
  | waiting _ _ _ _ staleBuckets | dropping _ _ _ _ staleBuckets => staleBuckets
  | _ => []

/-- All buckets of the inserter, also those some handler may still be in. -/
def buckets : Inserter → List ℕ
  | waiting _ _ aggBuckets historicBucket staleBuckets =>
    aggBuckets ++ historicBucket.toList ++ staleBuckets
  | w => w.exclusive

end Inserter

/-- The long polls that are open and the answers given so far. -/
structure Replies where
  pending : List ℕ
  answers : List (ℕ × Reply)

namespace Replies

/-- `FinishLongpoll` and the response; nothing if the long poll is no longer open. -/
def finish (reply : Reply) (r : Replies) (req : ℕ) : Replies :=
  if req ∈ r.pending then
    { pending := r.pending.filter (· ≠ req), answers := r.answers ++ [(req, reply)] }
  else r

def finishAll (r : Replies) (reply : Reply) (reqs : List ℕ) : Replies := reqs.foldl (finish reply) r

/-- A response without a long poll. -/
def write (r : Replies) (req : ℕ) (reply : Reply) : Replies :=
  { r with answers := r.answers ++ [(req, reply)] }

def start (r : Replies) (req : ℕ) : Replies := { r with pending := req :: r.pending }

/-- The connection is gone: the long poll is closed and nobody answers it. -/
def cancel (r : Replies) (req : ℕ) : Replies := { r with pending := r.pending.filter (· ≠ req) }

end Replies

inductive Panic
  | indexOutOfRange
  | notOurBucket
  | simulatedErrorsInHistoric
deriving DecidableEq

structure State where
  bucket : ℕ → Bucket
  /-- How many buckets have been made. -/
  allocated : ℕ
  recentBuckets : List ℕ
  historicBuckets : List ℕ
  /-- What the ticker took out of the window and has not sent yet. -/
  readyBuckets : List ℕ
  /-- `a.bucketsToSend == nil` -/
  shutdown : Bool
  tickerQuit : Bool
  inserter : ℕ → Inserter
  handler : ℕ → Handler
  replies : Replies
  /-- The data of all inserts that succeeded. -/
  inserted : List (ℕ × Part)
  /-- The data in rows that the sampler left out of an insert. -/
  sampledOut : List (ℕ × Part)
  /-- The times of all buckets taken out of the window, in order. -/
  taken : List (BitVec 32)
  panicked : Option Panic

namespace State

def initial : State :=
  { bucket := fun _ => newAggregatorBucket false 0, allocated := 0, recentBuckets := [],
    historicBuckets := [], readyBuckets := [], shutdown := false, tickerQuit := false,
    inserter := fun _ => .idle, handler := fun _ => .waiting,
    replies := { pending := [], answers := [] }, inserted := [], sampledOut := [], taken := [],
    panicked := none }

variable (c : Config) (s : State)

def time (b : ℕ) : BitVec 32 := (s.bucket b).time

def panic (p : Panic) : State := { s with panicked := some p }

def modifyBucket (b : ℕ) (f : Bucket → Bucket) : State :=
  { s with bucket := update s.bucket b (f (s.bucket b)) }

def setHandler (req : ℕ) (h : Handler) : State := { s with handler := update s.handler req h }

def setInserter (i : ℕ) (w : Inserter) : State := { s with inserter := update s.inserter i w }

/-- Makes a bucket and puts it into one of the two maps. -/
def addBucket (historic : Bool) (time : BitVec 32) : State := { s with
    bucket := update s.bucket s.allocated (newAggregatorBucket historic time)
    allocated := s.allocated + 1
    recentBuckets := bif historic then s.recentBuckets else s.recentBuckets ++ [s.allocated]
    historicBuckets := bif historic then s.historicBuckets ++ [s.allocated] else s.historicBuckets }

/-- `a.recentBuckets[0].time`, read where the window is not empty. -/
def frontTime : BitVec 32 := s.time (s.recentBuckets.headD 0)

def extendRecent (s : State) : ℕ → State
  | 0 => s
  | missing + 1 =>
    (s.addBucket false (s.frontTime + BitVec.ofNat 32 s.recentBuckets.length)).extendRecent missing

/-- `nowUnix > b.time + uint32(configR.ShortWindow)` -/
def fallsOut (now : BitVec 32) (shortWindow : ℕ) (b : ℕ) : Bool :=
  s.time b + BitVec.ofNat 32 shortWindow < now

/-- The first loop of `advanceRecentBuckets`. -/
def popReady (now : BitVec 32) (shortWindow : ℕ) : State := { s with
    readyBuckets := s.recentBuckets.takeWhile (s.fallsOut now shortWindow)
    recentBuckets := s.recentBuckets.dropWhile (s.fallsOut now shortWindow)
    taken := s.taken ++ (s.recentBuckets.takeWhile (s.fallsOut now shortWindow)).map s.time }

/-- Jumped into future, also initial state. -/
def refill (now : BitVec 32) (shortWindow : ℕ) : State :=
  if s.recentBuckets = [] then s.addBucket false (now - BitVec.ofNat 32 shortWindow) else s

def advanceRecentBuckets (now : BitVec 32) (shortWindow : ℕ) : State :=
  let s := (s.popReady now shortWindow).refill now shortWindow
  s.extendRecent (shortWindow + futureWindow - s.recentBuckets.length)

/-- Answers every contributor of a bucket and clears the maps. -/
def answerBucket (b : ℕ) (reply2 reply3 : Reply) : State :=
  { s.modifyBucket b (fun k => { k with contributors := [], contributors3 := [] }) with
    replies := (s.replies.finishAll reply2 (s.bucket b).contributors).finishAll reply3
      (s.bucket b).contributors3 }

/-- What `goTicker` does with the next bucket that is ready. The channel has no buffer: the
bucket is received by an inserter that waits for one, or the conveyor is full. -/
def sendReady (receiver : Option ℕ) : State :=
  match s.readyBuckets with
  | [] => s
  | b :: rest =>
    if (s.bucket b).readers ≠ [] then s
    else if s.time b % 3 ≠ c.remainder then
      if (s.bucket b).hasContributors then s.panic .notOurBucket
      else { s with readyBuckets := rest }
    else if s.shutdown then { s with readyBuckets := [], tickerQuit := true }
    else match receiver with
      | some i =>
        if (s.inserter i).isIdle then
          { s.setInserter i (.received b) with readyBuckets := rest }
        else s
      | none =>
        { s.answerBucket b .rpcError (.conveyorFull (s.time b) (s.bucket b).contributorsCount) with
          readyBuckets := rest }

inductive Place
  | recent (index : ℕ)
  | historic (time : BitVec 32)

/-- Which bucket a request goes to. -/
def place (c : Config) (args : Request) (oldestTime newestTime historicWindow : BitVec 32) :
    Except Reply Place :=
  let roundedToOurTime := c.roundedToOurTime args.time
  if args.historic then
    if newestTime < roundedToOurTime then
      .error (.future true roundedToOurTime newestTime)
    else if historicWindow ≤ oldestTime ∧ roundedToOurTime < oldestTime - historicWindow then
      .error (.beyondHistoricWindow roundedToOurTime oldestTime historicWindow)
    else if roundedToOurTime < oldestTime then .ok (.historic args.time)
    else .ok (.recent (roundedToOurTime - oldestTime).toNat)
  else if newestTime < roundedToOurTime then
    .error (.future false roundedToOurTime newestTime)
  else if roundedToOurTime < oldestTime then .error .lateRecent
  else .ok (.recent (roundedToOurTime - oldestTime).toNat)

/-- The handler writes its response and is done. -/
def reply (req : ℕ) (r : Reply) : State :=
  { s.setHandler req .done with replies := s.replies.write req r }

/-- Takes `sendMu` for reading, while `a.mu` is held. -/
def join (req b : ℕ) (h : Handler) : State :=
  (s.modifyBucket b (fun k => { k with readers := req :: k.readers })).setHandler req h

/-- In shutdown the response is hijacked and nobody ever sends it. -/
def hijack (req : ℕ) (started : Bool) : State :=
  if started then { s.setHandler req .done with replies := s.replies.start req }
  else s.reply req .notStarted

/-- Joins the bucket of the second in the historic map, made if there is none. -/
def joinHistoric (req : ℕ) (time : BitVec 32) : State :=
  match s.historicBuckets.find? (fun b => s.time b = time) with
  | some b => s.join req b (.merging b)
  | none => (s.addBucket true time).join req s.allocated (.merging s.allocated)

def joinRecent (req index : ℕ) (h : ℕ → Handler) : State :=
  match s.recentBuckets[index]? with
  | some b => s.join req b (h b)
  | none => s.panic .indexOutOfRange

/-- `a.recentBuckets[len(a.recentBuckets)-1].time` -/
def newestTime : BitVec 32 := s.time (s.recentBuckets.getLastD 0)

/-- The section of `handleSendSourceBucket` under `a.mu`, after the shard is checked. -/
def chooseBucket (req : ℕ) (historicWindow : BitVec 32) (simulate started : Bool) : State :=
  if s.recentBuckets = [] then s.panic .indexOutOfRange
  else if s.shutdown then s.hijack req started
  else match place c (c.request req) s.frontTime s.newestTime historicWindow with
    | .error r => s.reply req r
    | .ok (.historic time) => s.joinHistoric req time
    | .ok (.recent index) =>
      s.joinRecent req index
        (if simulate && !(c.request req).historic then .simulating else .merging)

/-- The checks of `handleSendSourceBucket3` and `handleSendSourceBucket`, in their order. -/
def handleSendSourceBucket (req : ℕ) (denyOldAgents : Bool) (historicWindow : BitVec 32)
    (simulate started : Bool) : State :=
  let args := c.request req
  match args.malformed with
  | some err => s.reply req (.malformed err)
  | none =>
    if denyOldAgents ∧ args.buildCommitTs < leastAllowedAgentCommitTs then
      s.reply req (.tooOld args.buildCommitTs)
    else if ¬ c.withoutCluster ∧ args.shardReplica ≠ c.ourShardReplica then
      s.reply req (.wrongShard args.shardReplica c.ourShardReplica)
    else s.chooseBucket c req historicWindow simulate started

def handleSendKeepAliveAny (req : ℕ) (version3 : Bool) : State :=
  let args := c.request req
  if args.malformed.isSome then s.reply req .rpcError
  else if ¬ c.withoutCluster ∧ args.shardReplica ≠ c.ourShardReplica then
    s.reply req .rpcError
  else if s.recentBuckets = [] then s.panic .indexOutOfRange
  else
    s.joinRecent req (c.roundedToOurTime s.frontTime - s.frontTime).toNat
      (fun b => .pinging b version3)

/-- A request comes in and its handler runs up to the end of the section under `a.mu`. -/
def arrive (req : ℕ) (denyOldAgents : Bool) (historicWindow : BitVec 32)
    (simulate started : Bool) : State :=
  match s.handler req, (c.request req).kind with
  | .waiting, .sendSourceBucket3 =>
    s.handleSendSourceBucket c req denyOldAgents historicWindow simulate started
  | .waiting, .sendKeepAlive version3 => s.handleSendKeepAliveAny c req version3
  | _, _ => s

def merge (req b : ℕ) (parts : List Part) : State :=
  s.modifyBucket b (fun k => { k with merged := parts.map (req, ·) ++ k.merged })

/-- `StartLongpoll` and the entry in one of the bucket's maps, under the bucket's `mu`. -/
def register (req b : ℕ) (f : Bucket → Bucket) : State :=
  { s.modifyBucket b f with replies := s.replies.start req }

def leave (req b : ℕ) : State :=
  (s.modifyBucket b (fun k => { k with readers := k.readers.filter (· ≠ req) })).setHandler
    req .done

/-- The next step of the handler of a request. -/
def proceed (req : ℕ) (started : Bool) : State :=
  match s.handler req with
  | .waiting | .done => s
  | .merging b => (s.merge req b (c.request req).validItems).setHandler req (.registering b)
  | .registering b =>
    if started then
      (s.register req b (fun k => { k with contributors3 := req :: k.contributors3 })).setHandler
        req (.summing b none)
    else s.setHandler req (.summing b (some .notStarted))
  | .summing b r => (s.merge req b [.statuses]).setHandler req (.leaving b r)
  | .leaving b none => s.leave req b
  | .leaving b (some r) => { s.leave req b with replies := s.replies.write req r }
  | .simulating b =>
    if started then
      (s.register req b (fun k =>
        { k with contributorsSimulatedErrors := req :: k.contributorsSimulatedErrors })).setHandler
        req (.leaving b none)
    else s.setHandler req (.leaving b (some .notStarted))
  | .pinging b version3 =>
    if started then
      (s.register req b (fun k =>
        if version3 then { k with contributors3 := req :: k.contributors3 }
        else { k with contributors := req :: k.contributors })).setHandler req (.leaving b none)
    else s.setHandler req (.leaving b (some .rpcError))

/-- An inserter looks at the window and at the historic buckets, under `a.mu`. Whether it
takes historic buckets depends on how many inserters run. -/
def lookAround (i : ℕ) (willInsertHistoric : Bool) : State :=
  match s.inserter i with
  | .received b =>
    if s.recentBuckets = [] then s.panic .indexOutOfRange
    else s.setInserter i (.collecting s.frontTime willInsertHistoric [b])
  | _ => s

def isStale (oldestTime historicWindow : BitVec 32) (b : ℕ) : Bool :=
  historicWindow ≤ oldestTime ∧ s.time b < oldestTime - historicWindow

/-- `if aggBucket == nil || v.time < aggBucket.time` -/
def older (best : Option ℕ) (b : ℕ) : Option ℕ :=
  match best with
  | none => some b
  | some a => if s.time b < s.time a then some b else some a

/-- The section of `popOldestHistoricBucket` under `a.mu`. Source stops after a number of
historic buckets; here an inserter may stop after any number. -/
def popOldestHistoricBucket (i : ℕ) (historicWindow : BitVec 32) : State :=
  match s.inserter i with
  | .collecting oldestTime true aggBuckets =>
    let staleBuckets := s.historicBuckets.filter (s.isStale oldestTime historicWindow)
    let rest := s.historicBuckets.filter (fun b => !s.isStale oldestTime historicWindow b)
    let historicBucket := rest.foldl s.older none
    let s' := { s.setInserter i
          (.waiting oldestTime historicWindow aggBuckets historicBucket staleBuckets) with
        historicBuckets := rest.filter (fun b => some b ≠ historicBucket) }
    if historicBucket.any (fun b => !(s.bucket b).contributorsSimulatedErrors.isEmpty) then
      s'.panic .simulatedErrorsInHistoric
    else s'
  | _ => s

/-- The popped buckets have no handlers left. -/
def resume (i : ℕ) : State :=
  match s.inserter i with
  | .waiting oldestTime historicWindow aggBuckets historicBucket staleBuckets =>
    if (historicBucket.toList ++ staleBuckets).all (fun b => (s.bucket b).readers.isEmpty) then
      s.setInserter i (.dropping oldestTime historicWindow aggBuckets historicBucket staleBuckets)
    else s
  | _ => s

/-- Answers the next stale bucket; after the last one the historic bucket joins the batch. -/
def answerStale (i : ℕ) : State :=
  match s.inserter i with
  | .dropping oldestTime historicWindow aggBuckets historicBucket (b :: staleBuckets) =>
    let reply := Reply.staleBucket (s.time b) oldestTime historicWindow
    (s.answerBucket b (.keepAlive2 (reply.warning c)) reply).setInserter i
        (.dropping oldestTime historicWindow aggBuckets historicBucket staleBuckets)
  | .dropping oldestTime _ aggBuckets none [] =>
    s.setInserter i (.collecting oldestTime false aggBuckets)
  | .dropping oldestTime _ aggBuckets (some b) [] =>
    s.setInserter i (.collecting oldestTime true (aggBuckets ++ [b]))
  | _ => s

/-- `rowDataMarshalAppendPositions` over all buckets of the batch. The sampler keeps the rows
that fit its budget; which data is in them is `keep`, any choice. -/
def marshal (i : ℕ) (keep : ℕ × Part → Bool) : State :=
  match s.inserter i with
  | .collecting _ _ aggBuckets =>
    let rows := aggBuckets.flatMap (fun b => (s.bucket b).merged)
    { s.setInserter i (.sending aggBuckets (rows.filter keep)) with
      sampledOut := s.sampledOut ++ rows.filter (!keep ·) }
  | _ => s

/-- `sendToClickhouse` returns; no error means that the rows are in, except in local mode,
where there is never an error and nothing is inserted. -/
def sendToClickhouse (i : ℕ) (sendErr : Option String) : State :=
  match s.inserter i with
  | .sending aggBuckets body =>
    if c.khAddr = "" then s.setInserter i (.responding aggBuckets.head? aggBuckets none)
    else { s.setInserter i (.responding aggBuckets.head? aggBuckets sendErr) with
      inserted := if sendErr.isNone then s.inserted ++ body else s.inserted }
  | _ => s

/-- `c.resp.SetDiscard(sendErr == nil)` -/
def insertReply : Option String → Reply
  | none => .inserted
  | some err => .insertFailed err

/-- Answers the next bucket of the batch; after the last one the simulated errors of the
recent bucket. -/
def respond (i : ℕ) : State :=
  match s.inserter i with
  | .responding aggBucket (b :: aggBuckets) sendErr =>
    (s.answerBucket b (.keepAlive2 "Dummy historic result") (insertReply sendErr)).setInserter i
      (.responding aggBucket aggBuckets sendErr)
  | .responding (some b) [] _ =>
    { (s.modifyBucket b (fun k => { k with contributorsSimulatedErrors := [] })).setInserter i
        .idle with
      replies := s.replies.finishAll .simulatedError (s.bucket b).contributorsSimulatedErrors }
  | .responding none [] _ => s.setInserter i .idle
  | _ => s

end State

inductive Action
  | advance (now : BitVec 32) (shortWindow : ℕ)
  | sendReady (receiver : Option ℕ)
  | arrive (req : ℕ) (denyOldAgents : Bool) (historicWindow : BitVec 32) (simulate started : Bool)
  | proceed (req : ℕ) (started : Bool)
  | lookAround (i : ℕ) (willInsertHistoric : Bool)
  | popOldestHistoricBucket (i : ℕ) (historicWindow : BitVec 32)
  | resume (i : ℕ)
  | answerStale (i : ℕ)
  | marshal (i : ℕ) (keep : ℕ × Part → Bool)
  | sendToClickhouse (i : ℕ) (sendErr : Option String)
  | respond (i : ℕ)
  /-- The connection of a request breaks. -/
  | disconnect (req : ℕ)
  /-- `CancelLongpoll`, some time after that. -/
  | cancelLongpoll (req b : ℕ)
  /-- The long poll of a request times out. -/
  | writeEmptyResponse (req b : ℕ)
  | disableNewInsert

namespace State

/-- One step; a step that is not enabled changes nothing. -/
def step (c : Config) (s : State) : Action → State
  | .advance now shortWindow =>
    if s.readyBuckets = [] ∧ ¬ s.tickerQuit then s.advanceRecentBuckets now shortWindow else s
  | .sendReady receiver => s.sendReady c receiver
  | .arrive req denyOldAgents historicWindow simulate started =>
    s.arrive c req denyOldAgents historicWindow simulate started
  | .proceed req started => s.proceed c req started
  | .lookAround i willInsertHistoric => s.lookAround i willInsertHistoric
  | .popOldestHistoricBucket i historicWindow => s.popOldestHistoricBucket i historicWindow
  | .resume i => s.resume i
  | .answerStale i => s.answerStale c i
  | .marshal i keep => s.marshal i keep
  | .sendToClickhouse i sendErr => s.sendToClickhouse c i sendErr
  | .respond i => s.respond i
  | .disconnect req => { s with replies := s.replies.cancel req }
  | .cancelLongpoll req b =>
    if req ∈ s.replies.pending then s else s.modifyBucket b (fun k => k.cancelLongpoll req)
  | .writeEmptyResponse req b =>
    { s.modifyBucket b (fun k => k.cancelLongpoll req) with
      replies := s.replies.finish .rpcError req }
  | .disableNewInsert => { s with shutdown := true }

/-- A panic ends the process. -/
def run (c : Config) (s : State) (actions : List Action) : State :=
  actions.foldl (fun s a => if s.panicked.isSome then s else s.step c a) s

/-- `MakeAggregator` fills the window before anything else starts. -/
def start (now : BitVec 32) (shortWindow : ℕ) : State :=
  initial.advanceRecentBuckets now shortWindow

end State

end Aggregator
