import Mathlib.Data.List.Nodup
import StatsHouse.AggregatorClock

/-!
# Acknowledgements of the aggregator

An agent that is told to discard its bucket has no other copy of it. The order means that the
request was refused for one of the reasons the agent cannot do anything about, or that the rows
made of its data were given to an insert without an error. Data is merged under the read lock
of a bucket's `sendMu`, part of it after the request has become a contributor; an inserter owns
the bucket only when all readers have left, so that the rows are made of all that was merged
for everybody it answers.

Not all data gets that far. Items with invalid strings are not merged, the sampler leaves rows
out of the insert, and in local mode nothing is inserted; the order to discard is the same.
-/

namespace Aggregator

open List Function Replies
variable {w : Handler} {other req : ℕ} {aggBuckets : List ℕ} {reply : Reply} {b i : ℕ}
  {x : ℕ × Reply}

namespace Replies

def answered (r : Replies) : List ℕ := r.answers.map Prod.fst

/-- Neither answered nor waiting for an answer. -/
def Fresh (r : Replies) (req : ℕ) : Prop := req ∉ r.pending ∧ req ∉ r.answered

structure Once (r : Replies) : Prop where
  nodup : r.answered.Nodup
  unanswered : ∀ req ∈ r.pending, req ∉ r.answered

variable {r : Replies}

lemma nodup_snoc (h : r.answered.Nodup) (hreq : req ∉ r.answered) (reply : Reply) :
    ((r.answers ++ [(req, reply)]).map Prod.fst).Nodup := by
  rw [map_append, map_singleton]
  refine nodup_append.2 ⟨h, nodup_singleton req, ?_⟩
  rintro x hx y hy rfl
  obtain rfl : x = req := mem_singleton.1 hy
  exact hreq hx

lemma mem_answered_snoc (h : other ∈ (r.answers ++ [(req, reply)]).map Prod.fst) :
    other ∈ r.answered ∨ other = req := by
  simpa [answered] using h

lemma Once.finish (h : r.Once) (reply : Reply) (req : ℕ) : (r.finish reply req).Once := by
  unfold Replies.finish
  split
  · next hp =>
    constructor
    · exact nodup_snoc h.nodup (h.unanswered req hp) reply
    · intro other ho hn
      obtain ⟨hd, hne⟩ := mem_filter.1 ho
      rcases mem_answered_snoc hn with ha | rfl
      · exact h.unanswered other hd ha
      · simp at hne
  · exact h

lemma Fresh.finish (h : r.Fresh other) (reply : Reply) (req : ℕ) :
    (r.finish reply req).Fresh other := by
  unfold Replies.finish
  split
  · next hp =>
    refine ⟨fun ho => h.1 (mem_filter.1 ho).1, fun ho => ?_⟩
    rcases mem_answered_snoc ho with ha | rfl
    · exact h.2 ha
    · exact h.1 hp
  · exact h

lemma Once.finishAll (h : r.Once) (reply : Reply) (reqs : List ℕ) :
    (r.finishAll reply reqs).Once := by
  induction reqs generalizing r with
  | nil => exact h
  | cons req reqs ih => exact ih (h.finish reply req)

lemma Fresh.finishAll (h : r.Fresh other) (reply : Reply) (reqs : List ℕ) :
    (r.finishAll reply reqs).Fresh other := by
  induction reqs generalizing r with
  | nil => exact h
  | cons req reqs ih => exact ih (h.finish reply req)

lemma Once.write (h : r.Once) (hreq : r.Fresh req) (reply : Reply) : (r.write req reply).Once := by
  constructor
  · exact nodup_snoc h.nodup hreq.2 reply
  · intro other ho hn
    rcases mem_answered_snoc hn with ha | rfl
    · exact h.unanswered other ho ha
    · exact hreq.1 ho

lemma Fresh.write (h : r.Fresh other) (hne : other ≠ req) (reply : Reply) :
    (r.write req reply).Fresh other := by
  refine ⟨h.1, fun ho => ?_⟩
  rcases mem_answered_snoc ho with ha | heq
  · exact h.2 ha
  · exact hne heq

lemma Once.start (h : r.Once) (hreq : r.Fresh req) : (r.start req).Once := by
  refine ⟨h.nodup, ?_⟩
  intro other ho
  rcases mem_cons.1 ho with rfl | ho
  · exact hreq.2
  · exact h.unanswered other ho

lemma Fresh.start (h : r.Fresh other) (hne : other ≠ req) : (r.start req).Fresh other :=
  ⟨fun ho => (mem_cons.1 ho).elim hne h.1, h.2⟩

/-- Everything answered by `finishAll` is one of the requests it was given. -/
lemma mem_finishAll {reqs : List ℕ} (hx : x ∈ (r.finishAll reply reqs).answers) :
    x ∈ r.answers ∨ (x.1 ∈ reqs ∧ x.2 = reply) := by
  induction reqs generalizing r with
  | nil => exact .inl hx
  | cons req reqs ih =>
    rcases ih hx with hm | ⟨hm, he⟩
    · unfold finish at hm
      split at hm
      · rcases mem_append.1 hm with hm | hm
        · exact .inl hm
        · rw [mem_singleton.1 hm]
          exact .inr ⟨(.head _), rfl⟩
      · exact .inl hm
    · exact .inr ⟨mem_cons_of_mem _ hm, he⟩

end Replies

/-- The handler has neither written a response nor started a long poll. -/
def Handler.silent : Handler → Bool
  | waiting | merging _ | registering _ | simulating _ | pinging _ _ => true
  | summing _ reply | leaving _ reply => reply.isSome
  | done => false

/-- No request is answered twice, nor can be: the ones that may still get an answer from their
handler have none, and no long poll. -/
structure Once (handler : ℕ → Handler) (r : Replies) : Prop extends r.Once where
  fresh : ∀ req, (handler req).silent = true → r.Fresh req

namespace Once

variable {handler : ℕ → Handler} {r : Replies}

variable (h : Once handler r)
include h

/-- No handler becomes silent. -/
lemma mono {handler' : ℕ → Handler}
    (hh : ∀ req, (handler' req).silent = true → (handler req).silent = true) : Once handler' r :=
  { h with fresh := fun req hreq => h.fresh req (hh req hreq) }

lemma fresh_update (hw : w.silent = false)
    (ho : (update handler req w other).silent = true) : other ≠ req ∧ r.Fresh other := by
  by_cases heq : other = req
  · subst heq
    simp [hw] at ho
  · exact ⟨heq, h.fresh other (by simpa [heq] using ho)⟩

/-- A silent handler writes its response. -/
lemma write (hreq : (handler req).silent = true) (hw : w.silent = false) (reply : Reply) :
    Once (update handler req w) (r.write req reply) := by
  refine ⟨h.toOnce.write (h.fresh req hreq) reply, fun other ho => ?_⟩
  obtain ⟨hne, hf⟩ := h.fresh_update hw ho
  exact hf.write hne reply

/-- A silent handler starts a long poll. -/
lemma start (hreq : (handler req).silent = true) (hw : w.silent = false) :
    Once (update handler req w) (r.start req) := by
  refine ⟨h.toOnce.start (h.fresh req hreq), fun other ho => ?_⟩
  obtain ⟨hne, hf⟩ := h.fresh_update hw ho
  exact hf.start hne

lemma finishAll (reply : Reply) (reqs : List ℕ) : Once handler (r.finishAll reply reqs) :=
  ⟨h.toOnce.finishAll reply reqs, fun req hreq => (h.fresh req hreq).finishAll reply reqs⟩

lemma cancel (req : ℕ) : Once handler (r.cancel req) :=
  ⟨⟨h.nodup, fun other ho => h.unanswered other (mem_filter.1 ho).1⟩, fun other ho =>
      ⟨fun hp => (h.fresh other ho).1 (mem_filter.1 hp).1, (h.fresh other ho).2⟩⟩

end Once

namespace State

variable {c : Config} {s s' : State}

/-- Some buckets were made and the window changed; nothing else did. -/
structure Made (s s' : State) : Prop where
  bucket : ∀ b, s'.bucket b = s.bucket b ∨ (s.allocated ≤ b ∧ (s'.bucket b).contributors3 = [])
  allocated : s.allocated ≤ s'.allocated
  inserted : s'.inserted = s.inserted
  sampledOut : s'.sampledOut = s.sampledOut
  inserter : s'.inserter = s.inserter
  replies : s'.replies = s.replies
  handler : s'.handler = s.handler

lemma Made.addBucket (h : Made s s') (historic : Bool) (time : BitVec 32) :
    Made s (s'.addBucket historic time) := by
  refine { h with bucket := ?_, allocated := Nat.le_succ_of_le h.allocated }
  intro b
  by_cases hb : b = s'.allocated
  · subst hb
    exact .inr ⟨h.allocated, by simp [State.addBucket, newAggregatorBucket]⟩
  · rw [bucket_addBucket hb]
    exact h.bucket b

lemma Made.extendRecent (h : Made s s') (missing : ℕ) : Made s (s'.extendRecent missing) := by
  induction missing generalizing s' with
  | zero => exact h
  | succ missing ih => exact ih (h.addBucket false _)

lemma Made.advanceRecentBuckets (s : State) (now : BitVec 32) (shortWindow : ℕ) :
    Made s (s.advanceRecentBuckets now shortWindow) := by
  have hp : Made s (s.popReady now shortWindow) :=
    ⟨fun _ => .inl rfl, le_rfl, rfl, rfl, rfl, rfl, rfl⟩
  apply Made.extendRecent
  unfold refill
  split
  · exact hp.addBucket false _
  · exact hp

/-- The items of the request that are merged at all are in `rows`. -/
def HoldsItems (c : Config) (rows : List (ℕ × Part)) (req : ℕ) : Prop :=
  ∀ part ∈ (c.request req).validItems, (req, part) ∈ rows

/-- How the handler of a request goes on, and what it has merged by then. -/
inductive HandlerStep (c : Config) (req : ℕ) (bucket' : ℕ → Bucket) : Handler → Handler → Prop
  | same (w : Handler) : HandlerStep c req bucket' w w
  | replies : HandlerStep c req bucket' .waiting .done
  | joins (b : ℕ) : HandlerStep c req bucket' .waiting (.merging b)
  | simulates (b : ℕ) : HandlerStep c req bucket' .waiting (.simulating b)
  | pings (b : ℕ) (version3 : Bool) (hk : (c.request req).parts = []) :
      HandlerStep c req bucket' .waiting (.pinging b version3)
  | merges (b : ℕ) (hm : HoldsItems c (bucket' b).merged req) :
      HandlerStep c req bucket' (.merging b) (.registering b)
  | registers (b : ℕ) (reply : Option Reply) (hd : ∀ r ∈ reply, r.discard = false) :
      HandlerStep c req bucket' (.registering b) (.summing b reply)
  | sums (b : ℕ) (reply : Option Reply) (hm : (req, .statuses) ∈ (bucket' b).merged) :
      HandlerStep c req bucket' (.summing b reply) (.leaving b reply)
  | simulated (b : ℕ) (reply : Option Reply) (hd : ∀ r ∈ reply, r.discard = false) :
      HandlerStep c req bucket' (.simulating b) (.leaving b reply)
  | pinged (b : ℕ) (version3 : Bool) (reply : Option Reply)
      (hd : ∀ r ∈ reply, r.discard = false) :
      HandlerStep c req bucket' (.pinging b version3) (.leaving b reply)
  | leaves (b : ℕ) (reply : Option Reply) : HandlerStep c req bucket' (.leaving b reply) .done

/-- A handler that has answered or waits for its long poll does not speak again. -/
lemma HandlerStep.silent {bucket' : ℕ → Bucket} {w' : Handler}
    (h : HandlerStep c req bucket' w w') (hw : w'.silent = true) : w.silent = true := by
  cases h with
  | same | sums => exact hw
  | replies | leaves => exact Bool.noConfusion hw
  | _ => rfl

/-- How an inserter goes on. -/
inductive InserterStep (c : Config) (s : State) (inserted' sampledOut' : List (ℕ × Part)) :
    Inserter → Inserter → Prop
  | same (w : Inserter) : InserterStep c s inserted' sampledOut' w w
  | idles (w : Inserter) : InserterStep c s inserted' sampledOut' w .idle
  | receives (w : Inserter) (b : ℕ) : InserterStep c s inserted' sampledOut' w (.received b)
  | collects (w : Inserter) (oldestTime : BitVec 32) (willInsertHistoric : Bool)
      (aggBuckets : List ℕ) :
      InserterStep c s inserted' sampledOut' w
        (.collecting oldestTime willInsertHistoric aggBuckets)
  | pops (w : Inserter) (oldestTime historicWindow : BitVec 32) (aggBuckets : List ℕ)
      (historicBucket : Option ℕ) (staleBuckets : List ℕ)
      (hs : ∀ b ∈ staleBuckets, b ∈ s.historicBuckets ∧ s.isStale oldestTime historicWindow b) :
      InserterStep c s inserted' sampledOut' w
        (.waiting oldestTime historicWindow aggBuckets historicBucket staleBuckets)
  | resumes (oldestTime historicWindow : BitVec 32) (aggBuckets : List ℕ)
      (historicBucket : Option ℕ) (staleBuckets : List ℕ) :
      InserterStep c s inserted' sampledOut'
        (.waiting oldestTime historicWindow aggBuckets historicBucket staleBuckets)
        (.dropping oldestTime historicWindow aggBuckets historicBucket staleBuckets)
  | drops (oldestTime historicWindow : BitVec 32) (aggBuckets : List ℕ)
      (historicBucket : Option ℕ) (b : ℕ) (staleBuckets : List ℕ) :
      InserterStep c s inserted' sampledOut'
        (.dropping oldestTime historicWindow aggBuckets historicBucket (b :: staleBuckets))
        (.dropping oldestTime historicWindow aggBuckets historicBucket staleBuckets)
  | marshals (oldestTime : BitVec 32) (willInsertHistoric : Bool) (aggBuckets : List ℕ)
      (body : List (ℕ × Part))
      (hb : ∀ b ∈ aggBuckets, ∀ x ∈ (s.bucket b).merged, x ∈ body ++ sampledOut') :
      InserterStep c s inserted' sampledOut' (.collecting oldestTime willInsertHistoric aggBuckets)
        (.sending aggBuckets body)
  | sends (aggBucket : Option ℕ) (aggBuckets : List ℕ) (body : List (ℕ × Part))
      (sendErr : Option String)
      (hi : c.khAddr ≠ "" → sendErr = none → ∀ x ∈ body, x ∈ inserted') :
      InserterStep c s inserted' sampledOut' (.sending aggBuckets body)
        (.responding aggBucket aggBuckets sendErr)
  | responds (aggBucket : Option ℕ) (b : ℕ) (aggBuckets : List ℕ) (sendErr : Option String) :
      InserterStep c s inserted' sampledOut' (.responding aggBucket (b :: aggBuckets) sendErr)
        (.responding aggBucket aggBuckets sendErr)

/-- Why an order to discard is given in a step. -/
inductive Discarded (c : Config) (s : State) (req : ℕ) : Reply → Prop
  | rejected (r : Reply) (h : Rejected c req r) : Discarded c s req r
  | inserted (i : ℕ) (aggBucket : Option ℕ) (b : ℕ) (aggBuckets : List ℕ)
      (hi : s.inserter i = .responding aggBucket (b :: aggBuckets) none)
      (hreq : req ∈ (s.bucket b).contributors3) : Discarded c s req .inserted
  | stale (i : ℕ) (oldestTime historicWindow : BitVec 32) (aggBuckets : List ℕ)
      (historicBucket : Option ℕ) (b : ℕ) (staleBuckets : List ℕ)
      (hi : s.inserter i =
        .dropping oldestTime historicWindow aggBuckets historicBucket (b :: staleBuckets))
      (hreq : req ∈ (s.bucket b).contributors3) :
      Discarded c s req (.staleBucket (s.time b) oldestTime historicWindow)

/-- A response of a handler is never an order to discard, except when it refuses the request. -/
def NoDiscard : Handler → Prop
  | .summing _ (some r) | .leaving _ (some r) => r.discard = false
  | _ => True

/-- What a step can do to the data and the answers. Data is never taken out of a bucket, and a
request becomes a contributor only through its handler. -/
structure Effect (c : Config) (s s' : State) : Prop where
  merged : ∀ b < s.allocated, ∀ x ∈ (s.bucket b).merged, x ∈ (s'.bucket b).merged
  contributors3 : ∀ b, ∀ req ∈ (s'.bucket b).contributors3,
    (req ∈ (s.bucket b).contributors3 ∧ ∀ x ∈ (s.bucket b).merged, x ∈ (s'.bucket b).merged) ∨
    (s.handler req = .registering b ∧ s'.handler req = .summing b none) ∨
    ∃ version3, s.handler req = .pinging b version3
  time : ∀ b < s.allocated, s'.time b = s.time b
  inserted : ∀ x ∈ s.inserted, x ∈ s'.inserted
  sampledOut : ∀ x ∈ s.sampledOut, x ∈ s'.sampledOut
  handler : ∀ req, HandlerStep c req s'.bucket (s.handler req) (s'.handler req)
  inserter : ∀ i, InserterStep c s s'.inserted s'.sampledOut (s.inserter i) (s'.inserter i)
  answers : ∀ x ∈ s'.replies.answers, x.2.discard = true →
    x ∈ s.replies.answers ∨ Discarded c s x.1 x.2

/-- Such a step that moreover answers no request twice. -/
structure Served (c : Config) (s s' : State) : Prop extends Effect c s s' where
  once : Once s.handler s.replies → Once s'.handler s'.replies

/-- What an insert got or was left out of it stays so. -/
lemma Effect.grown {rows rows' : List (ℕ × Part)} (h : Effect c s s')
    (hr : ∀ x ∈ rows, x ∈ rows') : ∀ x ∈ rows ++ s.sampledOut, x ∈ rows' ++ s'.sampledOut :=
  fun x hx => mem_append.2 ((mem_append.1 hx).imp (hr x) (h.sampledOut x))

namespace Served

lemma refl (c : Config) (s : State) : Served c s s :=
  ⟨⟨fun _ _ _ hx => hx, fun _ _ hr => .inl ⟨hr, fun _ hx => hx⟩, fun _ _ => rfl,
    fun _ hx => hx, fun _ hx => hx, fun _ => .same _, fun _ => .same _, fun _ hx _ => .inl hx⟩, id⟩

lemma merged_modify {f : Bucket → Bucket} (hm : ∀ k, ∀ x ∈ k.merged, x ∈ (f k).merged) (x : ℕ) :
    ∀ y ∈ (s.bucket x).merged, y ∈ ((s.modifyBucket b f).bucket x).merged := by
  intro y hy
  by_cases hx : x = b
  · subst hx
    simpa [modifyBucket] using hm _ y hy
  · simpa [modifyBucket, hx] using hy

/-- A change of a bucket that lets nobody in. -/
lemma modify (c : Config) (s : State) (b : ℕ) (f : Bucket → Bucket)
    (hm : ∀ k, ∀ x ∈ k.merged, x ∈ (f k).merged) (ht : ∀ k, (f k).time = k.time)
    (hc : ∀ k, ∀ req ∈ (f k).contributors3, req ∈ k.contributors3) :
    Served c s (s.modifyBucket b f) := by
  have hg := merged_modify (s := s) (b := b) hm
  refine { refl c s with
    merged := fun x _ => hg x, contributors3 := ?_, time := ?_, handler := fun _ => .same _ }
  · intro x req hreq
    refine .inl ⟨?_, hg x⟩
    by_cases hx : x = b
    · subst hx
      exact hc _ req (by simpa [modifyBucket] using hreq)
    · simpa [modifyBucket, hx] using hreq
  · exact fun x _ => field_modify Bucket.time ht x

lemma answerBucket (c : Config) (s : State) (b : ℕ) (reply2 reply3 : Reply)
    (h2 : reply2.discard = false) (h3 : reply3.discard = true → ∀ req ∈ (s.bucket b).contributors3,
      Discarded c s req reply3) : Served c s (s.answerBucket b reply2 reply3) := by
  refine { modify c s b (fun k => { k with contributors := [], contributors3 := [] })
    (fun _ _ hx => hx) (fun _ => rfl) (fun _ _ hr => absurd hr not_mem_nil) with
    answers := ?_, once := fun h => (h.finishAll reply2 _).finishAll reply3 _ }
  intro x hx hd
  rcases mem_finishAll hx with hx | ⟨hx, he⟩
  · rcases mem_finishAll hx with hx | ⟨_, he⟩
    · exact .inl hx
    · simp [he, h2] at hd
  · rw [he] at hd ⊢
    exact .inr (h3 hd x.1 hx)

/-- An inserter goes on after an effect on the rest. -/
lemma setInserter (h : Served c s s') {w : Inserter} (hi : s'.inserter = s.inserter)
    (hw : InserterStep c s s'.inserted s'.sampledOut (s.inserter i) w) :
    Served c s (s'.setInserter i w) := by
  refine { h with inserter := (forall_update_iff s'.inserter fun j w =>
    InserterStep c s s'.inserted s'.sampledOut (s.inserter j) w).2 ⟨hw, fun j _ => ?_⟩ }
  rw [hi]
  exact .same _

/-- Buckets that are not there yet are made. -/
lemma of_new (hb : ∀ b, s'.bucket b = s.bucket b ∨
      (s.allocated ≤ b ∧ (s'.bucket b).contributors3 = [])) (hi : s'.inserted = s.inserted)
    (sampledOut : s'.sampledOut = s.sampledOut) (hin : s'.inserter = s.inserter)
    (hr : s'.replies = s.replies)
    (hh : ∀ req, HandlerStep c req s'.bucket (s.handler req) (s'.handler req)) : Served c s s' := by
  have hold : ∀ b < s.allocated, s'.bucket b = s.bucket b :=
    fun b hlt => (hb b).resolve_right (fun h => Nat.not_le_of_lt hlt h.1)
  refine ⟨⟨?_, ?_, ?_, ?_, ?_, hh, ?_, ?_⟩, ?_⟩
  · intro b hlt x hx
    rwa [hold b hlt]
  · intro b req hreq
    rcases hb b with hb | hb
    · rw [hb] at hreq ⊢
      exact .inl ⟨hreq, fun _ hx => hx⟩
    · rw [hb.2] at hreq
      exact absurd hreq not_mem_nil
  · intro b hlt
    rw [State.time, hold b hlt]
    rfl
  · intro x hx
    rwa [hi]
  · intro x hx
    rwa [sampledOut]
  · intro i
    rw [hin]
    exact .same _
  · intro x hx _
    rw [hr] at hx
    exact .inl hx
  · intro ho
    rw [hr]
    exact ho.mono fun req => (hh req).silent

/-- A handler goes on, and may become a contributor of its bucket. -/
lemma moveHandler (c : Config) (s : State) (req b : ℕ) (f : Bucket → Bucket) (w : Handler)
    (hm : ∀ k, ∀ x ∈ k.merged, x ∈ (f k).merged) (ht : ∀ k, (f k).time = k.time)
    (hc : ∀ k, ∀ other ∈ (f k).contributors3, other ∈ k.contributors3 ∨
      (other = req ∧ ((s.handler req = .registering b ∧ w = .summing b none) ∨
        ∃ version3, s.handler req = .pinging b version3)))
    (hw : HandlerStep c req (s.modifyBucket b f).bucket (s.handler req) w) :
    Served c s ((s.modifyBucket b f).setHandler req w) := by
  have hg := merged_modify (s := s) (b := b) hm
  have hp := (forall_update_iff s.handler fun other w =>
    HandlerStep c other (s.modifyBucket b f).bucket (s.handler other) w).2 ⟨hw, fun _ _ => .same _⟩
  refine { refl c s with
    merged := fun x _ => hg x, contributors3 := ?_,
    time := fun x _ => field_modify Bucket.time ht x,
    handler := hp, once := fun hn => hn.mono fun other => (hp other).silent }
  · intro x other ho
    by_cases hx : x = b
    · subst hx
      rcases hc _ other (by simpa [setHandler, modifyBucket] using ho) with ho | ⟨rfl, hr | ha⟩
      · exact .inl ⟨ho, hg x⟩
      · exact .inr (.inl ⟨hr.1, by simp [setHandler, hr.2]⟩)
      · exact .inr (.inr ha)
    · exact .inl ⟨by simpa [setHandler, modifyBucket, hx] using ho, hg x⟩

/-- A handler goes on without touching its bucket. -/
lemma setHandler (c : Config) (s : State) (req : ℕ) (w : Handler)
    (hw : HandlerStep c req s.bucket (s.handler req) w) : Served c s (s.setHandler req w) :=
  of_new (fun _ => .inl rfl) rfl rfl rfl rfl <| (forall_update_iff s.handler fun other w =>
    HandlerStep c other s.bucket (s.handler other) w).2 ⟨hw, fun _ _ => .same _⟩

lemma of_made (h : Made s s') : Served c s s' :=
  of_new h.bucket h.inserted h.sampledOut h.inserter h.replies
    (fun req => by rw [h.handler]; exact .same _)

lemma join (c : Config) (s : State) (req b : ℕ) (w : Handler)
    (hw : HandlerStep c req (s.join req b w).bucket (s.handler req) w) :
    Served c s (s.join req b w) :=
  moveHandler c s req b _ w (fun _ _ hx => hx) (fun _ => rfl) (fun _ _ ho => .inl ho) hw

lemma joinRecent (c : Config) (s : State) (req index : ℕ) (w : ℕ → Handler)
    (hw : ∀ b bucket', HandlerStep c req bucket' (s.handler req) (w b)) :
    Served c s (s.joinRecent req index w) := by
  unfold State.joinRecent
  split
  · exact join c s req _ _ (hw _ _)
  · exact { refl c s with }

lemma joinHistoric (c : Config) (s : State) (req : ℕ) (time : BitVec 32)
    (hw : s.handler req = .waiting) : Served c s (s.joinHistoric req time) := by
  unfold State.joinHistoric
  split
  · apply join
    rw [hw]
    exact .joins _
  · refine of_new ?_ rfl rfl rfl rfl ?_
    swap
    · intro other
      by_cases ho : other = req
      · subst ho
        rw [hw]
        simpa [State.join, State.setHandler] using HandlerStep.joins _
      · simpa [State.join, State.setHandler, modifyBucket, addBucket, ho] using
          HandlerStep.same (s.handler other)
    · intro b
      by_cases hb : b = s.allocated
      · subst hb
        exact .inr ⟨le_rfl,
          by simp [State.join, State.setHandler, modifyBucket, addBucket, newAggregatorBucket]⟩
      · exact .inl (by simp [State.join, State.setHandler, modifyBucket, addBucket, hb])

lemma arrival (ha : Arrival c s req s') : Served c s s' := by
  cases ha with
  | unchanged => exact refl c s
  | panic => exact { refl c s with }
  | reply hw r hr =>
    have h := setHandler c s req .done (by rw [hw]; exact .replies)
    refine { h with answers := ?_, once := fun h => h.write (by rw [hw]; rfl) rfl r }
    intro x hx hd
    rcases mem_append.1 hx with hx | hx
    · exact .inl hx
    · rw [mem_singleton.1 hx] at hd ⊢
      exact .inr (.rejected r (hr hd))
  | hijack hw =>
    exact { setHandler c s req .done (by rw [hw]; exact .replies) with
      once := fun h => h.start (by rw [hw]; rfl) rfl }
  | historic hw => exact joinHistoric c s req _ hw
  | merging hw => exact joinRecent c s req _ _ (fun b _ => by rw [hw]; exact .joins b)
  | simulating hw => exact joinRecent c s req _ _ (fun b _ => by rw [hw]; exact .simulates b)
  | pinging hw t ht version3 hk =>
    exact joinRecent c s req _ _ (fun b _ => by rw [hw]; exact .pings b version3 hk)

lemma leave (c : Config) (s : State) (req b : ℕ) (reply : Option Reply)
    (hj : s.handler req = .leaving b reply) : Served c s (s.leave req b) :=
  moveHandler c s req b _ .done (fun _ _ hx => hx) (fun _ => rfl) (fun _ _ ho => .inl ho)
    (by rw [hj]; exact .leaves b reply)

lemma proceed (c : Config) (s : State) (req : ℕ) (started : Bool)
    (hn : NoDiscard (s.handler req)) : Served c s (s.proceed c req started) := by
  unfold State.proceed
  split
  · exact refl c s
  · exact refl c s
  · next b hj =>
    refine moveHandler c s req b _ _ (fun _ _ hx => mem_append_right _ hx) (fun _ => rfl)
      (fun _ _ ho => .inl ho) ?_
    rw [hj]
    refine .merges b (fun part hp => ?_)
    simp only [modifyBucket, update_self]
    exact mem_append_left _ (mem_map_of_mem hp)
  · next b hj =>
    split
    · have h := moveHandler c s req b (fun k => { k with contributors3 := req :: k.contributors3 })
        (.summing b none) (fun _ _ hx => hx) (fun _ => rfl)
        (fun k other ho => (mem_cons.1 ho).elim (fun heq => .inr ⟨heq, .inl ⟨hj, rfl⟩⟩) .inl)
        (by rw [hj]; exact .registers b none (by simp))
      exact { h with once := fun h => h.start (by rw [hj]; rfl) rfl }
    · exact setHandler c s req _ (by rw [hj]; exact .registers b _ (by simp [Reply.discard]))
  · next b r hj =>
    refine moveHandler c s req b _ _ (fun _ _ hx => mem_append_right _ hx) (fun _ => rfl)
      (fun _ _ ho => .inl ho) ?_
    rw [hj]
    exact .sums b r (by simp [modifyBucket])
  · next b hj => exact leave c s req b none hj
  · next b r hj =>
    refine { leave c s req b (some r) hj with
      answers := ?_, once := fun h => h.write (by rw [hj]; rfl) rfl r }
    intro x hx hd
    rcases mem_append.1 hx with hx | hx
    · exact .inl hx
    · rw [hj] at hn
      have hn : r.discard = false := hn
      rw [mem_singleton.1 hx] at hd
      simp [hn] at hd
  · next b hj =>
    split
    · have h := moveHandler c s req b (fun k =>
          { k with contributorsSimulatedErrors := req :: k.contributorsSimulatedErrors })
        (.leaving b none) (fun _ _ hx => hx) (fun _ => rfl) (fun _ _ ho => .inl ho)
        (by rw [hj]; exact .simulated b none (by simp))
      exact { h with once := fun h => h.start (by rw [hj]; rfl) rfl }
    · exact setHandler c s req _ (by rw [hj]; exact .simulated b _ (by simp [Reply.discard]))
  · next b version3 hj =>
    split
    · have h := moveHandler c s req b (fun k =>
          if version3 then { k with contributors3 := req :: k.contributors3 }
          else { k with contributors := req :: k.contributors })
        (.leaving b none) (fun _ _ hx => by cases version3 <;> exact hx)
        (fun _ => by cases version3 <;> rfl)
        (fun k other ho => by
          cases version3 with
          | false => exact .inl ho
          | true =>
            exact (mem_cons.1 ho).elim (fun heq => .inr ⟨heq, .inr ⟨true, hj⟩⟩) .inl)
        (by rw [hj]; exact .pinged b version3 none (by simp))
      exact { h with once := fun h => h.start (by rw [hj]; rfl) rfl }
    · exact setHandler c s req _ (by rw [hj]; exact .pinged b version3 _ (by simp [Reply.discard]))

lemma answerStale (c : Config) (s : State) (i : ℕ) : Served c s (s.answerStale c i) := by
  unfold State.answerStale
  split
  · next oldestTime historicWindow aggBuckets historicBucket b staleBuckets hi =>
    apply (answerBucket c s b _ _ rfl _).setInserter rfl
    · rw [hi]
      exact .drops _ _ _ _ b _
    · exact fun _ req hreq => .stale i _ _ _ _ b _ hi hreq
  · exact (refl c s).setInserter rfl (.collects _ _ _ _)
  · exact (refl c s).setInserter rfl (.collects _ _ _ _)
  · exact refl c s

lemma respond (c : Config) (s : State) (i : ℕ) : Served c s (s.respond i) := by
  unfold State.respond
  split
  · next aggBucket b aggBuckets sendErr hi =>
    apply (answerBucket c s b _ _ rfl _).setInserter rfl
    · rw [hi]
      exact .responds _ b _ _
    · intro hd req hreq
      cases sendErr with
      | none => exact .inserted i _ b _ hi hreq
      | some err => exact absurd hd (by simp [insertReply, Reply.discard])
  · next b sendErr hi =>
    have h := (modify c s b (fun k => { k with contributorsSimulatedErrors := [] })
      (fun _ _ hx => hx) (fun _ => rfl) (fun _ _ hr => hr)).setInserter rfl
      (.idles (s.inserter i))
    refine { h with answers := ?_, once := fun h => h.finishAll _ _ }
    intro x hx hd
    rcases mem_finishAll hx with hx | ⟨_, he⟩
    · exact .inl hx
    · simp [he, Reply.discard] at hd
  · exact (refl c s).setInserter rfl (.idles _)
  · exact refl c s

lemma sendReady (c : Config) (s : State) (receiver : Option ℕ) :
    Served c s (s.sendReady c receiver) := by
  unfold State.sendReady
  split
  · exact refl c s
  · next b rest hr =>
    split_ifs
    · exact refl c s
    · exact { refl c s with }
    · exact { refl c s with }
    · exact { refl c s with }
    split
    · next i =>
      split_ifs
      · exact { (refl c s).setInserter rfl (.receives (s.inserter i) b) with }
      · exact refl c s
    · exact { answerBucket c s b .rpcError (.conveyorFull (s.time b) _) rfl
        (fun hd => absurd hd (by simp [Reply.discard])) with }

lemma step (c : Config) (s : State) (hn : ∀ req, NoDiscard (s.handler req)) (a : Action) :
    Served c s (s.step c a) := by
  have hc : ∀ req b, Served c s (s.modifyBucket b (fun k => k.cancelLongpoll req)) :=
    fun req b => modify c s b _ (fun _ _ hx => hx) (fun _ => rfl)
      (fun _ _ hr => (mem_filter.1 hr).1)
  cases a with
  | advance now shortWindow =>
    simp only [State.step]
    split
    · exact of_made (Made.advanceRecentBuckets s now shortWindow)
    · exact refl c s
  | sendReady receiver => exact sendReady c s receiver
  | arrive req denyOldAgents historicWindow simulate started =>
    exact arrival (arrival_arrive s req denyOldAgents historicWindow simulate started)
  | proceed req started => exact proceed c s req started (hn req)
  | lookAround i willInsertHistoric =>
    simp only [State.step, State.lookAround]
    split
    · split_ifs
      · exact { refl c s with }
      · exact (refl c s).setInserter rfl (.collects _ _ _ _)
    · exact refl c s
  | popOldestHistoricBucket i historicWindow =>
    simp only [State.step, State.popOldestHistoricBucket]
    split
    · next oldestTime aggBuckets hi =>
      generalize (s.historicBuckets.filter
        (fun b => !s.isStale oldestTime historicWindow b)).foldl s.older none = historicBucket
      have h := (refl c s).setInserter rfl (.pops (s.inserter i) oldestTime historicWindow
        aggBuckets historicBucket
        (s.historicBuckets.filter (s.isStale oldestTime historicWindow))
        (fun b hb => mem_filter.1 hb))
      split_ifs
      · exact { h with }
      · exact { h with }
    · exact refl c s
  | resume i =>
    simp only [State.step, State.resume]
    split
    · next hi =>
      split_ifs
      · exact (refl c s).setInserter rfl (by rw [hi]; exact .resumes _ _ _ _ _)
      · exact refl c s
    · exact refl c s
  | answerStale i => exact answerStale c s i
  | marshal i keep =>
    simp only [State.step, State.marshal]
    split
    · next aggBuckets hi =>
      generalize hrows : aggBuckets.flatMap (fun b => (s.bucket b).merged) = rows
      have h : Served c s
          { s with sampledOut := s.sampledOut ++ rows.filter (!keep ·) } :=
        { refl c s with
          sampledOut := fun _ hx => mem_append_left _ hx, inserter := fun _ => .same _ }
      apply h.setInserter rfl
      rw [hi]
      refine .marshals _ _ _ _ (fun b hb x hx => ?_)
      have hx : x ∈ rows := hrows ▸ mem_flatMap.2 ⟨b, hb, hx⟩
      cases hk : keep x with
      | true => exact mem_append_left _ (mem_filter.2 ⟨hx, hk⟩)
      | false => exact mem_append_right _ (mem_append_right _ (mem_filter.2 ⟨hx, by simp [hk]⟩))
    · exact refl c s
  | sendToClickhouse i sendErr =>
    simp only [State.step, State.sendToClickhouse]
    split
    · next aggBuckets body hi =>
      split
      · next hlocal =>
        apply (refl c s).setInserter rfl
        rw [hi]
        exact .sends _ _ _ _ (fun remote => absurd hlocal remote)
      have h : Served c s
          { s with inserted := if sendErr.isNone then s.inserted ++ body else s.inserted } := by
        refine { refl c s with inserted := ?_, inserter := fun _ => .same _ }
        intro x hx
        split
        · exact mem_append_left _ hx
        · exact hx
      apply h.setInserter rfl
      rw [hi]
      apply InserterStep.sends
      rintro _ rfl x hx
      exact mem_append_right _ hx
    · exact refl c s
  | respond i => exact respond c s i
  | disconnect req => exact { refl c s with once := fun h => h.cancel req }
  | cancelLongpoll req b =>
    simp only [State.step]
    split
    · exact refl c s
    · exact hc req b
  | writeEmptyResponse req b =>
    refine { hc req b with answers := ?_, once := fun h => h.finishAll .rpcError [req] }
    intro x hx hd
    have hx : x ∈ (s.replies.finishAll .rpcError [req]).answers := hx
    rcases mem_finishAll hx with hx | ⟨_, he⟩
    · exact .inl hx
    · simp [he, Reply.discard] at hd
  | disableNewInsert => exact { refl c s with }

end Served

/-- The stale buckets of an inserter are before the historic window. -/
def StaleBuckets (s : State) : Inserter → Prop
  | .waiting oldestTime historicWindow _ _ staleBuckets
  | .dropping oldestTime historicWindow _ _ staleBuckets =>
    ∀ b ∈ staleBuckets, s.isStale oldestTime historicWindow b = true
  | _ => True

/-- The part is merged into a bucket, as far as its strings are concerned. -/
def Valid (c : Config) (req : ℕ) : Part → Prop
  | .item index => (c.request req).validItem index = true
  | .statuses => True

/-- The valid data of the request is in `rows`. -/
def Holds (c : Config) (rows : List (ℕ × Part)) (req : ℕ) : Prop :=
  ∀ part ∈ (c.request req).parts, Valid c req part → (req, part) ∈ rows

lemma HoldsItems.holds {rows : List (ℕ × Part)} (hi : HoldsItems c rows req)
    (hs : (req, .statuses) ∈ rows) : Holds c rows req := by
  intro part hp hv
  cases part with
  | statuses => exact hs
  | item index =>
    refine hi _ (mem_map_of_mem (mem_filter.2 ⟨?_, hv⟩))
    unfold Request.parts at hp
    split at hp
    · simpa using hp
    · exact absurd hp not_mem_nil

structure Acks (c : Config) (s : State) : Prop where
  noDiscard : ∀ req, NoDiscard (s.handler req)
  pinging : ∀ req b version3, s.handler req = .pinging b version3 → (c.request req).parts = []
  registering : ∀ req b, s.handler req = .registering b → HoldsItems c (s.bucket b).merged req
  summing : ∀ req b reply, s.handler req = .summing b reply →
    HoldsItems c (s.bucket b).merged req
  contributed : ∀ b, ∀ req ∈ (s.bucket b).contributors3,
    Holds c (s.bucket b).merged req ∨ ∃ reply, s.handler req = .summing b reply
  sending : ∀ i aggBuckets body, s.inserter i = .sending aggBuckets body →
    ∀ b ∈ aggBuckets, ∀ req ∈ (s.bucket b).contributors3, Holds c (body ++ s.sampledOut) req
  responding : c.khAddr ≠ "" → ∀ i aggBucket aggBuckets,
    s.inserter i = .responding aggBucket aggBuckets none →
    ∀ b ∈ aggBuckets, ∀ req ∈ (s.bucket b).contributors3, Holds c (s.inserted ++ s.sampledOut) req
  stale : ∀ i, s.StaleBuckets (s.inserter i)
  honest : ∀ x ∈ s.replies.answers, x.2.discard = true →
    Holds c (s.inserted ++ s.sampledOut) x.1 ∨ c.khAddr = "" ∨ Rejected c x.1 x.2

lemma Holds.mono {rows rows' : List (ℕ × Part)} (h : Holds c rows req)
    (hr : ∀ x ∈ rows, x ∈ rows') :
    Holds c rows' req :=
  fun part hp hv => hr _ (h part hp hv)

namespace Acks

variable {s' : State}

/-- A step adds no contributor to such a bucket. -/
lemma contributors3_of_exclusive (ho : s.Owned) (he : Effect c s s')
    (hb : b ∈ (s.inserter i).exclusive) (hreq : req ∈ (s'.bucket b).contributors3) :
    req ∈ (s.bucket b).contributors3 := by
  have hn := ho.not_joined hb req
  rcases he.contributors3 b req hreq with ⟨hold, _⟩ | ⟨hj, _⟩ | ⟨version3, hj⟩
  · exact hold
  · exact absurd (by rw [hj]; rfl) hn
  · exact absurd (by rw [hj]; rfl) hn

lemma isStale_congr (ht : s'.time b = s.time b) (oldestTime historicWindow : BitVec 32) :
    s'.isStale oldestTime historicWindow b = s.isStale oldestTime historicWindow b := by
  simp only [isStale, ht]

section

variable (h : s.Acks c)
include h

lemma handler_step (ho : s.Owned) (he : Effect c s s') (req : ℕ) : NoDiscard (s'.handler req) ∧
      (∀ b version3, s'.handler req = .pinging b version3 → (c.request req).parts = []) ∧
      (∀ b, s'.handler req = .registering b → HoldsItems c (s'.bucket b).merged req) ∧
      ∀ b reply, s'.handler req = .summing b reply → HoldsItems c (s'.bucket b).merged req := by
  have hg : ∀ b, (s.handler req).bucket? = some b → ∀ x ∈ (s.bucket b).merged,
      x ∈ (s'.bucket b).merged := fun b hb => he.merged b (ho.joined req b hb).1
  have hr := h.registering req
  have hs := h.summing req
  have ha := h.pinging req
  have hn := h.noDiscard req
  have hc := he.handler req
  generalize s.handler req = w at *
  generalize s'.handler req = w' at *
  cases hc with
  | same =>
    refine ⟨hn, ha, ?_, ?_⟩
    · rintro b rfl
      exact fun part hp => hg b rfl _ (hr b rfl part hp)
    · rintro b reply rfl
      exact fun part hp => hg b rfl _ (hs b reply rfl part hp)
  | merges b hm =>
    refine ⟨trivial, by simp, ?_, by simp⟩
    rintro x hx
    cases hx
    exact hm
  | registers b reply hd =>
    refine ⟨?_, by simp, by simp, ?_⟩
    · cases reply with
      | none => trivial
      | some r => exact hd r rfl
    · intro x reply' hx
      cases hx
      exact fun part hp => hg b rfl _ (hr b rfl part hp)
  | sums b reply hm =>
    refine ⟨?_, by simp, by simp, by simp⟩
    cases reply with
    | none => trivial
    | some r => exact hn
  | simulated b reply hd | pinged b version3 reply hd =>
    refine ⟨?_, by simp, by simp, by simp⟩
    cases reply with
    | none => trivial
    | some r => exact hd r rfl
  | pings b version3 hk => exact ⟨trivial, fun _ _ _ => hk, by simp, by simp⟩
  | replies | joins | simulates | leaves => exact ⟨trivial, by simp, by simp, by simp⟩

lemma contributed_step (he : Effect c s s') (hreq : req ∈ (s'.bucket b).contributors3) :
    Holds c (s'.bucket b).merged req ∨ ∃ reply, s'.handler req = .summing b reply := by
  rcases he.contributors3 b req hreq with ⟨hold, hg⟩ | ⟨_, hj⟩ | ⟨version3, hj⟩
  · rcases h.contributed b req hold with hm | ⟨reply, hj⟩
    · exact .inl (hm.mono hg)
    · have hit : HoldsItems c (s'.bucket b).merged req :=
        fun part hp => hg _ (h.summing req b reply hj part hp)
      have hs := he.handler req
      rw [hj] at hs
      generalize hw' : s'.handler req = w' at hs
      cases hs with
      | same => exact .inr ⟨reply, rfl⟩
      | sums _ _ hm => exact .inl (hit.holds hm)
  · exact .inr ⟨none, hj⟩
  · refine .inl (fun part hp => ?_)
    rw [h.pinging req b version3 hj] at hp
    exact absurd hp not_mem_nil

lemma sending_step (ho : s.Owned) (he : Effect c s s') {body : List (ℕ × Part)}
    (hi : s'.inserter i = .sending aggBuckets body) :
    ∀ b ∈ aggBuckets, ∀ req ∈ (s'.bucket b).contributors3,
      Holds c (body ++ s'.sampledOut) req := by
  intro b hb req hreq
  have hs := he.inserter i
  rw [hi] at hs
  generalize hw : s.inserter i = w at hs
  cases hs with
  | same =>
    have hold := contributors3_of_exclusive ho he (by rw [hw]; exact hb) hreq
    exact (h.sending i aggBuckets body hw b hb req hold).mono (he.grown (fun _ hx => hx))
  | marshals _ _ _ _ hd =>
    have hex : b ∈ (s.inserter i).exclusive := by rw [hw]; exact hb
    have hold := contributors3_of_exclusive ho he hex hreq
    rcases h.contributed b req hold with hm | ⟨reply, hj⟩
    · exact hm.mono (hd b hb)
    · exact absurd (by rw [hj]; rfl) (ho.not_joined hex req)

lemma responding_step (ho : s.Owned) (he : Effect c s s') (remote : c.khAddr ≠ "")
    {aggBucket : Option ℕ} (hi : s'.inserter i = .responding aggBucket aggBuckets none) :
    ∀ b ∈ aggBuckets, ∀ req ∈ (s'.bucket b).contributors3,
      Holds c (s'.inserted ++ s'.sampledOut) req := by
  intro b hb req hreq
  have hs := he.inserter i
  rw [hi] at hs
  generalize hw : s.inserter i = w at hs
  have hold (hex : b ∈ w.exclusive) : req ∈ (s.bucket b).contributors3 :=
    contributors3_of_exclusive ho he (hw ▸ hex) hreq
  cases hs with
  | same => exact (h.responding remote i _ _ hw b hb req (hold hb)).mono (he.grown he.inserted)
  | sends _ _ body _ hd =>
    exact (h.sending i _ body hw b hb req (hold hb)).mono (he.grown (hd remote rfl))
  | responds _ first =>
    have hb := mem_cons_of_mem first hb
    exact (h.responding remote i _ _ hw b hb req (hold hb)).mono (he.grown he.inserted)

lemma stale_step (ho : s.Owned) (he : Effect c s s') (i : ℕ) : s'.StaleBuckets (s'.inserter i) := by
  have hk : ∀ b ∈ (s.inserter i).stale, ∀ oldestTime historicWindow,
      s'.isStale oldestTime historicWindow b = s.isStale oldestTime historicWindow b :=
    fun b hb => isStale_congr (he.time b (ho.held i b (Inserter.stale_subset _ b hb)).1)
  have hl := h.stale i
  have hp := he.inserter i
  generalize s.inserter i = w at *
  generalize s'.inserter i = w' at *
  cases hp with
  | same =>
    cases w with
    | waiting | dropping => exact fun b hb => (hk b hb _ _).trans (hl b hb)
    | _ => trivial
  | pops _ oldestTime historicWindow _ _ _ hs =>
    intro b hb
    rw [isStale_congr (he.time b (ho.historic_lt b (hs b hb).1))]
    exact (hs b hb).2
  | resumes => exact fun b hb => (hk b hb _ _).trans (hl b hb)
  | drops _ _ _ _ first =>
    exact fun b hb => (hk b (.tail _ hb) _ _).trans (hl b (.tail _ hb))
  | _ => trivial

lemma honest_step (hs : s.Seated c) (he : Effect c s s') (hx : x ∈ s'.replies.answers)
    (hd : x.2.discard = true) :
    Holds c (s'.inserted ++ s'.sampledOut) x.1 ∨ c.khAddr = "" ∨ Rejected c x.1 x.2 := by
  obtain ⟨req, reply⟩ := x
  rcases he.answers _ hx hd with hold | hn
  · exact (h.honest _ hold hd).imp (fun hh => hh.mono (he.grown he.inserted)) id
  · cases hn with
    | rejected _ hr => exact .inr (.inr hr)
    | inserted i aggBucket b aggBuckets hi hreq =>
      by_cases remote : c.khAddr = ""
      · exact .inr (.inl remote)
      · exact .inl ((h.responding remote i _ _ hi b (.head _) req hreq).mono
          (he.grown he.inserted))
    | stale i oldestTime historicWindow aggBuckets historicBucket b staleBuckets hi hreq =>
      have ha := hs.stale i b (by rw [hi]; exact (.head _))
      have hf := hs.contributor b req (Bucket.mem_everyone.2 (.inr (.inl hreq)))
      rw [Fits, if_pos ha] at hf
      have ht := h.stale i
      rw [hi] at ht
      have ht := ht b (.head _)
      exact .inr (.inr ⟨hf.symm, by simpa [isStale] using ht⟩)

lemma step (hs : s.Sound c) (a : Action) : (s.step c a).Acks c := by
  have he := (Served.step c s h.noDiscard a).toEffect
  have hh := fun req => h.handler_step hs.owned he req
  constructor
  · exact fun req => (hh req).1
  · exact fun req => (hh req).2.1
  · exact fun req => (hh req).2.2.1
  · exact fun req => (hh req).2.2.2
  · exact fun b req hreq => h.contributed_step he hreq
  · exact fun i _ _ hi => h.sending_step hs.owned he hi
  · exact fun remote i _ _ hi => h.responding_step hs.owned he remote hi
  · exact fun i => h.stale_step hs.owned he i
  · exact fun x hx hd => h.honest_step hs.seated he hx hd

end

lemma start (c : Config) (now : BitVec 32) (shortWindow : ℕ) : (start now shortWindow).Acks c := by
  have hm := Made.advanceRecentBuckets initial now shortWindow
  have hn : ∀ b, ((State.start now shortWindow).bucket b).contributors3 = [] := by
    intro b
    rcases hm.bucket b with hb | hb
    · exact congrArg Bucket.contributors3 hb
    · exact hb.2
  have hh : ∀ req, (State.start now shortWindow).handler req = .waiting :=
    fun req => congrFun hm.handler req
  have hi : ∀ i, (State.start now shortWindow).inserter i = .idle := fun i => congrFun hm.inserter i
  have hr : (State.start now shortWindow).replies.answers = [] := congrArg answers hm.replies
  constructor <;> simp [hn, hh, hi, hr, NoDiscard, StaleBuckets]

end Acks

lemma once_start (now : BitVec 32) (shortWindow : ℕ) :
    Once (start now shortWindow).handler (start now shortWindow).replies := by
  have hm := Made.advanceRecentBuckets initial now shortWindow
  have hr : (start now shortWindow).replies = initial.replies := hm.replies
  rw [hr]
  refine ⟨⟨nodup_nil, ?_⟩, ?_⟩
  · exact nofun
  · exact fun req _ => ⟨not_mem_nil, not_mem_nil⟩

/-- A request for second 1002 from its arrival to the insert of its bucket, where the sampler
keeps what `keep` says. -/
def oneInsert (keep : ℕ × Part → Bool) : List Action :=
  [.arrive 0 true 100 false true, .proceed 0 true, .proceed 0 true, .proceed 0 true,
    .proceed 0 true, .advance 1008 5] ++ List.replicate 7 (.sendReady none) ++
  [.sendReady (some 0), .lookAround 0 false, .marshal 0 keep, .sendToClickhouse 0 none, .respond 0]

/-- A request is told to discard its bucket although some of its data is in no insert. -/
def Lost (c : Config) (s : State) (req : ℕ) : Prop :=
  (req, .inserted) ∈ s.replies.answers ∧
    ∃ part ∈ (c.request req).parts, (req, part) ∉ s.inserted

end State

end Aggregator
