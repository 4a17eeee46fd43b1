import StatsHouse.Aggregator

/-!
# Who can reach a bucket of the aggregator

A handler gets to a bucket through the window or through the historic map, under `a.mu`, and
holds the bucket's `sendMu` for reading while it works. The ticker and the inserters first take
a bucket out of these two and then wait for its readers. Hence no handler is ever in a bucket
that an inserter owns, and none will come.
-/

namespace Aggregator

open List Or Inserter
variable {req : ℕ} {historicWindow : BitVec 32} {best : Option ℕ} {args : Request}

lemma Inserter.exclusive_subset (w : Inserter) : ∀ b ∈ w.exclusive, b ∈ w.buckets := by
  intro b hb
  cases w with
  | waiting oldestTime historicWindow aggBuckets historicBucket staleBuckets =>
    exact mem_append_left _ (mem_append_left _ hb)
  | _ => exact hb

namespace State

variable {c : Config} {s : State}

/-- The request was refused for a reason that lies in itself and in the seconds that the
window spans. -/
def Rejected (c : Config) (req : ℕ) : Reply → Prop
  | .malformed err => (c.request req).malformed = some err
  | .tooOld buildCommitTs =>
    buildCommitTs = (c.request req).buildCommitTs ∧ buildCommitTs < leastAllowedAgentCommitTs
  | .wrongShard shardReplica ourShardReplica =>
    c.withoutCluster = false ∧ shardReplica = (c.request req).shardReplica ∧
      ourShardReplica = c.ourShardReplica ∧ shardReplica ≠ ourShardReplica
  | .future historic roundedToOurTime newestTime =>
    historic = (c.request req).historic ∧
      roundedToOurTime = c.roundedToOurTime (c.request req).time ∧ newestTime < roundedToOurTime
  | .beyondHistoricWindow roundedToOurTime oldestTime historicWindow =>
    roundedToOurTime = c.roundedToOurTime (c.request req).time ∧
      historicWindow ≤ oldestTime ∧ roundedToOurTime < oldestTime - historicWindow
  | .staleBucket time oldestTime historicWindow =>
    time = (c.request req).time ∧ historicWindow ≤ oldestTime ∧ time < oldestTime - historicWindow
  | _ => False

/-- The second `t` leads to a bucket of the window: it is within the window or the oldest one. -/
def Reaches (c : Config) (s : State) (t : BitVec 32) : Prop :=
  (s.frontTime ≤ c.roundedToOurTime t ∧ c.roundedToOurTime t ≤ s.newestTime) ∨ t = s.frontTime

/-- The states a request may lead to when it arrives. -/
inductive Arrival (c : Config) (s : State) (req : ℕ) : State → Prop
  | unchanged : Arrival c s req s
  | panic (hs : s.recentBuckets = []) : Arrival c s req (s.panic .indexOutOfRange)
  | reply (hw : s.handler req = .waiting) (r : Reply)
      (hr : r.discard = true → Rejected c req r) : Arrival c s req (s.reply req r)
  | hijack (hw : s.handler req = .waiting) :
      Arrival c s req { s.setHandler req .done with replies := s.replies.start req }
  | historic (hw : s.handler req = .waiting) :
      Arrival c s req (s.joinHistoric req (c.request req).time)
  | merging (hw : s.handler req = .waiting) (t : BitVec 32) (ht : s.Reaches c t) :
      Arrival c s req (s.joinRecent req (c.roundedToOurTime t - s.frontTime).toNat .merging)
  | simulating (hw : s.handler req = .waiting) (t : BitVec 32) (ht : s.Reaches c t) :
      Arrival c s req (s.joinRecent req (c.roundedToOurTime t - s.frontTime).toNat .simulating)
  | pinging (hw : s.handler req = .waiting) (t : BitVec 32) (ht : s.Reaches c t)
      (version3 : Bool) (hk : (c.request req).parts = []) :
      Arrival c s req (s.joinRecent req (c.roundedToOurTime t - s.frontTime).toNat
        (fun b => .pinging b version3))

variable {oldestTime newestTime : BitVec 32}

/-- What an accepted request is accepted for. -/
lemma place_recent {index : ℕ}
    (h : place c args oldestTime newestTime historicWindow = .ok (.recent index)) :
    index = (c.roundedToOurTime args.time - oldestTime).toNat ∧
      oldestTime ≤ c.roundedToOurTime args.time ∧ c.roundedToOurTime args.time ≤ newestTime := by
  unfold place at h
  dsimp only at h
  split_ifs at h <;> cases h
  all_goals
    refine ⟨rfl, ?_, ?_⟩ <;> apply BitVec.not_lt.1 <;> assumption

/-- A request that no bucket is found for is refused for its second. -/
lemma place_error {r : Reply}
    (h : place c (c.request req) oldestTime newestTime historicWindow = .error r)
    (hd : r.discard = true) : Rejected c req r := by
  unfold place at h
  dsimp only at h
  split_ifs at h with hh hn hw hold hnw' hold' <;> cases h
  · exact ⟨hh.symm, rfl, hn⟩
  · exact ⟨rfl, hw⟩
  · exact ⟨(Bool.not_eq_true _ ▸ hh).symm, rfl, hnw'⟩
  · exact absurd hd (by simp [Reply.discard])

lemma arrival_chooseBucket (hw : s.handler req = .waiting) (historicWindow : BitVec 32)
    (simulate started : Bool) :
    Arrival c s req (s.chooseBucket c req historicWindow simulate started) := by
  unfold chooseBucket
  split
  · next hs => exact .panic hs
  split
  · unfold hijack
    split
    · exact .hijack hw
    · exact .reply hw _ (fun hd => absurd hd (by simp [Reply.discard]))
  split
  · next r hp => exact .reply hw r (place_error hp)
  · next time hp =>
    unfold place at hp
    dsimp only at hp
    split_ifs at hp <;> cases hp
    exact .historic hw
  · next index hp =>
    obtain ⟨rfl, hin⟩ := place_recent hp
    split
    · exact .simulating hw _ (inl hin)
    · exact .merging hw _ (inl hin)

lemma arrival_arrive (s : State) (req : ℕ) (denyOldAgents : Bool) (historicWindow : BitVec 32)
    (simulate started : Bool) :
    Arrival c s req (s.arrive c req denyOldAgents historicWindow simulate started) := by
  unfold arrive
  split
  · next hw _ =>
    unfold handleSendSourceBucket
    dsimp only
    split
    · next err her => exact .reply hw _ (fun _ => her)
    split_ifs with hold hh
    · exact .reply hw _ (fun _ => ⟨rfl, hold.2⟩)
    · exact .reply hw _ (fun _ => ⟨by simpa using hh.1, rfl, rfl, hh.2⟩)
    · exact arrival_chooseBucket hw historicWindow simulate started
  · next version3 hw hk =>
    unfold handleSendKeepAliveAny
    dsimp only
    split_ifs with _ _ hs
    · exact .reply hw _ (fun hd => absurd hd (by simp [Reply.discard]))
    · exact .reply hw _ (fun hd => absurd hd (by simp [Reply.discard]))
    · exact .panic hs
    · exact .pinging hw _ (inr rfl) version3 (by simp [Request.parts, hk])
  · exact .unchanged

/-- A field that the change of a bucket keeps. -/
lemma bucket_addBucket {x : ℕ} (hx : x ≠ s.allocated) {historic : Bool} {time : BitVec 32} :
    (s.addBucket historic time).bucket x = s.bucket x :=
  Function.update_of_ne hx _ _

lemma field_modify {α : Type*} (g : Bucket → α) {b : ℕ} {f : Bucket → Bucket}
    (hg : ∀ k, g (f k) = g k) (x : ℕ) : g ((s.modifyBucket b f).bucket x) = g (s.bucket x) := by
  by_cases hx : x = b
  · simp [modifyBucket, hx, hg]
  · simp [modifyBucket, hx]

/-- No handler will join the bucket any more. -/
def Retired (s : State) (b : ℕ) : Prop :=
  b < s.allocated ∧ b ∉ s.recentBuckets ∧ b ∉ s.historicBuckets

structure Owned (s : State) : Prop where
  nodup : s.recentBuckets.Nodup
  recent_lt : ∀ b ∈ s.recentBuckets, b < s.allocated
  historic_lt : ∀ b ∈ s.historicBuckets, b < s.allocated
  apart : ∀ b ∈ s.recentBuckets, b ∉ s.historicBuckets
  ready : ∀ b ∈ s.readyBuckets, s.Retired b
  held : ∀ i, ∀ b ∈ (s.inserter i).buckets, s.Retired b
  joined : ∀ req b, (s.handler req).bucket? = some b → b < s.allocated ∧ req ∈ (s.bucket b).readers
  closed : ∀ i, ∀ b ∈ (s.inserter i).exclusive, (s.bucket b).readers = []

namespace Owned

lemma initial : State.initial.Owned := by
  constructor <;> simp [State.initial, buckets, exclusive, Handler.bucket?]

section

variable (h : s.Owned)
include h

lemma retired_exclusive {i b : ℕ} (hb : b ∈ (s.inserter i).exclusive) : s.Retired b :=
  h.held i b (exclusive_subset _ b hb)

/-- No handler is in a bucket that an inserter has to itself. -/
lemma not_joined {i b : ℕ} (hb : b ∈ (s.inserter i).exclusive) (req : ℕ) :
    (s.handler req).bucket? ≠ some b := by
  intro hj
  have hr := (h.joined req b hj).2
  rw [h.closed i b hb] at hr
  exact not_mem_nil hr

lemma modify (b : ℕ) (f : Bucket → Bucket) (hf : ∀ k, (f k).readers = k.readers) :
    (s.modifyBucket b f).Owned := by
  have hr := field_modify (s := s) (b := b) Bucket.readers hf
  exact { h with
    joined := fun req x hx => by
      rw [hr]
      exact h.joined req x hx
    closed := fun i x hx => (hr x).trans (h.closed i x hx) }

lemma setHandler (req : ℕ) (w : Handler)
    (hw : ∀ b, w.bucket? = some b → b < s.allocated ∧ req ∈ (s.bucket b).readers) :
    (s.setHandler req w).Owned :=
  { h with
    joined := (Function.forall_update_iff s.handler fun req w => ∀ b, w.bucket? = some b →
      b < s.allocated ∧ req ∈ (s.bucket b).readers).2 ⟨hw, fun other _ => h.joined other⟩ }

/-- A handler that goes on in its bucket. -/
lemma moveHandler {b : ℕ} (w : Handler) (hj : (s.handler req).bucket? = some b)
    (hw : w.bucket? = some b) : (s.setHandler req w).Owned := by
  apply h.setHandler
  intro x hx
  rw [hw] at hx
  cases hx
  exact h.joined req b hj

lemma setInserter (i : ℕ) (w : Inserter) (hb : ∀ b ∈ w.buckets, s.Retired b)
    (he : ∀ b ∈ w.exclusive, (s.bucket b).readers = []) : (s.setInserter i w).Owned :=
  { h with
    held := (Function.forall_update_iff s.inserter fun _ w => ∀ b ∈ w.buckets, s.Retired b).2
      ⟨hb, fun j _ => h.held j⟩
    closed := (Function.forall_update_iff s.inserter fun _ w =>
      ∀ b ∈ w.exclusive, (s.bucket b).readers = []).2 ⟨he, fun j _ => h.closed j⟩ }

/-- An inserter that keeps only buckets it had to itself. -/
lemma shrinkInserter (i : ℕ) (w : Inserter) (hw : ∀ b ∈ w.buckets, b ∈ (s.inserter i).exclusive) :
    (s.setInserter i w).Owned := by
  apply h.setInserter
  · exact fun b hb => h.retired_exclusive (hw b hb)
  · exact fun b hb => h.closed i b (hw b (exclusive_subset w b hb))

lemma join (req b : ℕ) (w : Handler) (hw : w.bucket? = some b)
    (hb : b ∈ s.recentBuckets ∨ b ∈ s.historicBuckets) : (s.join req b w).Owned := by
  have hlt := hb.elim (h.recent_lt b) (h.historic_lt b)
  refine { h with joined := ?_, closed := ?_ }
  · intro other x hx
    by_cases ho : other = req
    · subst ho
      have ha : x = b := by
        simpa [State.join, State.setHandler, hw, eq_comm] using hx
      subst ha
      exact ⟨hlt, by simp [State.join, State.setHandler, modifyBucket]⟩
    · have hj := h.joined other x
        (by simpa [State.join, State.setHandler, modifyBucket, ho] using hx)
      refine ⟨hj.1, ?_⟩
      by_cases ha : x = b
      · subst ha
        simp [State.join, State.setHandler, modifyBucket, hj.2]
      · simpa [State.join, State.setHandler, modifyBucket, ha] using hj.2
  · intro i x hx
    have hr := h.retired_exclusive hx
    have ha : x ≠ b := by
      rintro rfl
      exact hb.elim hr.2.1 hr.2.2
    simpa [State.join, State.setHandler, modifyBucket, ha] using h.closed i x hx

lemma leave (req b : ℕ) : (s.leave req b).Owned := by
  refine { h with joined := ?_, closed := ?_ }
  · intro other x hx
    have ho : other ≠ req := by
      rintro rfl
      simp [State.leave, State.setHandler, Handler.bucket?] at hx
    have hj := h.joined other x
      (by simpa [State.leave, State.setHandler, modifyBucket, ho] using hx)
    refine ⟨hj.1, ?_⟩
    by_cases hb : x = b
    · subst hb
      simp [State.leave, State.setHandler, modifyBucket, hj.2, ho]
    · simpa [State.leave, State.setHandler, modifyBucket, hb] using hj.2
  · intro i x hx
    have hc := h.closed i x hx
    by_cases hb : x = b
    · subst hb
      simp [State.leave, State.setHandler, modifyBucket, hc]
    · simpa [State.leave, State.setHandler, modifyBucket, hb] using hc

lemma addBucket (historic : Bool) (time : BitVec 32) : (s.addBucket historic time).Owned := by
  have ht : ∀ x, s.Retired x → (s.addBucket historic time).Retired x := by
    rintro x ⟨hlt, hr, hh⟩
    have hne := Nat.ne_of_lt hlt
    refine ⟨Nat.lt_succ_of_lt hlt, ?_, ?_⟩
    · cases historic <;> simp [State.addBucket, hr, hne]
    · cases historic <;> simp [State.addBucket, hh, hne]
  have hc := h.recent_lt
  have hs := h.historic_lt
  constructor
  · cases historic with
    | false =>
      refine nodup_append.2 ⟨h.nodup, pairwise_singleton _ _, ?_⟩
      intro x hx y hy
      rw [mem_singleton.1 hy]
      exact Nat.ne_of_lt (h.recent_lt x hx)
    | true => exact h.nodup
  · intro x hx
    cases historic <;> simp [State.addBucket] at hx ⊢ <;> grind
  · intro x hx
    cases historic <;> simp [State.addBucket] at hx ⊢ <;> grind
  · intro x hx hh
    have ha := h.apart x
    cases historic <;> simp [State.addBucket] at hx hh <;> grind
  · exact fun x hx => ht x (h.ready x hx)
  · exact fun i x hx => ht x (h.held i x hx)
  · intro req x hx
    have hj := h.joined req x hx
    rw [bucket_addBucket (Nat.ne_of_lt hj.1)]
    exact ⟨Nat.lt_succ_of_lt hj.1, hj.2⟩
  · intro i x hx
    rw [bucket_addBucket (Nat.ne_of_lt (h.retired_exclusive hx).1)]
    exact h.closed i x hx

lemma popReady (now : BitVec 32) (shortWindow : ℕ) : (s.popReady now shortWindow).Owned := by
  have hs : (s.popReady now shortWindow).recentBuckets.Sublist s.recentBuckets :=
    dropWhile_sublist _
  have ht : ∀ x, s.Retired x → (s.popReady now shortWindow).Retired x :=
    fun x hx => ⟨hx.1, fun hr => hx.2.1 (hs.subset hr), hx.2.2⟩
  have hp : (s.popReady now shortWindow).readyBuckets ++
      (s.popReady now shortWindow).recentBuckets = s.recentBuckets :=
    takeWhile_append_dropWhile
  exact { h with
    nodup := h.nodup.sublist hs
    recent_lt := fun x hx => h.recent_lt x (hs.subset hx)
    apart := fun x hx => h.apart x (hs.subset hx)
    ready := fun x hx => by
      have hx' := (takeWhile_sublist _).subset hx
      refine ⟨h.recent_lt x hx', ?_, h.apart x hx'⟩
      intro hr
      have hn := h.nodup
      rw [← hp] at hn
      exact (nodup_append.1 hn).2.2 x hx x hr rfl
    held := fun i x hx => ht x (h.held i x hx) }

end

lemma older_mem {b x : ℕ} (hx : s.older best b = some x) : x = b ∨ best = some x := by
  unfold older at hx
  split at hx
  · exact inl (Option.some.inj hx).symm
  · split at hx
    · exact inl (Option.some.inj hx).symm
    · exact inr hx

lemma foldl_older_mem (bs : List ℕ) {x : ℕ} (hx : bs.foldl s.older best = some x) :
    x ∈ bs ∨ best = some x := by
  induction bs generalizing best with
  | nil => exact inr hx
  | cons b bs ih =>
    rcases ih hx with hm | hm
    · exact inl (.tail _ hm)
    · rcases older_mem hm with rfl | hb
      · exact inl (.head _)
      · exact inr hb

end Owned

end State

end Aggregator
