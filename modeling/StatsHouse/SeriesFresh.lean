import StatsHouse.SeriesCache

/-!
# How old cached series can be

A chunk remembers when a load of it last started and when it was last invalidated, and the
rows in it are taken for as fresh as that start. They are, as long as they came from the load
that started last. Until that load is done, and for good if it fails, the chunk has the rows of
an earlier one under the later start.
-/

namespace SeriesCache

open List Function State
variable {V T : Type} {c : Chunk V T} {pending : List LoaderChunk} {after : List Nat} {lid : Nat}
  {r : Request} {shard : Shard} {f : T → T} {v : Visit} {a : Action V T} {result : LoadResult V T}
  {l : Loader V T} {α : Type}

/-- Requests stay as they are, and so do rows that have come. -/
structure Extends (s s' : State V T) : Prop where
  clock : s.clock ≤ s'.clock
  count : s.loaderCount ≤ s'.loaderCount
  request : ∀ p < s.loaderCount, (s'.loaders p).toRequest = (s.loaders p).toRequest
  rows : ∀ p < s.loaderCount, ∀ f, (s.loaders p).result = some (.rows f) →
    (s'.loaders p).result = some (.rows f)

namespace Extends

variable {s s' s'' : State V T}

lemma refl (s : State V T) : Extends s s := ⟨le_rfl, le_rfl, fun _ _ => rfl, fun _ _ _ h => h⟩

lemma trans (h : Extends s s') (h' : Extends s' s'') : Extends s s'' where
  clock := h.clock.trans h'.clock
  count := h.count.trans h'.count
  request p hp := (h'.request p (hp.trans_le h.count)).trans (h.request p hp)
  rows p hp f hf := h'.rows p (hp.trans_le h.count) f (h.rows p hp f hf)

/-- One loader moves and keeps its request and its rows. -/
lemma of_update (later : s.clock ≤ s'.clock) (hcount : s'.loaderCount = s.loaderCount)
    (loaders : s'.loaders = update s.loaders lid l)
    (hrequest : l.toRequest = (s.loaders lid).toRequest)
    (hrows : ∀ f, (s.loaders lid).result = some (.rows f) → l.result = some (.rows f)) :
    Extends s s' where
  clock := later
  count := hcount.ge
  request p _ := by
    rw [loaders]
    rcases eq_or_ne p lid with rfl | hne
    · simpa using hrequest
    · simp [hne]
  rows p _ f hf := by
    rw [loaders]
    rcases eq_or_ne p lid with rfl | hne
    · simpa using hrows f hf
    · simpa [hne] using hf

lemma of_eq (later : s.clock ≤ s'.clock) (count : s'.loaderCount = s.loaderCount)
    (loaders : s'.loaders = s.loaders) : Extends s s' :=
  of_update later count (loaders.trans (update_eq_self 0 _).symm) rfl fun _ hf => hf

lemma await (s : State V T) (lid : Nat) (v : LoaderChunk) : Extends s (s.await lid v) :=
  of_update le_rfl rfl rfl rfl fun _ h => h

lemma startLoad (s : State V T) (lid : Nat) (v : LoaderChunk) : Extends s (s.startLoad lid v) :=
  of_update le_rfl rfl rfl rfl fun _ h => h

lemma copied (s : State V T) (lid : Nat) (f : T → T) (v : LoaderChunk) (d : ChunkData V T) :
    Extends s (s.copied lid f v d) :=
  of_update le_rfl rfl rfl rfl fun _ h => h

lemma newChunk (shard : Shard) (s : State V T) (t : Int) : Extends s (s.newChunk shard t) :=
  of_eq le_rfl rfl rfl

lemma newLoader (later : s.clock ≤ r.timeNow) : Extends s (s.newLoader r) where
  clock := later
  count := Nat.le_succ _
  request p hp := by simp [State.newLoader, State.setLoader, hp.ne]
  rows p hp f hf := by simpa [State.newLoader, State.setLoader, hp.ne] using hf

/-- A result comes once. -/
lemma callReturns {f : Nat → Slot V T} (hn : (s.loaders lid).result = none)
    (h : s.callReturns lid result f = some s') : Extends s s' := by
  obtain ⟨first, rest, -, -, rfl⟩ := callReturns_cases h
  refine of_update le_rfl rfl rfl rfl fun g hg => ?_
  rw [hn] at hg
  cases hg

end Extends

/-- Only chunks and loaders move. -/
structure SameWalk (s s' : State V T) : Prop where
  chunkCount : s'.chunkCount = s.chunkCount
  bucket : s'.bucket = s.bucket
  visiting : s'.visiting = s.visiting

namespace SameWalk

variable {s s' : State V T} {lid : Nat}

lemma awaitCopyChunks (h : s.awaitCopyChunks lid f pending = some s') : SameWalk s s' := by
  induction pending generalizing s with
  | nil =>
    cases h
    exact ⟨rfl, rfl, rfl⟩
  | cons v pending ih =>
    obtain ⟨s₁, hv, hr⟩ := Option.bind_eq_some_iff.1 h
    obtain ⟨hc, hb, hg⟩ := ih hr
    change s.awaitCopyChunk lid f v = some s₁ at hv
    rw [State.awaitCopyChunk] at hv
    split_ifs at hv
    · cases hv
      exact ⟨hc, hb, hg⟩
    · obtain ⟨d, -, rfl⟩ := Option.map_eq_some_iff.1 hv
      exact ⟨hc, hb, hg⟩

lemma startLoads (s : State V T) (lid : Nat) (pending : List LoaderChunk) :
    SameWalk s (s.startLoads lid pending) := by
  induction pending generalizing s with
  | nil => exact ⟨rfl, rfl, rfl⟩
  | cons v pending ih =>
    obtain ⟨hc, hb, hv⟩ := ih (s.startLoad lid v)
    exact ⟨hc, hb, hv⟩

end SameWalk

/-- The chunks of the bucket, of the walk and of its pending list exist. -/
structure Known (s : State V T) : Prop where
  bucket : ∀ id ∈ s.bucket, id < s.chunkCount
  walk : ∀ v, s.visiting = some v → ∀ id ∈ v.before ++ v.after, id < s.chunkCount
  pending : ∀ v, s.visiting = some v → ∀ w ∈ v.pending, w.chunk < s.chunkCount

lemma guard_cases {p : Prop} [Decidable p] {o : Option α} {a : α}
    (h : (if p then o else none) = some a) : p ∧ o = some a := by
  split_ifs at h with hp
  exact ⟨hp, h⟩

namespace Known

variable {s s' : State V T} {shard : Shard} {id : Nat}

lemma of_same (h : Known s) (sameWalk : SameWalk s s') : Known s' := by
  refine ⟨?_, ?_, ?_⟩
  · rw [sameWalk.bucket, sameWalk.chunkCount]
    exact h.bucket
  · rw [sameWalk.visiting, sameWalk.chunkCount]
    exact h.walk
  · rw [sameWalk.visiting, sameWalk.chunkCount]
    exact h.pending

/-- The chunk to visit exists, and so do those behind it. -/
lemma chunkAt (shard : Shard) (h : Known s) (hv : s.visiting = some v) :
    s.chunkCount ≤ (s.chunkAt shard v).1.chunkCount ∧ (s.chunkAt shard v).1.bucket = s.bucket ∧
      (s.chunkAt shard v).2.1 < (s.chunkAt shard v).1.chunkCount ∧
      ∀ id ∈ (s.chunkAt shard v).2.2, id < (s.chunkAt shard v).1.chunkCount := by
  have hw := h.walk v hv
  rcases chunkAt_cases shard s v with ⟨id, rest, ha, -, heq⟩ | heq
  · rw [heq]
    rw [ha] at hw
    exact ⟨le_rfl, rfl, hw id (by simp), fun i hi => hw i (by simp [hi])⟩
  · rw [heq]
    refine ⟨Nat.le_succ _, rfl, Nat.lt_succ_self _, fun i hi => ?_⟩
    exact Nat.lt_succ_of_lt (hw i (mem_append_right _ hi))

lemma visited (h : Known s) (hbefore : ∀ i ∈ v.before, i < s.chunkCount) (hid' : id < s.chunkCount)
    (hafter : ∀ i ∈ after, i < s.chunkCount) (hpending : ∀ w ∈ pending, w.chunk < s.chunkCount) :
    Known (s.visited shard v id after pending) := by
  refine ⟨h.bucket, ?_, ?_⟩
  · rintro _ ⟨⟩ i hi
    simp only [mem_append, mem_singleton] at hi
    rcases hi with (hi | rfl) | hi
    · exact hbefore i hi
    · exact hid'
    · exact hafter i hi
  · rintro _ ⟨⟩
    exact hpending

lemma maybeAddChunk (h : Known s) (hbefore : ∀ i ∈ v.before, i < s.chunkCount)
    (hid' : id < s.chunkCount) (hafter : ∀ i ∈ after, i < s.chunkCount)
    (hpending : ∀ w ∈ v.pending, w.chunk < s.chunkCount)
    (taken : s.maybeAddChunk shard f v id after = some s') : Known s' := by
  rcases maybeAddChunk_cases taken with ⟨decided, hd, rfl⟩ | rfl
  · have hs : SameWalk s decided := by
      rcases hd with ⟨-, hd⟩ | ⟨-, rfl⟩
      · exact SameWalk.awaitCopyChunks hd
      · exact SameWalk.startLoads s _ _
    have hsa' : SameWalk s (decided.startLoad v.loader (s.loaderChunk shard v id)) :=
      ⟨hs.chunkCount, hs.bucket, hs.visiting⟩
    have hc := hsa'.chunkCount
    exact (h.of_same hsa').visited (hc ▸ hbefore) (hc ▸ hid') (hc ▸ hafter)
      (forall_mem_nil _)
  · refine h.visited hbefore hid' hafter fun w hw => ?_
    rcases mem_append.1 hw with hw | hw
    · exact hpending w hw
    · rw [mem_singleton.1 hw]
      exact hid'

lemma visit (h : Known s) (taken : s.visit shard f = some s') : Known s' := by
  obtain ⟨v, hv, -, had⟩ := visit_cases taken
  obtain ⟨hc, hb, hd, ha⟩ := h.chunkAt shard hv
  have hg : (s.chunkAt shard v).1.visiting = s.visiting := by
    rcases chunkAt_cases shard s v with ⟨id, rest, -, -, heq⟩ | heq
    · rw [heq]
    · rw [heq]
      rfl
  have hk : Known (s.chunkAt shard v).1 := by
    refine ⟨?_, ?_, ?_⟩
    · rw [hb]
      exact fun i hi => (h.bucket i hi).trans_le hc
    · rw [hg]
      exact fun w hw i hi => (h.walk w hw i hi).trans_le hc
    · rw [hg]
      exact fun w hw i hi => (h.pending w hw i hi).trans_le hc
  exact hk.maybeAddChunk
    (fun i hi => (h.walk v hv i (mem_append_left _ hi)).trans_le hc) hd ha
    (fun w hw => (h.pending v hv w hw).trans_le hc) had

lemma step (h : Known s) (taken : s.step shard a = some s') : Known s' := by
  cases a with
  | get now fromSec toSec force stale =>
    obtain ⟨r, -, -, -, rfl⟩ := get_cases taken
    refine ⟨h.bucket, ?_, ?_⟩
    · rintro _ ⟨⟩ i hi
      rw [takeWhile_append_dropWhile] at hi
      exact h.bucket i hi
    · rintro _ ⟨⟩
      exact forall_mem_nil _
  | visit f => exact h.visit taken
  | initEnd f =>
    obtain ⟨v, decided, hv, -, hd, rfl⟩ := initEnd_cases taken
    have ha := (SameWalk.awaitCopyChunks hd).chunkCount
    refine ⟨?_, fun _ hn => ?_, fun _ hn => ?_⟩
    · exact fun i hi => (h.walk v hv i hi).trans_eq ha.symm
    · cases hn
    · cases hn
  | loaded lid rows f =>
    obtain ⟨-, hl⟩ := guard_cases taken
    obtain ⟨first, rest, -, hc⟩ := loaded_cases hl
    obtain ⟨_, _, -, -, rfl⟩ := callReturns_cases hc
    exact ⟨h.bucket, h.walk, h.pending⟩
  | loadFailed lid left =>
    obtain ⟨-, hc⟩ := guard_cases taken
    obtain ⟨_, _, -, -, rfl⟩ := callReturns_cases hc
    exact ⟨h.bucket, h.walk, h.pending⟩
  | store lid =>
    obtain ⟨-, taken⟩ := guard_cases taken
    obtain ⟨v, todo, start, base, -, -, rfl⟩ := store_cases taken
    exact ⟨h.bucket, h.walk, h.pending⟩
  | give lid =>
    obtain ⟨-, taken⟩ := guard_cases taken
    obtain ⟨todo, start, a, giving, base, -, rfl⟩ := give_cases taken
    exact ⟨h.bucket, h.walk, h.pending⟩
  | invalidate now id =>
    obtain ⟨-, -, rfl⟩ := invalidate_cases taken
    exact ⟨h.bucket, h.walk, h.pending⟩
  | trim id =>
    obtain ⟨-, rfl⟩ := trim_cases taken
    exact ⟨fun i hi => h.bucket i (mem_filter.1 hi).1, h.walk, h.pending⟩

end Known

structure ChunkFresh (s : State V T) (c : Chunk V T) : Prop where
  started : ∀ p, c.starters.head? = some p →
    p < s.loaderCount ∧ c.loadStartedAt = (s.loaders p).timeNow
  produced : ∀ d, c.data = some d →
    d.producer < s.loaderCount ∧ ∃ f, (s.loaders d.producer).result = some (.rows f)
  clock : c.invalidatedAt ≤ s.clock
  noted : ∀ i ∈ c.invalidations, i ≤ s.clock
  invalid : c.invalidatedAt ≠ 0 → ∀ i ∈ c.invalidations, i ≤ c.invalidatedAt
  valid : c.invalidatedAt = 0 → ∀ i ∈ c.invalidations, i ≤ c.loadStartedAt

/-- A copy that was made, with the chunk as it was then. -/
structure CopyFresh (s : State V T) (x : Nat × Chunk V T) : Prop where
  loader : x.1 < s.loaderCount
  chunk : ChunkFresh s x.2
  taken : ((s.loaders x.1).decision x.2).2 = false
  clock : x.2.invalidatedAt ≤ (s.loaders x.1).timeNow

variable {s s' : State V T}

lemma ChunkFresh.mono (h : ChunkFresh s c) (hext : Extends s s') :
    ChunkFresh s' c where
  started p hp := by
    obtain ⟨hlt, heq⟩ := h.started p hp
    rw [hext.request p hlt]
    exact ⟨hlt.trans_le hext.count, heq⟩
  produced d hd := by
    obtain ⟨hlt, f, hf⟩ := h.produced d hd
    exact ⟨hlt.trans_le hext.count, f, hext.rows _ hlt f hf⟩
  clock := h.clock.trans hext.clock
  noted i hi := (h.noted i hi).trans hext.clock
  invalid := h.invalid
  valid := h.valid

lemma CopyFresh.mono {x : Nat × Chunk V T} (h : CopyFresh s x)
    (hext : Extends s s') : CopyFresh s' x where
  loader := h.loader.trans_le hext.count
  chunk := h.chunk.mono hext
  taken := by rw [hext.request _ h.loader]; exact h.taken
  clock := by rw [hext.request _ h.loader]; exact h.clock

structure Core (s : State V T) : Prop where
  pos : 0 < s.clock
  chunk : ∀ id, ChunkFresh s (s.chunks id)
  copies : ∀ x ∈ s.copies, CopyFresh s x
  /-- The result of the call comes when the loader is behind it. -/
  running : ∀ lid, (s.loaders lid).stage = .init ∨ (s.loaders lid).stage = .run →
    (s.loaders lid).result = none

/-- The loader at its walk, and the pending chunks as it saw them. -/
structure VisitFresh (s : State V T) (lid : Nat) (pending : List LoaderChunk) : Prop where
  loader : lid < s.loaderCount
  now : (s.loaders lid).timeNow = s.clock
  stage : (s.loaders lid).stage = .init
  pending : ∀ v ∈ pending, v.wait = ((s.loaders lid).decision (s.chunks v.chunk)).2

structure Fresh (s : State V T) : Prop extends Core s where
  visiting : ∀ v, s.visiting = some v → VisitFresh s v.loader v.pending

lemma Core.change (h : Core s) (hext : Extends s s')
    (chunks : ∀ id, s'.chunks id = s.chunks id ∨ ChunkFresh s' (s'.chunks id))
    (hcopies : ∀ x ∈ s'.copies, x ∈ s.copies ∨ CopyFresh s' x)
    (hrunning : ∀ lid, s'.loaders lid = s.loaders lid ∨
      ((s'.loaders lid).stage = .init ∨ (s'.loaders lid).stage = .run →
        (s'.loaders lid).result = none)) : Core s' where
  pos := h.pos.trans_le hext.clock
  chunk id := by
    rcases chunks id with heq | hf
    · rw [heq]
      exact (h.chunk id).mono hext
    · exact hf
  copies x hx := (hcopies x hx).elim (fun hx => (h.copies x hx).mono hext) id
  running lid := by
    rcases hrunning lid with heq | hn
    · rw [heq]
      exact h.running lid
    · exact hn

/-- Only one of them is not as it was. -/
lemma update_or (f : Nat → α) (i : Nat) (a : α) {P : α → Prop} (ha : P a) (j : Nat) :
    update f i a j = f j ∨ P (update f i a j) := by
  rcases eq_or_ne j i with rfl | hne
  · simp [ha]
  · simp [hne]

lemma Core.change_loader (h : Core s) (hext : Extends s s')
    (chunks : ∀ id, s'.chunks id = s.chunks id ∨ ChunkFresh s' (s'.chunks id))
    (copies : ∀ x ∈ s'.copies, x ∈ s.copies ∨ CopyFresh s' x)
    (loaders : s'.loaders = update s.loaders lid l)
    (hl : l.stage = .init ∨ l.stage = .run → l.result = none) : Core s' := by
  apply h.change hext chunks copies
  rw [loaders]
  exact update_or s.loaders lid l (P := fun l => l.stage = .init ∨ l.stage = .run →
    l.result = none) hl

section Walk

variable {s s' : State V T} {lid : Nat}

lemma Core.await (h : Core s) (lid : Nat) (v : LoaderChunk) : Core (s.await lid v) := by
  have hc := (h.chunk v.chunk).mono (Extends.await s lid v)
  refine h.change_loader (Extends.await s lid v) (update_or _ _ _ ?_) (fun _ => .inl) rfl
    (h.running lid)
  exact ⟨hc.started, hc.produced, hc.clock, hc.noted, hc.invalid, hc.valid⟩

lemma Core.copied (h : Core s) {v : LoaderChunk} {d : ChunkData V T}
    (hd : (s.chunks v.chunk).data = some d) (made : lid < s.loaderCount)
    (now : (s.loaders lid).timeNow = s.clock)
    (copied : ((s.loaders lid).decision (s.chunks v.chunk)).2 = false) :
    Core (s.copied lid f v d) := by
  have hext := Extends.copied s lid f v d
  have hc := h.chunk v.chunk
  refine h.change_loader hext (update_or _ _ _ ?_) ?_ rfl (h.running lid)
  · have hc' := hc.mono hext
    refine ⟨hc'.started, fun d' hd' => ?_, hc'.clock, hc'.noted, hc'.invalid, hc'.valid⟩
    obtain rfl := Option.some.inj hd'
    exact hc'.produced d hd
  · intro x hx
    rcases mem_cons.1 hx with rfl | hx
    · have hcopy : CopyFresh s (lid, s.chunks v.chunk) :=
        ⟨made, hc, copied, hc.clock.trans_eq now.symm⟩
      exact .inr (hcopy.mono hext)
    · exact .inl hx

lemma VisitFresh.awaitCopyChunk {v : LoaderChunk} (h : VisitFresh s lid (v :: pending))
    (taken : s.awaitCopyChunk lid f v = some s') : VisitFresh s' lid pending := by
  have hc c (ha : c.data.isNone = (s.chunks v.chunk).data.isNone)
      (ht : c.loadStartedAt = (s.chunks v.chunk).loadStartedAt)
      (hs : c.stop = (s.chunks v.chunk).stop)
      (hin : c.invalidatedAt = (s.chunks v.chunk).invalidatedAt) w
      (hw : w ∈ pending) : w.wait =
        ((s.loaders lid).decision (update s.chunks v.chunk c w.chunk)).2 := by
    rw [h.pending w (.tail _ hw)]
    rcases eq_or_ne w.chunk v.chunk with heq | hne
    · rw [heq, update_self]
      simp [Request.decision, ha, ht, hs, hin]
    · rw [update_of_ne hne]
  rw [State.awaitCopyChunk] at taken
  split_ifs at taken
  · cases taken
    have hr := (Extends.await s lid v).request lid h.loader
    refine ⟨h.loader, by rw [hr]; exact h.now, ?_, fun w hw => ?_⟩
    · simpa [await, State.setLoader] using h.stage
    · rw [hr]
      refine hc _ ?_ ?_ ?_ ?_ w hw <;> rfl
  · obtain ⟨d, hd, rfl⟩ := Option.map_eq_some_iff.1 taken
    have hr := (Extends.copied s lid f v d).request lid h.loader
    refine ⟨h.loader, by rw [hr]; exact h.now, ?_, fun w hw => ?_⟩
    · simpa [copied, State.setLoader] using h.stage
    · rw [hr]
      refine hc _ ?_ ?_ ?_ ?_ w hw
      · rw [hd]
        rfl
      all_goals rfl

lemma Core.awaitCopyChunks (h : Core s) (visitFresh : VisitFresh s lid pending)
    (taken : s.awaitCopyChunks lid f pending = some s') : Core s' ∧ VisitFresh s' lid [] := by
  induction pending generalizing s with
  | nil =>
    cases taken
    exact ⟨h, visitFresh⟩
  | cons v pending ih =>
    obtain ⟨s₁, hv, hr⟩ := Option.bind_eq_some_iff.1 taken
    refine ih ?_ (visitFresh.awaitCopyChunk hv) hr
    have ha := visitFresh.pending v (.head _)
    change s.awaitCopyChunk lid f v = some s₁ at hv
    rw [State.awaitCopyChunk] at hv
    split_ifs at hv with hw
    · cases hv
      exact h.await lid v
    · obtain ⟨d, hd, rfl⟩ := Option.map_eq_some_iff.1 hv
      rw [Bool.eq_false_iff.2 hw] at ha
      exact h.copied hd visitFresh.loader visitFresh.now ha.symm

lemma Core.startLoad (h : Core s) (visitFresh : VisitFresh s lid []) (v : LoaderChunk) :
    Core (s.startLoad lid v) ∧ VisitFresh (s.startLoad lid v) lid [] := by
  have hext := Extends.startLoad s lid v
  have hr := hext.request lid visitFresh.loader
  have hc := (h.chunk v.chunk).mono hext
  constructor
  · refine h.change_loader hext (update_or _ _ _ ?_) (fun _ => .inl) rfl (h.running lid)
    refine ⟨fun p hp => ?_, hc.produced, hc.clock, hc.noted, hc.invalid, fun _ i hi => ?_⟩
    · obtain rfl := Option.some.inj hp
      exact ⟨visitFresh.loader, congrArg Request.timeNow hr.symm⟩
    · exact (hc.noted i hi).trans_eq visitFresh.now.symm
  · refine ⟨visitFresh.loader, by rw [hr]; exact visitFresh.now, ?_, forall_mem_nil _⟩
    simpa [State.startLoad, State.setLoader] using visitFresh.stage

lemma Core.startLoads (h : Core s) (visitFresh : VisitFresh s lid []) (pending : List LoaderChunk) :
    Core (s.startLoads lid pending) ∧ VisitFresh (s.startLoads lid pending) lid [] := by
  induction pending generalizing s with
  | nil => exact ⟨h, visitFresh⟩
  | cons v pending ih =>
    obtain ⟨hc, visitFresh⟩ := h.startLoad visitFresh v
    exact ih hc visitFresh

lemma VisitFresh.forget (h : VisitFresh s lid pending) :
    VisitFresh s lid [] := ⟨h.loader, h.now, h.stage, forall_mem_nil _⟩

lemma Core.newChunk (h : Core s) (shard : Shard) (t : Int) : Core (s.newChunk shard t) := by
  refine h.change (Extends.newChunk shard s t) (update_or _ _ _ ?_) (fun _ => .inl)
    fun _ => .inl rfl
  exact
    { started := fun p hp => by cases hp
      produced := fun d hd => by cases hd
      clock := h.pos.le
      noted := forall_mem_nil _
      invalid := fun _ => forall_mem_nil _
      valid := fun _ => forall_mem_nil _ }

lemma VisitFresh.newChunk (h : VisitFresh s lid pending)
    (known : ∀ w ∈ pending, w.chunk < s.chunkCount) (shard : Shard) (t : Int) :
    VisitFresh (s.newChunk shard t) lid pending := by
  refine ⟨h.loader, h.now, h.stage, fun w hw => ?_⟩
  have hne := (known w hw).ne
  rw [h.pending w hw]
  simp [State.newChunk, State.setChunk, hne]

lemma Fresh.chunkAt (h : Fresh s) (known : Known s) (shard : Shard) (hv : s.visiting = some v) :
    Core (s.chunkAt shard v).1 ∧ VisitFresh (s.chunkAt shard v).1 v.loader v.pending := by
  rcases chunkAt_cases shard s v with ⟨id, rest, -, -, heq⟩ | heq
  · rw [heq]
    exact ⟨h.toCore, h.visiting v hv⟩
  · rw [heq]
    exact ⟨h.toCore.newChunk shard v.t, (h.visiting v hv).newChunk (known.pending v hv) shard v.t⟩

lemma Core.maybeAddChunk {id : Nat} (h : Core s) (visitFresh : VisitFresh s v.loader v.pending)
    (taken : s.maybeAddChunk shard f v id after = some s') : Fresh s' := by
  rcases maybeAddChunk_cases taken with ⟨decided, hd, rfl⟩ | rfl
  · have hs : Core decided ∧ VisitFresh decided v.loader [] := by
      rcases hd with ⟨-, hd⟩ | ⟨-, rfl⟩
      · exact h.awaitCopyChunks visitFresh hd
      · exact h.startLoads visitFresh.forget _
    obtain ⟨hc, hvs'⟩ := hs.1.startLoad hs.2 (s.loaderChunk shard v id)
    refine ⟨hc.change (Extends.of_eq le_rfl rfl rfl) (fun _ => .inl rfl) (fun _ => .inl)
      fun _ => .inl rfl, ?_⟩
    rintro _ ⟨⟩
    exact ⟨hvs'.loader, hvs'.now, hvs'.stage, forall_mem_nil _⟩
  · refine ⟨h.change (Extends.of_eq le_rfl rfl rfl) (fun _ => .inl rfl) (fun _ => .inl)
      fun _ => .inl rfl, ?_⟩
    rintro _ ⟨⟩
    refine ⟨visitFresh.loader, visitFresh.now, visitFresh.stage, fun w hw => ?_⟩
    rcases mem_append.1 hw with hw | hw
    · exact visitFresh.pending w hw
    · rw [mem_singleton.1 hw]
      rfl

end Walk

section Loads

variable {s s' : State V T} {lid : Nat}

lemma VisitFresh.keep (h : VisitFresh s lid pending) (clock : s'.clock = s.clock)
    (count : s'.loaderCount = s.loaderCount)
    (request : (s'.loaders lid).toRequest = (s.loaders lid).toRequest)
    (hstage : (s'.loaders lid).stage = (s.loaders lid).stage)
    (chunks : ∀ w ∈ pending, s'.chunks w.chunk = s.chunks w.chunk) :
    VisitFresh s' lid pending where
  loader := count ▸ h.loader
  now := by rw [request, clock, h.now]
  stage := hstage.trans h.stage
  pending w hw := by rw [request, chunks w hw, h.pending w hw]

lemma Fresh.callReturns {f : Nat → Slot V T} (h : Fresh s)
    (taken : s.callReturns lid result f = some s') : Fresh s' := by
  have hc := callReturns_cases taken
  obtain ⟨first, rest, hs, -, rfl⟩ := hc
  have hext := Extends.callReturns (h.running lid (.inr hs)) taken
  refine ⟨h.toCore.change_loader hext (fun _ => .inl rfl) (fun _ => .inl) rfl ?_, ?_⟩
  · exact nofun
  · intro v hv
    have ha := h.visiting v hv
    have hne : v.loader ≠ lid := by
      rintro rfl
      rw [ha.stage] at hs
      cases hs
    refine ha.keep rfl rfl ?_ ?_ fun _ _ => rfl
    · simp [State.setLoader, hne]
    · simp [State.setLoader, hne]

lemma Loader.rows_of_ok (h : l.ok = true) : ∃ f, l.result = some (.rows f) := by
  cases hr : l.result with
  | none => simp [Loader.ok, hr] at h
  | some result =>
    cases result with
    | rows f => exact ⟨f, rfl⟩
    | error => simp [Loader.ok, hr, LoadResult.ok] at h

/-- A chunk with the rows of a load is as fresh as one can tell from the start of the last. -/
lemma ChunkFresh.stored (h : ChunkFresh s c) (ok : Bool) (d : ChunkData V T) (hpos : 0 < s.clock)
    (loaded : ok = true →
      d.producer < s.loaderCount ∧ ∃ f, (s.loaders d.producer).result = some (.rows f)) :
    ChunkFresh s (c.stored ok d) := by
  rw [Chunk.stored]
  split_ifs with hd hr
  · exact ⟨h.started, h.produced, h.clock, h.noted, h.invalid, h.valid⟩
  · refine ⟨h.started, ?_, ?_, h.noted, ?_, ?_⟩
    · rintro _ ⟨⟩
      exact loaded hr
    · dsimp only
      split_ifs
      · exact h.clock
      · exact hpos.le
    · dsimp only
      split_ifs with hl
      · exact h.invalid
      · exact fun hne => absurd rfl hne
    · dsimp only
      split_ifs with hl
      · exact h.valid
      · intro _ i hi
        by_cases hz : c.invalidatedAt = 0
        · exact h.valid hz i hi
        · exact (h.invalid hz i hi).trans (not_lt.1 hl)
  · exact ⟨h.started, h.produced, h.clock, h.noted, h.invalid, h.valid⟩

lemma not_mem_of_unlocked {id : Nat} (hv : s.visiting = some v) (h : s.locked id = false) :
    ∀ w ∈ v.pending, w.chunk ≠ id := by
  simp only [locked, hv, any_eq_false, decide_eq_true_eq] at h
  exact h

lemma Fresh.store (h : Fresh s) (made : lid < s.loaderCount) (taken : s.store shard lid = some s') :
    Fresh s' := by
  obtain ⟨v, todo, start, base, hs, hl, rfl⟩ := store_cases taken
  refine ⟨h.toCore.change_loader (Extends.of_update le_rfl rfl rfl rfl fun _ hf => hf)
    (update_or _ _ _ ?_) (fun _ => .inl) rfl ?_, ?_⟩
  · have hc := (h.chunk v.chunk).stored (s.loaders lid).ok
      { slots := fun j => (s.loaders lid).data (start + j), producer := lid } h.pos
      fun ho => ⟨made, Loader.rows_of_ok ho⟩
    exact hc.mono (Extends.of_update le_rfl rfl rfl rfl fun _ hf => hf)
  · exact nofun
  · intro w hw
    have hv := h.visiting w hw
    have hne : w.loader ≠ lid := by
      rintro rfl
      rw [hv.stage] at hs
      cases hs
    refine hv.keep rfl rfl ?_ ?_ fun u hu => ?_
    · simp [State.setLoader, State.setChunk, hne]
    · simp [State.setLoader, State.setChunk, hne]
    · simp [State.setLoader, State.setChunk, not_mem_of_unlocked hw hl u hu]

end Loads

section Run

variable {s s' : State V T} {lid : Nat} {shard : Shard} {id : Nat}

/-- A message changes neither the request of a loader nor where it is. -/
lemma Loader.given_fields (m : Loader V T) (ok : Bool) (slots : Nat → Slot V T) (a : Awaiter) :
    (m.given ok slots a).toRequest = m.toRequest ∧ (m.given ok slots a).stage = m.stage ∧
      (m.given ok slots a).result = m.result := by
  rw [Loader.given]
  split_ifs
  · exact ⟨rfl, rfl, rfl⟩
  · exact ⟨rfl, rfl, rfl⟩

lemma Fresh.give (h : Fresh s) (taken : s.give lid = some s') : Fresh s' := by
  obtain ⟨todo, start, a, giving, base, hs, rfl⟩ := give_cases taken
  set l : Loader V T := { s.loaders lid with stage := .post todo start giving base }
  set s₁ := s.setLoader lid l
  obtain ⟨hq, hk, hr⟩ := (s₁.loaders a.loader).given_fields (s.loaders lid).ok
    (fun j => (s.loaders lid).data (base + j)) a
  have hext₁ : Extends s s₁ := Extends.of_update le_rfl rfl rfl rfl fun _ hf => hf
  have hcr₁ : Core s₁ := by
    apply h.toCore.change_loader hext₁ (fun _ => .inl rfl) (fun _ => .inl) rfl
    exact nofun
  have hext₂ : Extends s₁ (s₁.setLoader a.loader ((s₁.loaders a.loader).given
      (s.loaders lid).ok (fun j => (s.loaders lid).data (base + j)) a)) :=
    Extends.of_update le_rfl rfl rfl hq fun f hf => hr.trans hf
  refine ⟨hcr₁.change_loader hext₂ (fun _ => .inl rfl) (fun _ => .inl) rfl ?_, ?_⟩
  · rw [hk, hr]
    exact hcr₁.running a.loader
  · intro v hv
    have ha := h.visiting v hv
    have hne : v.loader ≠ lid := by
      rintro rfl
      rw [ha.stage] at hs
      cases hs
    have hvs₁ : VisitFresh s₁ v.loader v.pending := by
      refine ha.keep rfl rfl ?_ ?_ fun _ _ => rfl
      · simp [s₁, State.setLoader, hne]
      · simp [s₁, State.setLoader, hne]
    refine hvs₁.keep rfl rfl (hext₂.request _ hvs₁.loader) ?_ fun _ _ => rfl
    rcases eq_or_ne v.loader a.loader with heq | hne'
    · rw [heq]
      simpa [State.setLoader] using hk
    · simp [State.setLoader, hne']

lemma Fresh.invalidate {now : Int} (h : Fresh s) (taken : s.invalidate now id = some s') :
    Fresh s' := by
  obtain ⟨hn, hl, rfl⟩ := invalidate_cases taken
  have hext : Extends s { s.setChunk id
      { s.chunks id with
        invalidatedAt := now
        invalidations := now :: (s.chunks id).invalidations } with clock := now } :=
    Extends.of_eq hl rfl rfl
  have hc := (h.chunk id).mono hext
  have hw := (h.pos.trans_le hl).ne'
  have hle : ∀ i ∈ now :: (s.chunks id).invalidations, i ≤ now :=
    forall_mem_cons.2 ⟨le_rfl, hc.noted⟩
  refine ⟨h.toCore.change hext (update_or _ _ _ ?_) (fun _ => .inl) fun _ => .inl rfl,
    fun v hv => ?_⟩
  · exact ⟨hc.started, hc.produced, le_rfl, hle, fun _ => hle, fun hz => absurd hz hw⟩
  · cases hn.symm.trans hv

lemma Fresh.trim (h : Fresh s) (taken : s.trim id = some s') : Fresh s' := by
  obtain ⟨hn, rfl⟩ := trim_cases taken
  have hext : Extends s { s.setChunk id { s.chunks id with data := none, detached := true } with
      bucket := s.bucket.filter (· ≠ id) } := Extends.of_eq le_rfl rfl rfl
  have hc := (h.chunk id).mono hext
  refine ⟨h.toCore.change hext (update_or _ _ _ ?_) (fun _ => .inl) fun _ => .inl rfl,
    fun v hv => ?_⟩
  · exact ⟨hc.started, fun d hd => (by cases hd), hc.clock, hc.noted, hc.invalid, hc.valid⟩
  · cases hn.symm.trans hv

lemma Fresh.newLoader (h : Fresh s) (later : s.clock ≤ r.timeNow) : Fresh (s.newLoader r) := by
  refine ⟨h.toCore.change_loader (Extends.newLoader later) (fun _ => .inl rfl)
    (fun _ => .inl) rfl fun _ => rfl, ?_⟩
  rintro _ ⟨⟩
  refine ⟨Nat.lt_succ_self _, ?_, ?_, forall_mem_nil _⟩
  · simp [State.newLoader, State.setLoader]
  · simp [State.newLoader, State.setLoader]

lemma Fresh.initEnd (h : Fresh s) (taken : s.initEnd f = some s') : Fresh s' := by
  obtain ⟨v, decided, hv, -, hd, rfl⟩ := initEnd_cases taken
  obtain ⟨hc, hs⟩ := h.toCore.awaitCopyChunks (h.visiting v hv) hd
  refine ⟨hc.change_loader (Extends.of_update le_rfl rfl rfl rfl fun _ hf => hf)
    (fun _ => .inl rfl) (fun _ => .inl) rfl
    fun _ => hc.running v.loader (.inl hs.stage), fun w hw => ?_⟩
  cases hw

lemma request_timeNow {now fromSec toSec stale : Int} {force : Bool}
    (h : shard.request now fromSec toSec force stale = some r) : r.timeNow = now := by
  obtain ⟨lodSize, -, h⟩ := Option.bind_eq_some_iff.1 h
  dsimp only at h
  split_ifs at h
  rw [← Option.some.inj h]

theorem Fresh.step (h : Fresh s) (known : Known s) (taken : s.step shard a = some s') :
    Fresh s' := by
  cases a with
  | get now fromSec toSec force stale =>
    obtain ⟨r, -, hc, hr, rfl⟩ := get_cases taken
    exact h.newLoader (hc.trans_eq (request_timeNow hr).symm)
  | visit f =>
    obtain ⟨v, hv, -, had⟩ := visit_cases taken
    obtain ⟨ha, hs⟩ := h.chunkAt known shard hv
    exact ha.maybeAddChunk hs had
  | initEnd f => exact h.initEnd taken
  | loaded lid rows f =>
    obtain ⟨-, hl⟩ := guard_cases taken
    obtain ⟨first, rest, -, hb⟩ := loaded_cases hl
    exact h.callReturns hb
  | loadFailed lid left => exact h.callReturns (guard_cases taken).2
  | store lid =>
    obtain ⟨hi, hd⟩ := guard_cases taken
    exact h.store hi hd
  | give lid => exact h.give (guard_cases taken).2
  | invalidate now id => exact h.invalidate taken
  | trim id => exact h.trim taken

theorem fresh_run {actions : List (Action V T)} (h : Fresh s) (known : Known s)
    (hrun : s.run shard actions = some s') : Fresh s' := by
  induction actions generalizing s with
  | nil =>
    cases hrun
    exact h
  | cons a actions ih =>
    obtain ⟨s₁, hs, hr⟩ := Option.bind_eq_some_iff.1 hrun
    exact ih (h.step known hs) (known.step hs) hr

end Run

lemma fresh_empty : Fresh ({} : State V T) where
  pos := Int.one_pos
  chunk _ :=
    { started := fun p hp => by cases hp
      produced := fun d hd => by cases hd
      clock := Int.one_nonneg
      noted := forall_mem_nil _
      invalid := fun _ => forall_mem_nil _
      valid := fun _ => forall_mem_nil _ }
  copies := forall_mem_nil _
  running _ _ := rfl
  visiting v hv := by cases hv

lemma known_empty : Known ({} : State V T) where
  bucket := forall_mem_nil _
  walk v hv := by cases hv
  pending v hv := by cases hv

/-- The rows of a chunk come from the loader that started last on it. -/
def Chunk.Settled (c : Chunk V T) : Prop :=
  ∃ d, c.data = some d ∧ c.starters.head? = some d.producer

/-- Rows that were copied from a settled chunk come from a call that succeeded, that started at
the end of the chunk or later and not before any invalidation of the chunk so far. -/
theorem copied_rows_fresh {shard : Shard} {actions : List (Action V T)} {s : State V T}
    (hrun : run shard {} actions = some s) {lid : Nat} {c : Chunk V T}
    (hcopy : (lid, c) ∈ s.copies) (hstale : (s.loaders lid).staleAcceptPeriod = 0)
    (hsettled : c.Settled) :
    ∃ d f, c.data = some d ∧ (s.loaders d.producer).result = some (.rows f) ∧
      c.stop ≤ (s.loaders d.producer).timeNow ∧
      ∀ i ∈ c.invalidations, i ≤ (s.loaders d.producer).timeNow := by
  obtain ⟨-, hc, ht, hl⟩ := (fresh_run fresh_empty known_empty hrun).copies _ hcopy
  obtain ⟨hs, hv⟩ : c.stop ≤ c.loadStartedAt ∧ c.invalidatedAt = 0 := by
    rw [Request.decision] at ht
    split_ifs at ht with hlo hin
    · rw [hstale, decide_eq_false_iff_not] at ht
      omega
    all_goals
      push Not at hlo hin
      exact ⟨hlo.2.1, hin⟩
  obtain ⟨d, hd, hh⟩ := hsettled
  obtain ⟨-, f, hf⟩ := hc.produced d hd
  have ha := (hc.started _ hh).2
  refine ⟨d, f, hd, hf, ha ▸ hs, fun i hi => ?_⟩
  exact (hc.valid hv i hi).trans_eq ha

/-- Chunks of a minute of seconds. -/
def secondsShard : Shard := newShard ⟨id, (· + 1), fun _ => Int.lt_succ _⟩ 0 0 1

/-- A request for the first minute at a time in seconds, with its walk over one chunk. -/
def requestAt (now : Int) : List (Action Unit Unit) :=
  [.get (now * second) 0 60 false 0, .visit id, .initEnd id]

/-- Its call comes back with a row in each slot, and the chunk gets them. -/
def loads (lid : Nat) : List (Action Unit Unit) :=
  [.loaded lid (fun t => [⟨t, (), ()⟩]) id, .store lid]

theorem copied_behind_load :
    ∃ s c, run secondsShard {} (requestAt 100 ++ loads 0 ++ requestAt 200) = some s ∧
      (1, c) ∈ s.copies ∧ ∃ d f, c.data = some d ∧ (s.loaders d.producer).result = some (.rows f) ∧
        c.stop ≤ (s.loaders d.producer).timeNow ∧
        ∀ i ∈ c.invalidations, i ≤ (s.loaders d.producer).timeNow := by
  obtain ⟨s, c, hrun, hcopy, hstale, hsettled⟩ : ∃ s c,
      run secondsShard {} (requestAt 100 ++ loads 0 ++ requestAt 200) = some s ∧
      (1, c) ∈ s.copies ∧ (s.loaders 1).staleAcceptPeriod = 0 ∧ c.Settled :=
    ⟨_, _, rfl, (.head _), rfl, _, rfl, rfl⟩
  exact ⟨s, c, hrun, hcopy, copied_rows_fresh hrun hcopy hstale hsettled⟩

/-- The minute is asked for before its end, then twice behind it: the third request takes the
rows of the first, since the call of the second has started and is not back yet. -/
theorem copied_before_end :
    ∃ s c d, run secondsShard {}
        (requestAt 30 ++ loads 0 ++ requestAt 100 ++ requestAt 100) = some s ∧
      s.Returned 2 ∧ (s.loaders 2).staleAcceptPeriod = 0 ∧ (2, c) ∈ s.copies ∧
      c.data = some d ∧ (s.loaders d.producer).timeNow < c.stop :=
  ⟨_, _, _, rfl, ⟨nofun, rfl, .inl rfl, rfl⟩,
   rfl, (.head _), rfl, by decide⟩

end SeriesCache
