import Mathlib.Tactic.Linarith
import Mathlib.Tactic.Ring
import StatsHouse.SeriesFresh

/-!
# Slots of cached series

A slot of a loader, of a chunk or of a result stands for a time, and rows move between slots in
three ways: with the loader's own call, from a chunk, and from another loader. All three count
in steps from the start of a chunk, so rows arrive in slots of their time as counted from the
first chunk of a request. What the request means by its slots is counted from its own start,
and the two agree when that lies on the grid of the chunk.
-/

namespace SeriesCache

open List Function State
variable {V T : Type} {t : Int} {l : Loader V T} {id : Nat} {f : T → T} {c : Chunk V T}
  {start : Int} {after : List Nat} {r : Request} {x : Slot V T} {s'' : State V T}

/-- The same rows but for their tags. -/
def SameRows (x y : Slot V T) : Prop :=
  x.map (fun r => (r.time, r.values)) = y.map fun r => (r.time, r.values)

/-- The slot has what a call that succeeded gave for the time, and all rows are of the time. -/
structure Served (s : State V T) (t : Int) (x : Slot V T) : Prop where
  times : ∀ r ∈ x, r.time = t
  rows : ∃ p < s.loaderCount, ∃ f, (s.loaders p).result = some (.rows f) ∧ SameRows x (f t)

lemma Served.mono {s s' : State V T} (h : Served s t x) (hext : Extends s s') : Served s' t x := by
  obtain ⟨ht, p, hp, f, hf, hs⟩ := h
  exact ⟨ht, p, hp.trans_le hext.count, f, hext.rows p hp f hf, hs⟩

lemma SameRows.mapTags (f : T → T) (x : Slot V T) : SameRows (x.map (Row.mapTags f)) x := by
  rw [SameRows, map_map]
  rfl

lemma SameRows.times {y : Slot V T} (h : SameRows x y) (hy : ∀ r ∈ y, r.time = t) :
    ∀ r ∈ x, r.time = t := by
  intro r hr
  have hm : (r.time, r.values) ∈ x.map fun r => (r.time, r.values) := mem_map_of_mem hr
  rw [h] at hm
  obtain ⟨r', hr', heq⟩ := mem_map.1 hm
  rw [← (Prod.mk.inj heq).1]
  exact hy r' hr'

lemma Served.mapTags {s : State V T} (h : Served s t x) (f : T → T) :
    Served s t (x.map (Row.mapTags f)) := by
  obtain ⟨ht, p, hp, g, hg, hs⟩ := h
  have hm := SameRows.mapTags f x
  exact ⟨hm.times ht, p, hp, g, hg, hm.trans hs⟩

/-- Chunks that follow one another from a place on. -/
def Contiguous (size : Nat) : Nat → List LoaderChunk → Prop
  | _, [] => True
  | a, v :: vs => v.chunkStart = a ∧ v.chunkEnd = a + size ∧ Contiguous size (a + size) vs

namespace Contiguous

variable {size a : Nat} {vs ws : List LoaderChunk}

lemma append_iff : Contiguous size a (vs ++ ws) ↔
    Contiguous size a vs ∧ Contiguous size (a + vs.length * size) ws := by
  induction vs generalizing a with
  | nil => simp [Contiguous]
  | cons v vs ih =>
    rw [cons_append, Contiguous, Contiguous, ih, length_cons,
      show a + size + vs.length * size = a + (vs.length + 1) * size by ring]
    tauto

lemma mem (h : Contiguous size a vs) {v : LoaderChunk} (hv : v ∈ vs) :
    a ≤ v.chunkStart ∧ v.chunkEnd = v.chunkStart + size ∧ v.chunkEnd ≤ a + vs.length * size := by
  induction vs generalizing a with
  | nil => cases hv
  | cons w vs ih =>
    obtain ⟨ht, he, hr⟩ := h
    have hlen : (w :: vs).length * size = size + vs.length * size := by
      rw [length_cons]
      ring
    rcases mem_cons.1 hv with rfl | hv
    · omega
    · have := ih hr hv
      omega

lemma getLast (h : Contiguous size a vs) {last : LoaderChunk} (isLast : vs.getLast? = some last) :
    last.chunkEnd = a + vs.length * size := by
  obtain ⟨rest, rfl⟩ := getLast?_eq_some_iff.1 isLast
  have he := (append_iff.1 h).2.2.1
  rw [he, length_append, length_singleton]
  ring

end Contiguous

/-- Chunks of whole seconds and whole steps. -/
structure Regular (shard : Shard) : Prop where
  stepSec : 0 < shard.stepSec
  chunkSize : 0 < shard.chunkSize
  chunkDuration : shard.chunkDuration = shard.chunkSize * shard.step
  utcOffset : second ∣ shard.utcOffset
  step : shard.step < timeMonth

section Places

variable (shard : Shard)

/-- The time in seconds of a place behind a start. -/
def placeTime (start : Int) (p : Nat) : Int := start.tdiv second + p * shard.stepSec

variable {shard}

lemma placeTime_add (h : second ∣ start) (p q : Nat) :
    placeTime shard (start + p * shard.step) q = placeTime shard start (p + q) := by
  obtain ⟨t, rfl⟩ := h
  have hs : second ≠ 0 := by decide
  rw [placeTime, placeTime, Shard.step,
    show second * t + p * (shard.stepSec * second) = second * (t + p * shard.stepSec) by ring,
    Int.mul_tdiv_cancel_left _ hs, Int.mul_tdiv_cancel_left _ hs]
  push_cast
  ring

end Places

section Invariant

variable (shard : Shard)

/-- Requests and rows stay, and so do the starts of chunks. -/
structure Stays (s s' : State V T) : Prop extends Extends s s' where
  chunkCount : s.chunkCount ≤ s'.chunkCount
  start : ∀ id < s.chunkCount, (s'.chunks id).start = (s.chunks id).start

/-- The offset of an awaiter in a chunk and its place in its loader are of one time. -/
structure AwaiterPlaced (s : State V T) (start : Int) (a : Awaiter) : Prop where
  loader : a.loader < s.loaderCount
  start : start + a.chunkOffset * shard.step =
    (s.loaders a.loader).timeStart + a.loadStart * shard.step
  inside : ∀ p, a.loadStart ≤ p → p < a.loadEnd →
    a.chunkOffset + (p - a.loadStart) < shard.chunkSize

structure ChunkPlaced (s : State V T) (c : Chunk V T) : Prop where
  grid : second ∣ c.start
  stop : c.stop = c.start + shard.chunkDuration
  data : ∀ d, c.data = some d → ∀ j < shard.chunkSize,
    Served s (placeTime shard c.start j) (d.slots j)
  awaiters : ∀ a ∈ c.awaiters, AwaiterPlaced shard s c.start a

structure LoaderChunkPlaced (s : State V T) (r : Request) (v : LoaderChunk) : Prop where
  known : v.chunk < s.chunkCount
  start : (s.chunks v.chunk).start = r.timeStart + v.chunkStart * shard.step
  lower : v.chunkStart ≤ v.loadStart
  upper : v.loadEnd ≤ v.chunkStart + shard.chunkSize

structure RequestPlaced (r : Request) : Prop where
  grid : second ∣ r.timeStart
  timeStart : r.timeStart = shard.chunkStart (r.fromSec * second)
  loadStart : (r.loadStart : Int) = (r.fromSec * second - r.timeStart).tdiv shard.step
  timeEnd : ∃ n : Nat, r.timeEnd = r.timeStart + n * shard.chunkDuration ∧
    r.loadEnd ≤ n * shard.chunkSize

/-- Chunks still to be stored, and awaiters that get the rows of the last that was. -/
structure PostPlaced (s : State V T) (l : Loader V T) (todo : List LoaderChunk) (start : Nat)
    (giving : List Awaiter) (base : Nat) : Prop where
  suffix : ∃ done, l.chunks = done ++ todo
  contiguous : Contiguous shard.chunkSize start todo
  awaiters : giving = [] ∨ ∃ v ∈ l.chunks, base = v.chunkStart ∧
    ∀ a ∈ giving, AwaiterPlaced shard s (s.chunks v.chunk).start a

structure LoaderPlaced (s : State V T) (l : Loader V T) : Prop where
  request : RequestPlaced shard l.toRequest
  chunks : ∀ v ∈ l.chunks, LoaderChunkPlaced shard s l.toRequest v
  contiguous : ∃ a, Contiguous shard.chunkSize a l.chunks
  own : ∀ f, l.result = some (.rows f) → ∀ v ∈ l.chunks, ∀ p, v.chunkStart ≤ p →
    p < v.chunkStart + shard.chunkSize → Served s (placeTime shard l.timeStart p) (l.data p)
  post : ∀ todo start giving base, l.stage = .post todo start giving base →
    PostPlaced shard s l todo start giving base

/-- Each slot of the request up to a place has its rows, or there is somebody to bring them. -/
def Covered (s : State V T) (l : Loader V T) (upto : Nat) (pending : List LoaderChunk) : Prop :=
  ∀ p, l.loadStart ≤ p → p < l.loadEnd → p < upto →
    l.failed = true ∨ Served s (placeTime shard l.timeStart p) (l.data p) ∨
    (∃ w ∈ l.waits, w.1 ≤ p ∧ p < w.2) ∨
    (l.result = none ∧ ∃ v ∈ l.chunks, v.chunkStart ≤ p ∧ p < v.chunkStart + shard.chunkSize) ∨
    ∃ v ∈ pending, v.loadStart ≤ p ∧ p < v.loadEnd

structure Slots (s : State V T) : Prop where
  chunk : ∀ id < s.chunkCount, ChunkPlaced shard s (s.chunks id)
  loader : ∀ lid < s.loaderCount, LoaderPlaced shard s (s.loaders lid)

/-- The walk: where it is, and what is pending. -/
structure WalkPlaced (s : State V T) (v : Visit) : Prop where
  t : v.t = (s.loaders v.loader).timeStart + v.pos * shard.step
  pending : ∀ w ∈ v.pending, LoaderChunkPlaced shard s (s.loaders v.loader).toRequest w
  contiguous : ∃ a, Contiguous shard.chunkSize a ((s.loaders v.loader).chunks ++ v.pending) ∧
    a + ((s.loaders v.loader).chunks ++ v.pending).length * shard.chunkSize = v.pos
  covered : Covered shard s (s.loaders v.loader) v.pos v.pending

structure InTime (s : State V T) : Prop extends Slots shard s where
  walk : ∀ v, s.visiting = some v → WalkPlaced shard s v
  covered : ∀ lid < s.loaderCount, (∀ v, s.visiting = some v → v.loader ≠ lid) →
    Covered shard s (s.loaders lid) (s.loaders lid).loadEnd []

end Invariant

section Mono

variable {shard : Shard} {s s' : State V T}

lemma Stays.refl (s : State V T) : Stays s s := ⟨Extends.refl s, le_rfl, fun _ _ => rfl⟩

lemma Stays.trans (h : Stays s s') (h' : Stays s' s'') : Stays s s'' where
  toExtends := h.toExtends.trans h'.toExtends
  chunkCount := h.chunkCount.trans h'.chunkCount
  start id hi := (h'.start id (hi.trans_le h.chunkCount)).trans (h.start id hi)

lemma AwaiterPlaced.mono {a : Awaiter} (h : AwaiterPlaced shard s start a) (hext : Extends s s') :
    AwaiterPlaced shard s' start a where
  loader := h.loader.trans_le hext.count
  start := by rw [hext.request _ h.loader]; exact h.start
  inside := h.inside

lemma ChunkPlaced.mono (h : ChunkPlaced shard s c) (hext : Extends s s') :
    ChunkPlaced shard s' c where
  grid := h.grid
  stop := h.stop
  data d hd j hj := (h.data d hd j hj).mono hext
  awaiters a ha := (h.awaiters a ha).mono hext

lemma LoaderChunkPlaced.mono {v : LoaderChunk} (h : LoaderChunkPlaced shard s r v)
    (stays : Stays s s') :
    LoaderChunkPlaced shard s' r v where
  known := h.known.trans_le stays.chunkCount
  start := by rw [stays.start _ h.known]; exact h.start
  lower := h.lower
  upper := h.upper

lemma PostPlaced.mono {todo : List LoaderChunk} {start base : Nat} {giving : List Awaiter}
    (h : PostPlaced shard s l todo start giving base)
    (hchunks : ∀ v ∈ l.chunks, v.chunk < s.chunkCount) (stays : Stays s s') :
    PostPlaced shard s' l todo start giving base where
  suffix := h.suffix
  contiguous := h.contiguous
  awaiters := by
    rcases h.awaiters with hn | ⟨v, hv, hb, hg⟩
    · exact .inl hn
    · refine .inr ⟨v, hv, hb, fun a ha => ?_⟩
      rw [stays.start _ (hchunks v hv)]
      exact (hg a ha).mono stays.toExtends

lemma LoaderPlaced.mono (h : LoaderPlaced shard s l) (stays : Stays s s') :
    LoaderPlaced shard s' l where
  request := h.request
  chunks v hv := (h.chunks v hv).mono stays
  contiguous := h.contiguous
  own f hf v hv p hp hp' := (h.own f hf v hv p hp hp').mono stays.toExtends
  post todo start giving base hs :=
    (h.post todo start giving base hs).mono (fun v hv => (h.chunks v hv).known) stays

lemma Covered.mono {upto : Nat} {pending : List LoaderChunk} (h : Covered shard s l upto pending)
    (hext : Extends s s') : Covered shard s' l upto pending := by
  intro p hlo hhi hu
  refine (h p hlo hhi hu).imp_right (.imp_left ?_)
  exact fun h => h.mono hext

end Mono

section Walk

variable {shard : Shard} {s s' : State V T} {lid : Nat}

lemma Stays.of_update (hext : Extends s s') (hchunkCount : s'.chunkCount = s.chunkCount)
    (hchunks : s'.chunks = update s.chunks id c) (hc : c.start = (s.chunks id).start) :
    Stays s s' where
  toExtends := hext
  chunkCount := hchunkCount.ge
  start i _ := by
    rw [hchunks]
    rcases eq_or_ne i id with rfl | hne
    · simpa using hc
    · simp [hne]

/-- One chunk and one loader change or are new. -/
structure Updates (shard : Shard) (s s' : State V T) (id : Nat) (c : Chunk V T) (lid : Nat)
    (l : Loader V T) : Prop where
  stays : Stays s s'
  chunks : s'.chunks = update s.chunks id c
  loaders : s'.loaders = update s.loaders lid l
  old : ∀ i < s'.chunkCount, i ≠ id → i < s.chunkCount
  known : ∀ m < s'.loaderCount, m ≠ lid → m < s.loaderCount
  chunk : id < s'.chunkCount → ChunkPlaced shard s' c
  loader : lid < s'.loaderCount → LoaderPlaced shard s' l

namespace Updates

variable {c : Chunk V T} {l : Loader V T}

section

variable (h : Updates shard s s' id c lid l)
include h

lemma self : s'.loaders lid = l := by
  rw [h.loaders, update_self]

lemma other {m : Nat} (hne : m ≠ lid) : s'.loaders m = s.loaders m := by
  rw [h.loaders, update_of_ne hne]

lemma slots (hslots : Slots shard s) : Slots shard s' where
  chunk i hi := by
    rw [h.chunks]
    rcases eq_or_ne i id with rfl | hne
    · rw [update_self]
      exact h.chunk hi
    · rw [update_of_ne hne]
      exact (hslots.chunk i (h.old i hi hne)).mono h.stays.toExtends
  loader m hm := by
    rcases eq_or_ne m lid with rfl | hne
    · rw [h.self]
      exact h.loader hm
    · rw [h.other hne]
      exact (hslots.loader m (h.known m hm hne)).mono h.stays

end

/-- Only a loader changes. -/
lemma of_loader (slots : Slots shard s) (hext : Extends s s')
    (chunkCount : s'.chunkCount = s.chunkCount) (hchunks : s'.chunks = s.chunks)
    (known : ∀ m < s'.loaderCount, m ≠ lid → m < s.loaderCount)
    (loaders : s'.loaders = update s.loaders lid l)
    (loader : Stays s s' → lid < s'.loaderCount → LoaderPlaced shard s' l) :
    Updates shard s s' 0 (s.chunks 0) lid l :=
  have hs : Stays s s' := ⟨hext, chunkCount.ge, fun id _ => by rw [hchunks]⟩
  ⟨hs, hchunks.trans (update_eq_self 0 s.chunks).symm, loaders,
    fun _ hi _ => chunkCount ▸ hi, known, fun hd => (slots.chunk 0 (chunkCount ▸ hd)).mono hext,
    loader hs⟩

end Updates

/-- A loader may wait for more and get rows of their time. -/
lemma LoaderPlaced.congr {l' : Loader V T} (h : LoaderPlaced shard s l)
    (toRequest : l'.toRequest = l.toRequest) (hchunks : l'.chunks = l.chunks)
    (result : l'.result = l.result) (stage : l'.stage = l.stage)
    (data : ∀ p, l'.data p = l.data p ∨ Served s (placeTime shard l.timeStart p) (l'.data p)) :
    LoaderPlaced shard s l' where
  request := toRequest ▸ h.request
  chunks v hv := by
    rw [toRequest]
    exact h.chunks v (hchunks ▸ hv)
  contiguous := hchunks ▸ h.contiguous
  own f hf v hv p hp hp' := by
    rw [toRequest]
    rcases data p with heq | hr
    · rw [heq]
      exact h.own f (result ▸ hf) v (hchunks ▸ hv) p hp hp'
    · exact hr
  post todo start giving base hb := by
    obtain ⟨hs, hc, ha⟩ := h.post todo start giving base (stage ▸ hb)
    rw [← hchunks] at hs ha
    exact ⟨hs, hc, ha⟩

variable {l : Loader V T} {upto : Nat} {v : LoaderChunk} {pending : List LoaderChunk}

section

variable (h : Covered shard s l upto (v :: pending))
include h

lemma Covered.await :
    Covered shard s { l with waits := l.waits ++ [(v.loadStart, v.loadEnd)] } upto pending := by
  intro p hlo hhi hu
  rcases h p hlo hhi hu with h | h | ⟨w, hw, hp⟩ | h | ⟨w, hw, hp⟩
  · exact .inl h
  · exact .inr (.inl h)
  · exact .inr (.inr (.inl ⟨w, mem_append_left _ hw, hp⟩))
  · exact .inr (.inr (.inr (.inl h)))
  · rcases mem_cons.1 hw with rfl | hw
    · exact .inr (.inr (.inl ⟨_, mem_append_right _ (.head _), hp⟩))
    · exact .inr (.inr (.inr (.inr ⟨w, hw, hp⟩)))

lemma Covered.copied {data : Nat → Slot V T} (hdata : ∀ p, v.loadStart ≤ p → p < v.loadEnd →
      Served s (placeTime shard l.timeStart p) (data p))
    (same : ∀ p, ¬(v.loadStart ≤ p ∧ p < v.loadEnd) → data p = l.data p) :
    Covered shard s { l with data } upto pending := by
  intro p hlo hhi hu
  by_cases hp : v.loadStart ≤ p ∧ p < v.loadEnd
  · exact .inr (.inl (hdata p hp.1 hp.2))
  · rcases h p hlo hhi hu with h | h | h | h | ⟨w, hw, hp'⟩
    · exact .inl h
    · rw [← same p hp] at h
      exact .inr (.inl h)
    · exact .inr (.inr (.inl h))
    · exact .inr (.inr (.inr (.inl h)))
    · rcases mem_cons.1 hw with rfl | hw
      · exact absurd hp' hp
      · exact .inr (.inr (.inr (.inr ⟨w, hw, hp'⟩)))

lemma Covered.startLoad (result : l.result = none) (low : v.chunkStart ≤ v.loadStart)
    (high : v.loadEnd ≤ v.chunkStart + shard.chunkSize) :
    Covered shard s { l with chunks := l.chunks ++ [v] } upto pending := by
  intro p hlo hhi hu
  rcases h p hlo hhi hu with h | h | h | ⟨hn, w, hw, hp⟩ | ⟨w, hw, hp⟩
  · exact .inl h
  · exact .inr (.inl h)
  · exact .inr (.inr (.inl h))
  · exact .inr (.inr (.inr (.inl ⟨hn, w, mem_append_left _ hw, hp⟩)))
  · rcases mem_cons.1 hw with rfl | hw
    · exact .inr (.inr (.inr (.inl ⟨result, w,
        mem_append_right _ (.head _), low.trans hp.1, hp.2.trans_le high⟩)))
    · exact .inr (.inr (.inr (.inr ⟨w, hw, hp⟩)))

end

/-- The loader on its walk has decided about some chunks. -/
structure Walked (shard : Shard) (s s' : State V T) (lid : Nat) (decided : List LoaderChunk) :
    Prop where
  slots : Slots shard s'
  stays : Stays s s'
  others : ∀ m, m ≠ lid → s'.loaders m = s.loaders m
  count : s'.loaderCount = s.loaderCount
  stage : (s'.loaders lid).stage = (s.loaders lid).stage
  result : (s'.loaders lid).result = (s.loaders lid).result
  covered : ∀ upto pending, Covered shard s (s.loaders lid) upto (decided ++ pending) →
    Covered shard s' (s'.loaders lid) upto pending

lemma Walked.refl (h : Slots shard s) (lid : Nat) : Walked shard s s lid [] :=
  ⟨h, Stays.refl s, fun _ _ => rfl, rfl, rfl, rfl, fun _ _ h => h⟩

lemma Walked.trans {vs ws : List LoaderChunk} (h : Walked shard s s' lid vs)
    (h' : Walked shard s' s'' lid ws) : Walked shard s s'' lid (vs ++ ws) where
  slots := h'.slots
  stays := h.stays.trans h'.stays
  others m hm := (h'.others m hm).trans (h.others m hm)
  count := h'.count.trans h.count
  stage := h'.stage.trans h.stage
  result := h'.result.trans h.result
  covered upto pending hc := by
    rw [append_assoc] at hc
    exact h'.covered upto pending (h.covered upto _ hc)

lemma Updates.walked {decided : List LoaderChunk} (hu : Updates shard s s' id c lid l)
    (h : Slots shard s) (hloaderCount : s'.loaderCount = s.loaderCount)
    (hstage : l.stage = (s.loaders lid).stage) (hresult : l.result = (s.loaders lid).result)
    (covers : ∀ upto pending, Covered shard s (s.loaders lid) upto (decided ++ pending) →
      Covered shard s l upto pending) : Walked shard s s' lid decided where
  slots := hu.slots h
  stays := hu.stays
  others _ hm := hu.other hm
  count := hloaderCount
  stage := by rw [hu.self, hstage]
  result := by rw [hu.self, hresult]
  covered upto pending hc := by
    rw [hu.self]
    exact (covers upto pending hc).mono hu.stays.toExtends

lemma Walked.await (h : Slots shard s) (hlid : lid < s.loaderCount)
    (hv : LoaderChunkPlaced shard s (s.loaders lid).toRequest v) :
    Walked shard s (s.await lid v) lid [v] := by
  have hext := Extends.await s lid v
  have hs := Stays.of_update hext rfl rfl rfl
  refine Updates.walked ⟨hs, rfl, rfl, fun _ hi _ => hi, fun _ hm _ => hm, fun hd => ?_,
    fun hlid => ?_⟩ h rfl rfl rfl
    fun _ _ => Covered.await
  · have hc := (h.chunk v.chunk hd).mono hext
    refine ⟨hc.grid, hc.stop, hc.data, fun a ha => ?_⟩
    rcases mem_append.1 ha with ha | ha
    · exact hc.awaiters a ha
    · obtain rfl := mem_singleton.1 ha
      have hl := hv.lower
      have hu := hv.upper
      refine ⟨hlid, ?_, fun p hp hp' => ?_⟩
      · rw [hext.request lid hlid]
        have ho : ((v.loadStart - v.chunkStart : Nat) : Int) = v.loadStart - v.chunkStart := by
          omega
        rw [hv.start, ho]
        ring
      · dsimp only at hp hp' ⊢
        omega
  · exact ((h.loader lid hlid).mono hs).congr rfl rfl rfl rfl fun _ => .inl rfl

/-- A place in a chunk and its place in the loader are of one time. -/
lemma LoaderChunkPlaced.placeTime_chunk (h : LoaderChunkPlaced shard s r v)
    (whole : second ∣ r.timeStart) {p : Nat} (hp : v.chunkStart ≤ p) :
    placeTime shard (s.chunks v.chunk).start (p - v.chunkStart) =
      placeTime shard r.timeStart p := by
  rw [h.start, placeTime_add whole, Nat.add_sub_cancel' hp]

section

variable (h : Slots shard s)
include h

variable (hlid : lid < s.loaderCount)
include hlid

lemma Walked.copied (hv : LoaderChunkPlaced shard s (s.loaders lid).toRequest v) {d : ChunkData V T}
    (hd : (s.chunks v.chunk).data = some d) : Walked shard s (s.copied lid f v d) lid [v] := by
  have hext := Extends.copied s lid f v d
  have hs := Stays.of_update hext rfl rfl rfl
  have hh := h.chunk v.chunk hv.known
  set slots := fun j => if v.loadStart - v.chunkStart ≤ j ∧ j < v.loadEnd - v.chunkStart then
    (d.slots j).map (Row.mapTags f) else d.slots j with hl
  have hr j (hj : j < shard.chunkSize) :
      Served s (placeTime shard (s.chunks v.chunk).start j) (slots j) := by
    rw [hl]
    dsimp only
    split_ifs
    · exact (hh.data d hd j hj).mapTags f
    · exact hh.data d hd j hj
  set data := fun p => if v.loadStart ≤ p ∧ p < v.loadEnd then slots (p - v.chunkStart)
    else (s.loaders lid).data p with hb
  have hw p (hp : v.loadStart ≤ p) (hp' : p < v.loadEnd) :
      Served s (placeTime shard (s.loaders lid).timeStart p) (data p) := by
    have he := hv.lower
    have hu := hv.upper
    have hj := hr (p - v.chunkStart) (by omega)
    rw [hv.placeTime_chunk (h.loader lid hlid).request.grid (he.trans hp)] at hj
    rw [hb]
    dsimp only
    rw [if_pos ⟨hp, hp'⟩]
    exact hj
  have ha p hp :
      data p = (s.loaders lid).data p := if_neg hp
  refine Updates.walked ⟨hs, rfl, rfl, fun _ hi _ => hi, fun _ hm _ => hm, fun _ => ?_,
    fun hlid => ?_⟩ h rfl rfl rfl
    fun _ _ hf => hf.copied hw ha
  · have hc := hh.mono hext
    refine ⟨hc.grid, hc.stop, fun d' hd' j hj => ?_, hc.awaiters⟩
    obtain rfl := Option.some.inj hd'
    exact (hr j hj).mono hext
  · refine ((h.loader lid hlid).mono hs).congr rfl rfl rfl rfl fun p => ?_
    by_cases hp : v.loadStart ≤ p ∧ p < v.loadEnd
    · exact .inr ((hw p hp.1 hp.2).mono hext)
    · exact .inl (ha p hp)

lemma Walked.awaitCopyChunks
    (hpending : ∀ w ∈ pending, LoaderChunkPlaced shard s (s.loaders lid).toRequest w)
    (taken : s.awaitCopyChunks lid f pending = some s') :
    Walked shard s s' lid pending ∧ (s'.loaders lid).chunks = (s.loaders lid).chunks := by
  induction pending generalizing s with
  | nil =>
    cases taken
    exact ⟨Walked.refl h lid, rfl⟩
  | cons v pending ih =>
    obtain ⟨s₁, hv, hr⟩ := Option.bind_eq_some_iff.1 taken
    change s.awaitCopyChunk lid f v = some s₁ at hv
    have hp := hpending v (.head _)
    have hf : Walked shard s s₁ lid [v] ∧ (s₁.loaders lid).chunks = (s.loaders lid).chunks := by
      rw [awaitCopyChunk] at hv
      split_ifs at hv
      · cases hv
        exact ⟨Walked.await h hlid hp, by simp [State.await, State.setLoader]⟩
      · obtain ⟨d, hd, rfl⟩ := Option.map_eq_some_iff.1 hv
        exact ⟨Walked.copied h hlid hp hd, by simp [State.copied, State.setLoader]⟩
    obtain ⟨hk, hc⟩ := hf
    have hq := hk.stays.request lid hlid
    obtain ⟨hwk', hcs'⟩ := ih hk.slots (hlid.trans_eq hk.count.symm)
      (fun w hw => hq ▸ (hpending w (.tail _ hw)).mono hk.stays) hr
    exact ⟨hk.trans hwk', hcs'.trans hc⟩

lemma Walked.startLoad (hv : LoaderChunkPlaced shard s (s.loaders lid).toRequest v)
    (stage : (s.loaders lid).stage = .init) (result : (s.loaders lid).result = none)
    (contiguous : ∃ a, Contiguous shard.chunkSize a ((s.loaders lid).chunks ++ [v])) :
    Walked shard s (s.startLoad lid v) lid [v] ∧
      ((s.startLoad lid v).loaders lid).chunks = (s.loaders lid).chunks ++ [v] := by
  have hext := Extends.startLoad s lid v
  have hs := Stays.of_update hext rfl rfl rfl
  have hl := (h.loader lid hlid).mono hs
  refine ⟨Updates.walked ⟨hs, rfl, rfl, fun _ hi _ => hi, fun _ hm _ => hm, fun hd => ?_,
    fun _ => ?_⟩ h rfl rfl rfl
    fun _ _ ha => ha.startLoad result hv.lower hv.upper,
    by simp [State.startLoad, State.setLoader]⟩
  · have hc := (h.chunk v.chunk hd).mono hext
    exact ⟨hc.grid, hc.stop, hc.data, hc.awaiters⟩
  · refine ⟨hl.request, fun w hw => ?_, contiguous, fun f hf => ?_, fun _ _ _ _ hp => ?_⟩
    · rcases mem_append.1 hw with hw | hw
      · exact hl.chunks w hw
      · rw [mem_singleton.1 hw]
        exact hv.mono hs
    · rw [result] at hf
      cases hf
    · change (s.loaders lid).stage = _ at hp
      rw [stage] at hp
      cases hp

lemma Walked.startLoads
    (hpending : ∀ w ∈ pending, LoaderChunkPlaced shard s (s.loaders lid).toRequest w)
    (stage : (s.loaders lid).stage = .init) (result : (s.loaders lid).result = none)
    (contiguous : ∃ a, Contiguous shard.chunkSize a ((s.loaders lid).chunks ++ pending)) :
    Walked shard s (s.startLoads lid pending) lid pending ∧
      ((s.startLoads lid pending).loaders lid).chunks = (s.loaders lid).chunks ++ pending := by
  induction pending generalizing s with
  | nil => exact ⟨Walked.refl h lid, (append_nil _).symm⟩
  | cons v pending ih =>
    have hspl : (s.loaders lid).chunks ++ v :: pending =
        ((s.loaders lid).chunks ++ [v]) ++ pending := by simp
    rw [hspl] at contiguous ⊢
    obtain ⟨a, contiguous⟩ := contiguous
    obtain ⟨hk, hc⟩ := Walked.startLoad h hlid (hpending v (.head _)) stage
      result ⟨a, (Contiguous.append_iff.1 contiguous).1⟩
    have hr := hk.stays.request lid hlid
    rw [← hc] at contiguous ⊢
    obtain ⟨hwk', hcs'⟩ := ih hk.slots (hlid.trans_eq hk.count.symm)
      (fun w hw => hr ▸ (hpending w (.tail _ hw)).mono hk.stays)
      (hk.stage.trans stage) (hk.result.trans result) ⟨a, contiguous⟩
    exact ⟨hk.trans hwk', hcs'⟩

end

lemma Regular.chunkDuration_pos (h : Regular shard) : 0 < shard.chunkDuration := by
  rw [h.chunkDuration]
  exact Int.mul_pos (Int.natCast_pos.2 h.chunkSize) (Int.mul_pos h.stepSec (by decide))

/-- Only the walk moves. -/
lemma Stays.of_eq (clock : s'.clock = s.clock) (hloaderCount : s'.loaderCount = s.loaderCount)
    (loaders : s'.loaders = s.loaders) (hchunkCount : s'.chunkCount = s.chunkCount)
    (hchunks : s'.chunks = s.chunks) : Stays s s' where
  toExtends := Extends.of_eq clock.ge hloaderCount loaders
  chunkCount := hchunkCount.ge
  start id _ := by rw [hchunks]

lemma Slots.visited (h : Slots shard s) (v : Visit) (id : Nat) (after : List Nat)
    (pending : List LoaderChunk) : Slots shard (s.visited shard v id after pending) :=
  have hs : Stays s (s.visited shard v id after pending) := .of_eq rfl rfl rfl rfl rfl
  ⟨fun id hi => (h.chunk id hi).mono hs.toExtends, fun lid hlid => (h.loader lid hlid).mono hs⟩

/-- Behind a chunk the walk is a chunk further. -/
lemma InTime.visited {v : Visit} (hregular : Regular shard) (h : Slots shard s)
    (hid' : id < s.chunkCount)
    (hstart : (s.chunks id).start = (s.loaders v.loader).timeStart + v.pos * shard.step)
    (hpending : ∀ w ∈ pending, LoaderChunkPlaced shard s (s.loaders v.loader).toRequest w)
    (contiguous : ∃ a, Contiguous shard.chunkSize a ((s.loaders v.loader).chunks ++ pending) ∧
      a + ((s.loaders v.loader).chunks ++ pending).length * shard.chunkSize =
        v.pos + shard.chunkSize)
    (covered : Covered shard s (s.loaders v.loader) (v.pos + shard.chunkSize) pending)
    (others : ∀ lid < s.loaderCount, lid ≠ v.loader →
      Covered shard s (s.loaders lid) (s.loaders lid).loadEnd []) :
    InTime shard (s.visited shard v id after pending) := by
  have hs : Stays s (s.visited shard v id after pending) := Stays.of_eq rfl rfl rfl rfl rfl
  refine ⟨h.visited v id after pending, ?_, fun lid hlid hne => ?_⟩
  · rintro _ ⟨⟩
    refine ⟨?_, fun w hw => (hpending w hw).mono hs, contiguous, covered.mono hs.toExtends⟩
    change (s.chunks id).stop = (s.loaders v.loader).timeStart +
      ((v.pos + shard.chunkSize : Nat) : Int) * shard.step
    rw [(h.chunk id hid').stop, hstart, hregular.chunkDuration]
    push_cast
    ring
  · exact (others lid hlid fun heq => hne _ rfl heq.symm).mono hs.toExtends

lemma Covered.next {v : Visit} (id : Nat)
    (h : Covered shard s (s.loaders v.loader) v.pos v.pending) :
    Covered shard s (s.loaders v.loader) (v.pos + shard.chunkSize)
      (v.pending ++ [s.loaderChunk shard v id]) := by
  intro p hlo hhi hu
  by_cases hp : p < v.pos
  · refine (h p hlo hhi hp).imp_right (.imp_right (.imp_right (.imp_right ?_)))
    rintro ⟨w, hw, hw'⟩
    exact ⟨w, mem_append_left _ hw, hw'⟩
  · refine .inr (.inr (.inr (.inr ⟨_, mem_append_right _ (.head _), ?_⟩)))
    exact ⟨max_le (not_lt.1 hp) hlo, lt_min hhi hu⟩

lemma Contiguous.concat {a pos : Nat} {vs : List LoaderChunk} {w : LoaderChunk}
    (h : Contiguous shard.chunkSize a vs) (reached : a + vs.length * shard.chunkSize = pos)
    (hstart : w.chunkStart = pos) (hend : w.chunkEnd = pos + shard.chunkSize) :
    Contiguous shard.chunkSize a (vs ++ [w]) ∧
      a + (vs ++ [w]).length * shard.chunkSize = pos + shard.chunkSize := by
  constructor
  · rw [Contiguous.append_iff, reached]
    exact ⟨h, hstart, hend, trivial⟩
  · rw [length_append, length_singleton, ← reached]
    ring

lemma InTime.maybeAddChunk {v : Visit} (hregular : Regular shard) (h : Slots shard s)
    (walkPlaced : WalkPlaced shard s v)
    (others : ∀ lid < s.loaderCount, lid ≠ v.loader →
      Covered shard s (s.loaders lid) (s.loaders lid).loadEnd []) (hlid : v.loader < s.loaderCount)
    (stage : (s.loaders v.loader).stage = .init) (result : (s.loaders v.loader).result = none)
    (hid' : id < s.chunkCount) (hstart : (s.chunks id).start = v.t)
    (taken : s.maybeAddChunk shard f v id after = some s') : InTime shard s' := by
  rw [walkPlaced.t] at hstart
  have hl : LoaderChunkPlaced shard s (s.loaders v.loader).toRequest (s.loaderChunk shard v id) :=
    ⟨hid', hstart, le_max_left _ _, min_le_right _ _⟩
  have hn := walkPlaced.covered.next id
  obtain ⟨a, hc, hp⟩ := walkPlaced.contiguous
  rcases maybeAddChunk_cases taken with ⟨decided, hd, rfl⟩ | rfl
  · have hb : ∃ a, Walked shard s decided v.loader v.pending ∧
        Contiguous shard.chunkSize a (decided.loaders v.loader).chunks ∧
        a + (decided.loaders v.loader).chunks.length * shard.chunkSize = v.pos := by
      rcases hd with ⟨he, hd⟩ | ⟨-, rfl⟩
      · obtain ⟨hk, hs⟩ := Walked.awaitCopyChunks h hlid walkPlaced.pending hd
        rw [he] at hs
        exact ⟨v.pos, hk, by rw [hs]; trivial, by rw [hs]; simp⟩
      · obtain ⟨hk, hs⟩ := Walked.startLoads h hlid walkPlaced.pending stage result ⟨a, hc⟩
        rw [← hs] at hc hp
        exact ⟨a, hk, hc, hp⟩
    obtain ⟨a, hk, hc, hp⟩ := hb
    have hr := hk.stays.request _ hlid
    have hf : LoaderChunkPlaced shard decided (decided.loaders v.loader).toRequest
        (s.loaderChunk shard v id) := hr ▸ hl.mono hk.stays
    obtain ⟨hc, hp⟩ := hc.concat hp (w := s.loaderChunk shard v id) rfl rfl
    obtain ⟨ht, hs⟩ := Walked.startLoad hk.slots
      (hlid.trans_eq hk.count.symm) hf (hk.stage.trans stage)
      (hk.result.trans result) ⟨a, hc⟩
    have ha := hk.trans ht
    have hrq' := ha.stays.request _ hlid
    refine InTime.visited hregular ha.slots (hid'.trans_le ha.stays.chunkCount) ?_
      (forall_mem_nil _) ⟨a, ?_, ?_⟩ (ha.covered _ [] (by simpa using hn)) ?_
    · rw [ha.stays.start id hid', hrq']
      exact hstart
    · rw [hs, append_nil]
      exact hc
    · rw [hs, append_nil]
      exact hp
    · intro lid hlt hne
      rw [ha.others lid hne]
      exact (others lid (hlt.trans_eq ha.count) hne).mono ha.stays.toExtends
  · obtain ⟨hc, hp⟩ := hc.concat hp (w := s.loaderChunk shard v id) rfl rfl
    rw [append_assoc] at hc hp
    refine InTime.visited hregular h hid' hstart (fun w hw => ?_) ⟨a, hc, hp⟩ hn others
    rcases mem_append.1 hw with hw | hw
    · exact walkPlaced.pending w hw
    · rw [mem_singleton.1 hw]
      exact hl

lemma Stays.newChunk (shard : Shard) (s : State V T) (t : Int) : Stays s (s.newChunk shard t) where
  toExtends := Extends.newChunk shard s t
  chunkCount := Nat.le_succ _
  start id hi := by simp [State.newChunk, State.setChunk, hi.ne]

lemma Regular.chunkEnd (h : Regular shard) (t : Int) : shard.chunkEnd t = t + shard.chunkDuration :=
  if_neg h.step.ne

lemma Regular.dvd_step : second ∣ shard.step := Dvd.intro_left _ rfl

lemma Slots.newChunk (hregular : Regular shard) (h : Slots shard s) (ht : second ∣ t) :
    Slots shard (s.newChunk shard t) := by
  have hs := Stays.newChunk shard s t
  have hu : Updates shard s (s.newChunk shard t) s.chunkCount
      { start := t, stop := shard.chunkEnd t } 0 (s.loaders 0) :=
    ⟨hs, rfl, (update_eq_self 0 s.loaders).symm,
      fun _ hi hne => lt_of_le_of_ne (Nat.lt_succ_iff.1 hi) hne, fun _ hm _ => hm,
      fun _ => ⟨ht, hregular.chunkEnd t, nofun, forall_mem_nil _⟩,
      fun hlid => (h.loader 0 hlid).mono hs⟩
  exact hu.slots h

lemma WalkPlaced.mono {v : Visit} (h : WalkPlaced shard s v) (stays : Stays s s')
    (sameLoader : s'.loaders v.loader = s.loaders v.loader) : WalkPlaced shard s' v where
  t := by rw [sameLoader]; exact h.t
  pending w hw := by rw [sameLoader]; exact (h.pending w hw).mono stays
  contiguous := by rw [sameLoader]; exact h.contiguous
  covered := by rw [sameLoader]; exact h.covered.mono stays.toExtends

variable (hregular : Regular shard)
include hregular

lemma InTime.visit (h : InTime shard s) (fresh : Fresh s) (known : Known s)
    (taken : s.visit shard f = some s') : InTime shard s' := by
  obtain ⟨v, hv, -, had⟩ := visit_cases taken
  have hl := h.walk v hv
  have hs := fresh.visiting v hv
  have hr := fresh.running _ (.inl hs.stage)
  have ho lid (hlid : lid < s.loaderCount) (hne : lid ≠ v.loader) :
      Covered shard s (s.loaders lid) (s.loaders lid).loadEnd [] := by
    refine h.covered lid hlid fun w hw => ?_
    rw [hv] at hw
    cases hw
    exact hne.symm
  rcases chunkAt_cases shard s v with ⟨id, rest, ha, hb, heq⟩ | heq
  · rw [heq] at had
    have hi := known.walk v hv id (by rw [ha]; simp)
    exact InTime.maybeAddChunk hregular h.toSlots hl ho hs.loader hs.stage hr hi hb had
  · rw [heq] at had
    have ht := Stays.newChunk shard s v.t
    have hg : second ∣ v.t := by
      rw [hl.t]
      exact Int.dvd_add (h.loader _ hs.loader).request.grid
        (Int.dvd_mul_of_dvd_right Regular.dvd_step)
    exact InTime.maybeAddChunk hregular (h.toSlots.newChunk hregular hg) (hl.mono ht rfl)
      (fun lid hlid hne => (ho lid hlid hne).mono ht.toExtends) hs.loader
      hs.stage hr (Nat.lt_succ_self _) (by simp [State.newChunk, State.setChunk]) had

/-- The walk has been over all slots of the request. -/
lemma WalkPlaced.loadEnd_le {v : Visit} (h : WalkPlaced shard s v)
    (requestPlaced : RequestPlaced shard (s.loaders v.loader).toRequest)
    (hend : ¬v.t < (s.loaders v.loader).timeEnd) : (s.loaders v.loader).loadEnd ≤ v.pos := by
  obtain ⟨n, ht, hl⟩ := requestPlaced.timeEnd
  have hs : 0 < shard.step := Int.mul_pos hregular.stepSec (by decide)
  rw [h.t, ht, hregular.chunkDuration, not_lt] at hend
  have hle : ((n * shard.chunkSize : Nat) : Int) * shard.step ≤ v.pos * shard.step := by
    push_cast
    linarith
  exact hl.trans (Int.ofNat_le.1 (le_of_mul_le_mul_right hle hs))

lemma InTime.initEnd (h : InTime shard s) (fresh : Fresh s) (taken : s.initEnd f = some s') :
    InTime shard s' := by
  obtain ⟨v, decided, hv, he, hd, rfl⟩ := initEnd_cases taken
  have ha := h.walk v hv
  have hs := fresh.visiting v hv
  have hlid := hs.loader
  obtain ⟨hk, -⟩ := Walked.awaitCopyChunks h.toSlots hlid ha.pending hd
  have hr := hk.stays.request _ hlid
  have hle := ha.loadEnd_le hregular (h.loader _ hlid).request he
  have hc := hk.covered v.pos [] (by simpa using ha.covered)
  set done : State V T :=
    { decided.setLoader v.loader { decided.loaders v.loader with stage := .run } with
      bucket := v.before ++ v.after
      visiting := none }
  have hext : Extends decided done := Extends.of_update le_rfl rfl rfl rfl fun _ hf => hf
  have hu : Updates shard decided done 0 (decided.chunks 0) v.loader
      { decided.loaders v.loader with stage := .run } := by
    refine .of_loader hk.slots hext rfl rfl (fun _ hm _ => hm) rfl fun ht hlid => ?_
    have hl := (hk.slots.loader _ hlid).mono ht
    exact ⟨hl.request, hl.chunks, hl.contiguous, hl.own, nofun⟩
  refine ⟨hu.slots hk.slots, nofun, fun lid hlt _ => ?_⟩
  rcases eq_or_ne lid v.loader with rfl | hne
  · rw [hu.self]
    intro p hlo hhi hb
    have hp : p < v.pos := by
      rw [hr] at hb
      omega
    exact (hc.mono hext) p hlo hhi hp
  · rw [hu.other hne, hk.others lid hne]
    refine (h.covered lid (hlt.trans_eq hk.count) fun w hw => ?_).mono
      (hk.stays.toExtends.trans hext)
    rw [hv] at hw
    cases hw
    exact hne.symm

end Walk

end SeriesCache
