import StatsHouse.SeriesSlots
import StatsHouse.TimescaleGrid

/-!
# Times of cached series

Loads, messages to awaiters and new requests keep rows in slots of their time as counted from
the first chunk of a request, so that every result has them there. Chunks of steps up to an hour
start at whole chunks since 1970, whatever the offset of the time zone; levels of detail are
aligned with the offset. The two grids are one when the step divides the offset, and larger
steps have chunks that are aligned with the offset too.
-/

namespace SeriesCache

variable {V T : Type} {r : Request} {a : Awaiter} {c : Chunk V T} {fromSec : Int} {l : Loader V T}
  {f slots : Nat → Slot V T} {shard : Shard}

section Loads

variable {shard : Shard} {s s' : State V T} {lid id : Nat}

/-- A step outside of the walk keeps it where it is. -/
lemma InTime.update (h : InTime shard s) (hu : Updates shard s s' id c lid l)
    (loaderCount : s'.loaderCount = s.loaderCount) (visiting : s'.visiting = s.visiting)
    (walks : ∀ v, s.visiting = some v → v.loader < s.loaderCount)
    (hchunks : l.chunks = (s.loaders lid).chunks)
    (covers : ∀ upto pending, Covered shard s (s.loaders lid) upto pending →
      Covered shard s' l upto pending) : InTime shard s' := by
  have ha {m upto : Nat} {pending : List LoaderChunk}
      (hc : Covered shard s (s.loaders m) upto pending) :
      Covered shard s' (s'.loaders m) upto pending := by
    rcases eq_or_ne m lid with rfl | hne
    · rw [hu.self]
      exact covers upto pending hc
    · rw [hu.other hne]
      exact hc.mono hu.stays.toExtends
  refine ⟨hu.slots h.toSlots, fun v hv => ?_, fun m hm hne => ?_⟩
  · rw [visiting] at hv
    have hr := hu.stays.request _ (walks v hv)
    have hs : (s'.loaders v.loader).chunks = (s.loaders v.loader).chunks := by
      rcases eq_or_ne v.loader lid with heq | hne
      · rw [heq, hu.self, hchunks]
      · rw [hu.other hne]
    obtain ⟨ht, hp, hg, hb⟩ := h.walk v hv
    exact ⟨by rw [hr, ht], fun w hw => hr ▸ (hp w hw).mono hu.stays,
      by rw [hs]; exact hg, ha hb⟩
  · rw [loaderCount] at hm
    rw [visiting] at hne
    rw [hu.stays.request _ hm]
    exact ha (h.covered m hm hne)

lemma Loader.filled_eq {first : LoaderChunk} {rest : List LoaderChunk} {a : Nat}
    (hchunks : l.chunks = first :: rest) (contiguous : Contiguous shard.chunkSize a l.chunks)
    (p : Nat) :
    l.filled f p = if a ≤ p ∧ p < a + l.chunks.length * shard.chunkSize then f (p - a)
      else l.data p := by
  obtain ⟨last, hl⟩ : ∃ last, l.chunks.getLast? = some last :=
    Option.isSome_iff_exists.1 (List.getLast?_isSome.2 (by rw [hchunks]; simp))
  have he := contiguous.getLast hl
  have ht : first.chunkStart = a := by
    rw [hchunks] at contiguous
    exact contiguous.1
  rw [Loader.filled, hl, hchunks, List.head?_cons, ← hchunks]
  simp only [ht, he]

lemma InTime.callReturns {result : LoadResult V T} (h : InTime shard s) (hfresh : Fresh s)
    (hlid : lid < s.loaderCount)
    (times : ∀ rows, result = .rows rows → ∀ t, ∀ r ∈ rows t, r.time = t)
    (hf : ∀ rows, result = .rows rows → ∀ first rest, (s.loaders lid).chunks = first :: rest →
      ∀ i, SameRows (f i) (rows (placeTime shard (s.chunks first.chunk).start i)))
    (hstep : s.callReturns lid result f = some s') : InTime shard s' := by
  obtain ⟨first, rest, hj, hh, heq⟩ := State.callReturns_cases hstep
  have hn := hfresh.running lid (.inr hj)
  have hext := Extends.callReturns hn hstep
  have hl := h.loader lid hlid
  obtain ⟨a, hc⟩ := hl.contiguous
  have hb := Loader.filled_eq (f := f) hh hc
  have hs : first.chunkStart = a := by
    rw [hh] at hc
    exact hc.1
  have hk := hl.chunks first (by rw [hh]; exact List.mem_cons_self)
  subst heq
  set l' : Loader V T := { s.loaders lid with
      data := (s.loaders lid).filled f
      result := some result
      failed := (s.loaders lid).failed || !result.ok
      stage := .post (s.loaders lid).chunks first.chunkStart [] 0 } with hl'
  have ho : (s.setLoader lid l').loaders lid = l' := by simp [State.setLoader]
  have he rows (hr : result = .rows rows) p (hp : a ≤ p)
      (hp' : p < a + (s.loaders lid).chunks.length * shard.chunkSize) :
      Served (s.setLoader lid l') (placeTime shard (s.loaders lid).timeStart p) (l'.data p) := by
    have ha := hf rows hr first rest hh (p - a)
    rw [← hs, hk.placeTime_chunk hl.request.grid (hs.trans_le hp), hs] at ha
    have hd : l'.data p = f (p - a) := (hb p).trans (if_pos ⟨hp, hp'⟩)
    rw [hd]
    exact ⟨ha.times (times rows hr _), lid, hlid, rows, by rw [ho, hl', hr], ha⟩
  have hu : Updates shard s (s.setLoader lid l') 0 (s.chunks 0) lid l' := by
    refine .of_loader h.toSlots hext rfl rfl (fun _ hm _ => hm) rfl fun hy _ => ?_
    have hl₂ := hl.mono hy
    refine ⟨hl₂.request, hl₂.chunks, hl₂.contiguous, fun g hg v hv p hp hp' => ?_, ?_⟩
    · obtain ⟨hw, hq, ht⟩ := hc.mem hv
      exact he g (Option.some.inj hg) p (hw.trans hp) (by omega)
    · rintro todo start giving base hx
      cases hx
      exact ⟨⟨[], rfl⟩, by rw [hs]; exact hc, .inl rfl⟩
  refine h.update hu rfl rfl (fun v hv => (hfresh.visiting v hv).loader) rfl
    fun upto pending hz p hlo hhi hup => ?_
  cases hi : result with
  | error => exact .inl (by rw [hl', hi]; simp [LoadResult.ok])
  | rows rows =>
    by_cases hp : a ≤ p ∧ p < a + (s.loaders lid).chunks.length * shard.chunkSize
    · exact .inr (.inl (he rows hi p hp.1 hp.2))
    · rcases hz p hlo hhi hup with h | h | h | ⟨-, v, hv, hp'⟩ | h
      · exact .inl (by rw [hl']; simp [h])
      · refine .inr (.inl ?_)
        have hd : l'.data p = (s.loaders lid).data p := (hb p).trans (if_neg hp)
        rw [hd]
        exact h.mono hext
      · exact .inr (.inr (.inl h))
      · obtain ⟨hw, hq, ht⟩ := hc.mem hv
        exact absurd ⟨by omega, by omega⟩ hp
      · exact .inr (.inr (.inr (.inr h)))

/-- The rows that a chunk gets are of the times of its slots. -/
lemma ChunkPlaced.stored (h : ChunkPlaced shard s c) (ok : Bool) (d : ChunkData V T)
    (hd : ok = true → ∀ j < shard.chunkSize,
      Served s (placeTime shard c.start j) (d.slots j)) : ChunkPlaced shard s (c.stored ok d) := by
  rw [Chunk.stored]
  split_ifs with ht ho
  · exact ⟨h.grid, h.stop, h.data, List.forall_mem_nil _⟩
  · refine ⟨h.grid, h.stop, fun d' hd' j hj => ?_, List.forall_mem_nil _⟩
    obtain rfl := Option.some.inj hd'
    exact hd ho j hj
  · exact ⟨h.grid, h.stop, h.data, List.forall_mem_nil _⟩

lemma Chunk.stored_start (c : Chunk V T) (ok : Bool) (d : ChunkData V T) :
    (c.stored ok d).start = c.start := by
  rw [Chunk.stored]
  split_ifs <;> rfl

lemma InTime.store (h : InTime shard s) (hfresh : Fresh s) (hlid : lid < s.loaderCount)
    (hstep : s.store shard lid = some s') : InTime shard s' := by
  obtain ⟨v, todo, start, base, hg, -, rfl⟩ := State.store_cases hstep
  have hl := h.loader lid hlid
  obtain ⟨⟨done, hb⟩, ⟨ht, -, hc⟩, -⟩ := hl.post _ _ _ _ hg
  have hv : v ∈ (s.loaders lid).chunks := by
    rw [hb]
    simp
  have hp := hl.chunks v hv
  set d : ChunkData V T := { slots := fun j => (s.loaders lid).data (start + j), producer := lid }
  set l' : Loader V T := { s.loaders lid with
      stage := .post todo (start + shard.chunkSize) (s.chunks v.chunk).awaiters start }
  set stored := (s.setChunk v.chunk ((s.chunks v.chunk).stored (s.loaders lid).ok d)).setLoader
    lid l'
  have hext : Extends s stored := Extends.of_update le_rfl rfl rfl rfl fun _ hf => hf
  have hs := Stays.of_update hext rfl rfl (Chunk.stored_start _ _ _)
  have hu : Updates shard s stored v.chunk ((s.chunks v.chunk).stored (s.loaders lid).ok d) lid
      l' := by
    refine ⟨hs, rfl, rfl, fun _ hi _ => hi, fun _ hm _ => hm, fun _ => ?_, fun _ => ?_⟩
    · refine ((h.chunk v.chunk hp.known).stored _ d fun ho j hj => ?_).mono hext
      obtain ⟨f, hf⟩ := Loader.rows_of_ok ho
      have hr := hl.own f hf v hv (start + j) (by omega) (by omega)
      rw [← hp.placeTime_chunk hl.request.grid (by omega)] at hr
      rwa [show start + j - v.chunkStart = j by omega] at hr
    · have hl₂ := hl.mono hs
      refine ⟨hl₂.request, hl₂.chunks, hl₂.contiguous, hl₂.own, ?_⟩
      rintro _ _ _ _ ⟨⟩
      refine ⟨⟨done ++ [v], ?_⟩, hc, .inr ⟨v, hv, ht.symm, fun a ha => ?_⟩⟩
      · change (s.loaders lid).chunks = _
        rw [hb]
        simp
      · rw [hs.start _ hp.known]
        exact ((h.chunk v.chunk hp.known).awaiters a ha).mono hext
  exact h.update hu rfl rfl (fun w hw => (hfresh.visiting w hw).loader) rfl
    fun _ _ hd => hd.mono hext

lemma Covered.given {m : Loader V T} {ok : Bool} {upto : Nat} {pending : List LoaderChunk}
    (h : Covered shard s m upto pending)
    (rows : ok = true → ∀ p, a.loadStart ≤ p → p < a.loadEnd →
      Served s (placeTime shard m.timeStart p) (slots (a.chunkOffset + (p - a.loadStart)))) :
    Covered shard s (m.given ok slots a) upto pending := by
  intro p hlo hhi hu
  obtain ⟨hr, -, he⟩ := m.given_fields ok slots a
  cases ok with
  | false => exact .inl rfl
  | true =>
    by_cases hp : a.loadStart ≤ p ∧ p < a.loadEnd
    · have hd : (m.given true slots a).data p =
          slots (a.chunkOffset + (p - a.loadStart)) := if_pos hp
      rw [hd]
      exact .inr (.inl (rows rfl p hp.1 hp.2))
    · have hd : (m.given true slots a).data p = m.data p := if_neg hp
      rw [hd]
      rcases h p hlo hhi hu with h | h | ⟨w, hw, ha⟩ | h | h
      · exact .inl h
      · exact .inr (.inl h)
      · have hne : w ≠ (a.loadStart, a.loadEnd) := by
          rintro rfl
          exact hp ha
        exact .inr (.inr (.inl ⟨w, (List.mem_erase_of_ne hne).2 hw, ha⟩))
      · exact .inr (.inr (.inr (.inl h)))
      · exact .inr (.inr (.inr (.inr h)))

lemma Loader.given_chunks (m : Loader V T) (ok : Bool) (slots : Nat → Slot V T) (a : Awaiter) :
    (m.given ok slots a).chunks = m.chunks := by
  rw [Loader.given]
  split_ifs <;> rfl

variable (h : InTime shard s)
include h

lemma InTime.given (walks : ∀ v, s.visiting = some v →
    v.loader < s.loaderCount) (ok : Bool) (ha : a.loader < s.loaderCount)
    (rows : ok = true → ∀ p, a.loadStart ≤ p → p < a.loadEnd →
      Served s (placeTime shard (s.loaders a.loader).timeStart p)
        (slots (a.chunkOffset + (p - a.loadStart)))) :
    InTime shard (s.setLoader a.loader ((s.loaders a.loader).given ok slots a)) := by
  obtain ⟨hr, hs, he⟩ := (s.loaders a.loader).given_fields ok slots a
  have hc := (s.loaders a.loader).given_chunks ok slots a
  set m' := (s.loaders a.loader).given ok slots a with hm'
  have hext : Extends s (s.setLoader a.loader m') :=
    Extends.of_update le_rfl rfl rfl hr fun f hf => he.trans hf
  have hu : Updates shard s (s.setLoader a.loader m') 0 (s.chunks 0) a.loader m' := by
    refine .of_loader h.toSlots hext rfl rfl (fun _ hm _ => hm) rfl fun hy _ => ?_
    refine ((h.loader _ ha).mono hy).congr hr hc he hs fun p => ?_
    have hd : m'.data p = (s.loaders a.loader).data p ∨
        Served s (placeTime shard (s.loaders a.loader).timeStart p) (m'.data p) := by
      rw [hm', Loader.given]
      split_ifs with ho
      · by_cases hp : a.loadStart ≤ p ∧ p < a.loadEnd
        · right
          dsimp only
          rw [if_pos hp]
          exact rows ho p hp.1 hp.2
        · left
          exact if_neg hp
      · exact .inl rfl
    exact hd.imp_right fun hb => hb.mono hext
  exact h.update hu rfl rfl walks hc fun _ _ hv => (hv.given rows).mono hext

variable (hfresh : Fresh s)
include hfresh

lemma InTime.give (hlid : lid < s.loaderCount) (hstep : s.give lid = some s') :
    InTime shard s' := by
  obtain ⟨todo, start, a, giving, base, hs, rfl⟩ := State.give_cases hstep
  have hl := h.loader lid hlid
  obtain ⟨hc, hd, he⟩ := hl.post _ _ _ _ hs
  obtain ⟨v, hv, rfl, hg⟩ := he.resolve_left (List.cons_ne_nil _ _)
  set l' : Loader V T := { s.loaders lid with stage := .post todo start giving v.chunkStart }
  set s₁ := s.setLoader lid l'
  have hext : Extends s s₁ := Extends.of_update le_rfl rfl rfl rfl fun _ hf => hf
  have hu : Updates shard s s₁ 0 (s.chunks 0) lid l' := by
    refine .of_loader h.toSlots hext rfl rfl (fun _ hm _ => hm) rfl fun hy _ => ?_
    have hl₂ := hl.mono hy
    refine ⟨hl₂.request, hl₂.chunks, hl₂.contiguous, hl₂.own, ?_⟩
    rintro _ _ _ _ ⟨⟩
    exact ⟨hc, hd, .inr ⟨v, hv, rfl, fun b hb =>
      (hg b (List.mem_cons_of_mem _ hb)).mono hext⟩⟩
  have hi := h.update hu rfl rfl (fun w hw => (hfresh.visiting w hw).loader) rfl
    fun _ _ hk => hk.mono hext
  have ha := hg a List.mem_cons_self
  refine hi.given (fun w hw => (hfresh.visiting w hw).loader) _ ha.loader fun ho p hp hp' => ?_
  obtain ⟨f, hf⟩ := Loader.rows_of_ok ho
  have hj := ha.inside p hp hp'
  have hr := hl.own f hf v hv (v.chunkStart + (a.chunkOffset + (p - a.loadStart)))
    (Nat.le_add_right _ _) (Nat.add_lt_add_left hj _)
  have ht : placeTime shard (s₁.loaders a.loader).timeStart p =
      placeTime shard (s.loaders lid).timeStart
        (v.chunkStart + (a.chunkOffset + (p - a.loadStart))) := by
    rw [hext.request _ ha.loader, ← placeTime_add hl.request.grid, ← (hl.chunks v hv).start,
      ← placeTime_add (h.chunk _ (hl.chunks v hv).known).grid, ha.start,
      placeTime_add (h.loader _ ha.loader).request.grid, Nat.add_sub_cancel' hp]
  rw [ht]
  exact hr.mono hext

lemma InTime.chunkChange (hext : Extends s s') (chunkCount : s'.chunkCount = s.chunkCount)
    (hchunks : s'.chunks = Function.update s.chunks id c) (loaders : s'.loaders = s.loaders)
    (loaderCount : s'.loaderCount = s.loaderCount) (visiting : s'.visiting = s.visiting)
    (hstart : c.start = (s.chunks id).start)
    (hc : ChunkPlaced shard s (s.chunks id) → ChunkPlaced shard s c) : InTime shard s' := by
  have hs := Stays.of_update hext chunkCount hchunks hstart
  have hu : Updates shard s s' id c 0 (s.loaders 0) :=
    ⟨hs, hchunks, loaders.trans (Function.update_eq_self 0 s.loaders).symm,
      fun _ hi _ => chunkCount ▸ hi, fun _ hm _ => loaderCount ▸ hm,
      fun hd => (hc (h.chunk id (chunkCount ▸ hd))).mono hext,
      fun hlid => (h.loader 0 (loaderCount ▸ hlid)).mono hs⟩
  exact h.update hu loaderCount visiting (fun v hv => (hfresh.visiting v hv).loader) rfl
    fun _ _ ha => ha.mono hext

lemma InTime.invalidate {now : Int} (hstep : s.invalidate now id = some s') : InTime shard s' := by
  obtain ⟨-, hl, rfl⟩ := State.invalidate_cases hstep
  refine h.chunkChange hfresh (Extends.of_eq hl rfl rfl) rfl rfl rfl rfl rfl rfl fun hc => ?_
  exact ⟨hc.grid, hc.stop, hc.data, hc.awaiters⟩

lemma InTime.trim (hstep : s.trim id = some s') : InTime shard s' := by
  obtain ⟨-, rfl⟩ := State.trim_cases hstep
  refine h.chunkChange hfresh (Extends.of_eq le_rfl rfl rfl) rfl rfl rfl rfl rfl rfl fun hc => ?_
  exact ⟨hc.grid, hc.stop, nofun, hc.awaiters⟩

end Loads

section Requests

variable {shard : Shard} {s s' : State V T}

section

variable (hregular : Regular shard)
include hregular

/-- Enough turns of the loop reach the end, a chunk each, and stop there. -/
lemma Regular.countTo (stop : Int) (fuel : Nat) (t : Int) (n : Nat) :
    ∃ k : Nat, Shard.countTo shard.chunkEnd stop fuel t n = (t + k * shard.chunkDuration, n + k) ∧
      (stop - t ≤ fuel → stop ≤ t + k * shard.chunkDuration) ∧
      (k = 0 ∨ t + k * shard.chunkDuration < stop + shard.chunkDuration) := by
  induction fuel generalizing t n with
  | zero =>
    refine ⟨0, by simp [Shard.countTo], fun hf => ?_, .inl rfl⟩
    omega
  | succ fuel ih =>
    rw [Shard.countTo]
    split_ifs with hlt
    · obtain ⟨k, heq, hs, hb⟩ := ih (shard.chunkEnd t) (n + 1)
      rw [hregular.chunkEnd] at heq hs hb ⊢
      have hu : t + ((k + 1 : Nat) : Int) * shard.chunkDuration =
          t + shard.chunkDuration + k * shard.chunkDuration := by
        push_cast
        ring
      refine ⟨k + 1, ?_, fun hf => ?_, .inr ?_⟩
      · rw [heq, hu, Nat.add_right_comm, Nat.add_assoc]
      · rw [hu]
        have hp := hregular.chunkDuration_pos
        exact hs (by omega)
      · rw [hu]
        rcases hb with rfl | hb
        · simpa using hlt
        · exact hb
    · refine ⟨0, by simp, fun _ => ?_, .inl rfl⟩
      omega

lemma Regular.grid (t : Int) : second ∣ shard.chunkStart t := by
  have hd : second ∣ shard.chunkDuration := by
    rw [hregular.chunkDuration, Shard.step, ← mul_assoc]
    exact dvd_mul_left _ _
  rw [Shard.chunkStart]
  split_ifs with hs hm
  · exact Int.dvd_mul_of_dvd_right hd
  · exact Int.dvd_sub (Int.dvd_mul_of_dvd_right hd) hregular.utcOffset
  · exact absurd hregular.step hm

lemma Regular.request {now toSec stale : Int} {force : Bool}
    (h : shard.request now fromSec toSec force stale = some r) : RequestPlaced shard r := by
  obtain ⟨lodSize, -, h⟩ := Option.bind_eq_some_iff.1 h
  dsimp only at h
  obtain ⟨k, hc, -, -⟩ := hregular.countTo (toSec * second)
    (toSec * second - shard.chunkStart (fromSec * second)).toNat
    (shard.chunkStart (fromSec * second)) 0
  rw [hc] at h
  split_ifs at h with hg
  push Not at hg
  obtain ⟨-, hl, hf⟩ := hg
  rw [← Option.some.inj h]
  refine ⟨hregular.grid _, rfl, Int.toNat_of_nonneg hl, k, rfl, ?_⟩
  rw [zero_add] at hf
  exact Int.toNat_le.2 hf

lemma Regular.indexOf (fromSec : Int) (n : Nat) :
    shard.indexOf fromSec (fromSec + n * shard.stepSec) = some (n : Int) := by
  rw [Shard.indexOf]
  simp [hregular.step.ne, hregular.stepSec.ne']

/-- A request of whole steps that starts in its first chunk has a loader with a slot a step. Its
chunks end behind the request, and in the range of the source's nanoseconds. -/
theorem Regular.request_some (now : Int)
    (hstart : shard.chunkStart (fromSec * second) ≤ fromSec * second) {n : Nat} (hn : 0 < n)
    (inInt64 : fromSec.natAbs * second + n * shard.step + shard.chunkDuration +
      2 * shard.utcOffset.natAbs < 2 ^ 63) (force : Bool) (stale : Int) :
    ∃ r, shard.request now fromSec (fromSec + n * shard.stepSec) force stale = some r ∧
      r.loadEnd = r.loadStart + n ∧
      (fromSec + n * shard.stepSec) * second ≤ r.timeEnd ∧ r.timeEnd < 2 ^ 63 := by
  have hstep : 0 < shard.step := mul_pos hregular.stepSec (by decide)
  simp only [Shard.request, hregular.indexOf, Option.bind_some]
  set start := shard.chunkStart (fromSec * second)
  obtain ⟨k, hc, hr, hb⟩ := hregular.countTo ((fromSec + n * shard.stepSec) * second)
    ((fromSec + n * shard.stepSec) * second - start).toNat start 0
  have hs := hr (Int.self_le_toNat _)
  have hle := Int.tdiv_mul_le (fromSec * second - start) hstep.ne'
  rw [if_pos (sub_nonneg.2 hstart), Nat.cast_zero, add_zero] at hle
  set load := (fromSec * second - start).tdiv shard.step
  have ha := Int.tdiv_nonneg (sub_nonneg.2 hstart) hstep.le
  have hf : load + n ≤ ((k * shard.chunkSize : Nat) : Int) := by
    refine le_of_mul_le_mul_right ?_ hstep
    rw [hregular.chunkDuration] at hs
    rw [Shard.step] at hle hs ⊢
    push_cast
    linarith
  have he : start + k * shard.chunkDuration < 2 ^ 63 := by
    rw [Shard.step] at inInt64
    rcases hb with rfl | hb
    · rw [Nat.zero_mul, Nat.cast_zero] at hf
      omega
    · have hu : fromSec * second ≤ fromSec.natAbs * second :=
        mul_le_mul_of_nonneg_right Int.le_natAbs (by decide)
      linarith [Int.natCast_nonneg shard.utcOffset.natAbs]
  rw [hc, if_neg]
  · exact ⟨_, rfl, by simp only; omega, hs, he⟩
  · simp only [zero_add]
    omega

end

lemma InTime.newLoader (h : InTime shard s) (visiting : s.visiting = none)
    (later : s.clock ≤ r.timeNow) (hr : RequestPlaced shard r) : InTime shard (s.newLoader r) := by
  have hext := Extends.newLoader later
  have hu : Updates shard s (s.newLoader r) 0 (s.chunks 0) s.loaderCount { toRequest := r } :=
    .of_loader h.toSlots hext rfl rfl
      (fun _ hm hne => lt_of_le_of_ne (Nat.lt_succ_iff.1 hm) hne) rfl
      fun _ _ => ⟨hr, List.forall_mem_nil _, ⟨0, trivial⟩, nofun, nofun⟩
  refine ⟨hu.slots h.toSlots, ?_, fun m hm hne => ?_⟩
  · rintro _ ⟨⟩
    refine ⟨?_, List.forall_mem_nil _, ⟨0, ?_⟩, ?_⟩
    · rw [hu.self]
      simp
    · rw [hu.self]
      exact ⟨trivial, by simp⟩
    · intro p _ _ hp
      exact absurd hp p.not_lt_zero
  · have ho := (hne _ rfl).symm
    rw [hu.other ho]
    exact (h.covered m (hu.known m hm ho) fun v hv => by
      rw [visiting] at hv
      cases hv).mono hext

end Requests

/-- The rows that a call brings are of the times it was asked for. -/
def Action.RowsOfTime : Action V T → Prop
  | .loaded _ rows _ => ∀ t, ∀ r ∈ rows t, r.time = t
  | _ => True

section Run

variable {shard : Shard} {s s' : State V T}

theorem InTime.step (hregular : Regular shard) (h : InTime shard s) (hfresh : Fresh s)
    (known : Known s) {a : Action V T} (ha : a.RowsOfTime)
    (hstep : s.step shard a = some s') : InTime shard s' := by
  cases a with
  | get now fromSec toSec force stale =>
    obtain ⟨r, hv, hl, hr, rfl⟩ := State.get_cases hstep
    exact h.newLoader hv (hl.trans_eq (request_timeNow hr).symm) (hregular.request hr)
  | visit f => exact h.visit hregular hfresh known hstep
  | initEnd f => exact h.initEnd hregular hfresh hstep
  | loaded lid rows f =>
    obtain ⟨hlid, hd⟩ := guard_cases hstep
    obtain ⟨first, rest, hh, hc⟩ := State.loaded_cases hd
    refine h.callReturns hfresh hlid ?_ ?_ hc
    · rintro _ ⟨⟩
      exact ha
    · rintro _ ⟨⟩ first' rest' hch' i
      rw [hh] at hch'
      cases hch'
      exact SameRows.mapTags f _
  | loadFailed lid left =>
    obtain ⟨hlid, hc⟩ := guard_cases hstep
    exact h.callReturns hfresh hlid (fun _ hw => by cases hw) (fun _ hw => by cases hw) hc
  | store lid =>
    obtain ⟨hlid, ht⟩ := guard_cases hstep
    exact h.store hfresh hlid ht
  | give lid =>
    obtain ⟨hlid, hg⟩ := guard_cases hstep
    exact h.give hfresh hlid hg
  | invalidate now id => exact h.invalidate hfresh hstep
  | trim id => exact h.trim hfresh hstep

theorem inTime_run (hregular : Regular shard) {actions : List (Action V T)} (h : InTime shard s)
    (hfresh : Fresh s) (known : Known s) (hactions : ∀ a ∈ actions, a.RowsOfTime)
    (hrun : s.run shard actions = some s') : InTime shard s' := by
  induction actions generalizing s with
  | nil =>
    cases hrun
    exact h
  | cons a actions ih =>
    obtain ⟨s₁, hstep, hr⟩ := Option.bind_eq_some_iff.1 hrun
    exact ih (h.step hregular hfresh known (hactions a List.mem_cons_self) hstep)
      (hfresh.step known hstep) (known.step hstep)
      (fun b hb => hactions b (List.mem_cons_of_mem _ hb)) hr

lemma inTime_empty : InTime shard ({} : State V T) where
  chunk id hi := absurd hi id.not_lt_zero
  loader lid hlid := absurd hlid lid.not_lt_zero
  walk v hv := by cases hv
  covered lid hlid := absurd hlid lid.not_lt_zero

/-- A result has nothing that somebody still has to bring. -/
lemma InTime.served (h : InTime shard s) {lid : Nat} (hlid : lid < s.loaderCount)
    (hfresh : Fresh s) (hreturned : s.Returned lid) {p : Nat}
    (hlo : (s.loaders lid).loadStart ≤ p) (hhi : p < (s.loaders lid).loadEnd) :
    Served s (placeTime shard (s.loaders lid).timeStart p) ((s.loaders lid).data p) := by
  obtain ⟨hg, ht, hr, hf⟩ := hreturned
  have hc := h.covered lid hlid fun v hv heq => hg (heq ▸ (hfresh.visiting v hv).stage)
  rcases hc p hlo hhi hhi with h | h | ⟨w, hw, -⟩ | ⟨hn, v, hv, -⟩ | ⟨v, hv, -⟩
  · rw [hf] at h
    cases h
  · exact h
  · rw [ht] at hw
    cases hw
  · rcases hr with hl | hs
    · rw [hl] at hv
      cases hv
    · rw [hn] at hs
      cases hs
  · cases hv

end Run

section Grids

open Timescale Int State

variable {location : Location} {utcOffset chunkSize stepSec : Int}

lemma chunkSizeDuration_level (chunkSize : Int) (hstep : stepSec ∈ secondLevels) :
    0 < (chunkSizeDuration chunkSize (stepSec * second)).1 ∧
      (chunkSizeDuration chunkSize (stepSec * second)).2 =
        (chunkSizeDuration chunkSize (stepSec * second)).1 * (stepSec * second) := by
  by_cases hs : 0 < chunkSize ∧ stepSec * second ≤ hour
  · rw [chunkSizeDuration, if_pos hs]
    exact ⟨by omega, by rw [Int.toNat_of_nonneg hs.1.le]⟩
  · have hz : chunkSizeDuration chunkSize (stepSec * second) =
        chunkSizeDuration 0 (stepSec * second) := by
      rw [chunkSizeDuration, chunkSizeDuration, if_neg hs,
        if_neg fun h : 0 < 0 ∧ _ => lt_irrefl _ h.1]
    have hl : ∀ step ∈ secondLevels, 0 < (chunkSizeDuration 0 (step * second)).1 ∧
        (chunkSizeDuration 0 (step * second)).2 =
          (chunkSizeDuration 0 (step * second)).1 * (step * second) := by decide
    rw [hz]
    exact hl stepSec hstep

/-- A start that is aligned with the offset lies on the grid of its chunk when the step divides
the offset, or when the chunks are aligned with the offset too. -/
lemma aligned_iff (hregular : Regular shard) (offset : shard.utcOffset = utcOffset * second)
    (haligned : shard.stepSec ∣ fromSec + utcOffset) :
    shard.step ∣ fromSec * second - shard.chunkStart (fromSec * second) ↔
      3600 < shard.stepSec ∨ shard.stepSec ∣ utcOffset := by
  have hd : shard.step ∣ shard.chunkDuration := by
    rw [hregular.chunkDuration]
    exact dvd_mul_left _ _
  have hh : shard.step ≤ hour ↔ shard.stepSec ≤ 3600 := by
    rw [Shard.step, hour, minute, second]
    omega
  have hc x : shard.step ∣ x * second ↔ shard.stepSec ∣ x :=
    mul_dvd_mul_iff_right (by decide)
  rw [Shard.chunkStart]
  split_ifs with hs
  · have hle := hh.1 hs
    rw [sub_eq_add_neg, Int.dvd_add_left (Int.dvd_neg.2 (Int.dvd_mul_of_dvd_right hd)),
      hc, or_iff_right (not_lt.2 hle)]
    exact ⟨fun h => (Int.dvd_add_right h).1 haligned, fun h => (Int.dvd_add_left h).1 haligned⟩
  · have hlt : 3600 < shard.stepSec := by
      rw [hh] at hs
      exact not_le.1 hs
    refine iff_of_true ?_ (.inl hlt)
    rw [offset, sub_sub_eq_add_sub, ← add_mul]
    exact Int.dvd_sub ((hc _).2 haligned) (Int.dvd_mul_of_dvd_right hd)
  · exact absurd hregular.step ‹_›

/-- Slots count from the start of the request when it lies on the grid of its chunk. -/
lemma RequestPlaced.placeTime_eq_iff (h : RequestPlaced shard r) (i : Nat) :
    placeTime shard r.timeStart (r.loadStart + i) = r.fromSec + i * shard.stepSec ↔
      shard.step ∣ r.fromSec * second - r.timeStart := by
  obtain ⟨t, ht⟩ := h.grid
  have hs : second ≠ 0 := by decide
  have hd : r.fromSec * second - r.timeStart = (r.fromSec - t) * second := by
    rw [ht]
    ring
  have hl : r.loadStart = (r.fromSec - t).tdiv shard.stepSec := by
    rw [h.loadStart, hd, Shard.step, mul_tdiv_mul_of_pos_left _ _ (by decide)]
  have hp : placeTime shard r.timeStart (r.loadStart + i) =
      t + r.loadStart * shard.stepSec + i * shard.stepSec := by
    rw [placeTime, ht, mul_tdiv_cancel_left _ hs]
    push_cast
    ring
  rw [hp, hl, hd, Shard.step, mul_dvd_mul_iff_right hs]
  constructor
  · intro heq
    exact ⟨(r.fromSec - t).tdiv shard.stepSec, by linarith⟩
  · intro hv
    rw [Int.tdiv_mul_cancel hv]
    ring

/-- Hours of a zone three hours ahead, with chunks of a day. -/
def hoursShard : Shard := newShard ⟨id, (· + 1), fun _ => Int.lt_succ _⟩ 10800 0 3600

theorem request_some_hours : ∃ r, hoursShard.request 0 0 (0 + 2 * 3600) true 0 = some r ∧
    r.loadEnd = r.loadStart + 2 ∧ (0 + 2 * 3600) * second ≤ r.timeEnd ∧ r.timeEnd < 2 ^ 63 :=
  Regular.request_some ⟨by decide, by decide, rfl, by decide, by decide⟩ 0 (by decide) two_pos
    (by decide) _ _

/-- A request for hours of the first day after its end, with its walk over the chunk. -/
def hoursOf (fromSec toSec : Int) : List (Action Unit Unit) :=
  [.get (100000 * second) fromSec toSec false 0, .visit id, .initEnd id]

end Grids

end SeriesCache
