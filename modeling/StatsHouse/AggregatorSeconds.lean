import StatsHouse.AggregatorWindow

/-!
# The seconds of the requests in a bucket

A request gets into a bucket of the window only if the bucket's second is one of this replica,
and into a historic bucket only if it is the request's own second. So the buckets of other
seconds stay empty, and the ticker's check never fails.
-/

namespace Aggregator

open List State Inserter
variable {req : ℕ}

/-- Everybody who waits for an answer in the bucket. -/
def Bucket.everyone (k : Bucket) : List ℕ :=
  k.contributors ++ k.contributors3 ++ k.contributorsSimulatedErrors

lemma Bucket.mem_everyone {k : Bucket} :
    req ∈ k.everyone ↔ req ∈ k.contributors ∨ req ∈ k.contributors3 ∨
      req ∈ k.contributorsSimulatedErrors := by
  simp [everyone]

/-- The bucket is one a request may be in. -/
def Fits (c : Config) (k : Bucket) (req : ℕ) : Prop :=
  if k.historic then (c.request req).time = k.time else k.time % 3 = c.remainder

lemma Fits.congr {c : Config} {k k' : Bucket} (h : Fits c k req) (hh : k'.historic = k.historic)
    (ht : k'.time = k.time) : Fits c k' req := by
  unfold Fits
  rw [hh, ht]
  exact h

lemma Inserter.stale_subset (w : Inserter) : ∀ b ∈ w.stale, b ∈ w.buckets := by
  intro b hb
  cases w with
  | waiting | dropping => exact mem_append_right _ hb
  | _ => exact absurd hb not_mem_nil

namespace State

variable {c : Config} {s : State}

structure Seated (c : Config) (s : State) : Prop where
  recent : ∀ b ∈ s.recentBuckets, (s.bucket b).historic = false
  historic : ∀ b ∈ s.historicBuckets, (s.bucket b).historic = true
  ready : ∀ b ∈ s.readyBuckets, (s.bucket b).historic = false
  stale : ∀ i, ∀ b ∈ (s.inserter i).stale, (s.bucket b).historic = true
  handler : ∀ req b, (s.handler req).bucket? = some b → Fits c (s.bucket b) req
  contributor : ∀ b, ∀ req ∈ (s.bucket b).everyone, Fits c (s.bucket b) req
  simulating : ∀ req b, s.handler req = .simulating b → (s.bucket b).historic = false
  simulated : ∀ b, (s.bucket b).historic = true → (s.bucket b).contributorsSimulatedErrors = []

namespace Seated

variable (h : s.Seated c)
include h

/-- A change of a bucket that keeps its second; who comes in fits. -/
lemma modify (b : ℕ) (f : Bucket → Bucket) (hh : ∀ k, (f k).historic = k.historic)
    (ht : ∀ k, (f k).time = k.time)
    (hm : ∀ req ∈ (f (s.bucket b)).everyone, req ∈ (s.bucket b).everyone ∨ Fits c (s.bucket b) req)
    (hs : (s.bucket b).historic = true → (f (s.bucket b)).contributorsSimulatedErrors = []) :
    (s.modifyBucket b f).Seated c := by
  have hh' := field_modify (s := s) (b := b) Bucket.historic hh
  have ht' := field_modify (s := s) (b := b) Bucket.time ht
  constructor
  · exact fun x hx => (hh' x).trans (h.recent x hx)
  · exact fun x hx => (hh' x).trans (h.historic x hx)
  · exact fun x hx => (hh' x).trans (h.ready x hx)
  · exact fun i x hx => (hh' x).trans (h.stale i x hx)
  · exact fun req x hx => (h.handler req x hx).congr (hh' x) (ht' x)
  · intro x req hx
    apply Fits.congr _ (hh' x) (ht' x)
    by_cases hb : x = b
    · subst hb
      rcases hm req (by simpa [modifyBucket] using hx) with hr | hr
      · exact h.contributor x req hr
      · exact hr
    · exact h.contributor x req (by simpa [modifyBucket, hb] using hx)
  · exact fun req x hx => (hh' x).trans (h.simulating req x hx)
  · intro x hx
    rw [hh'] at hx
    by_cases hb : x = b
    · subst hb
      simpa [modifyBucket] using hs hx
    · simpa [modifyBucket, hb] using h.simulated x hx

/-- A change that lets nobody in. -/
lemma shrink (b : ℕ) (f : Bucket → Bucket) (hh : ∀ k, (f k).historic = k.historic)
    (ht : ∀ k, (f k).time = k.time) (hm : ∀ k, ∀ req ∈ (f k).everyone, req ∈ k.everyone)
    (hs : ∀ k : Bucket, k.contributorsSimulatedErrors = [] →
      (f k).contributorsSimulatedErrors = []) : (s.modifyBucket b f).Seated c :=
  h.modify b f hh ht (fun req hr => .inl (hm _ req hr)) (fun hb => hs _ (h.simulated b hb))

lemma setHandler (req : ℕ) (w : Handler) (hw : ∀ b, w.bucket? = some b → Fits c (s.bucket b) req)
    (notSimulated : ∀ b, w = .simulating b → (s.bucket b).historic = false) :
    (s.setHandler req w).Seated c :=
  { h with
    handler := (Function.forall_update_iff s.handler fun req w =>
      ∀ b, w.bucket? = some b → Fits c (s.bucket b) req).2 ⟨hw, fun other _ => h.handler other⟩
    simulating := (Function.forall_update_iff s.handler fun _ w =>
      ∀ b, w = .simulating b → (s.bucket b).historic = false).2
        ⟨notSimulated, fun other _ => h.simulating other⟩ }

lemma setInserter (i : ℕ) (w : Inserter) (hw : ∀ b ∈ w.stale, (s.bucket b).historic = true) :
    (s.setInserter i w).Seated c :=
  { h with
    stale := (Function.forall_update_iff s.inserter fun _ w =>
      ∀ b ∈ w.stale, (s.bucket b).historic = true).2 ⟨hw, fun j _ => h.stale j⟩ }

lemma join (req b : ℕ) (w : Handler) (hw : w.bucket? = some b) (hb : Fits c (s.bucket b) req)
    (notSimulated : ∀ x, w = .simulating x → (s.bucket b).historic = false) :
    (s.join req b w).Seated c := by
  have hm := h.shrink b (fun k => { k with readers := req :: k.readers }) (fun _ => rfl)
    (fun _ => rfl) (fun _ _ hr => hr) (fun _ hk => hk)
  apply hm.setHandler
  · intro x hx
    rw [hw] at hx
    cases hx
    exact hb.congr (by simp [modifyBucket]) (by simp [modifyBucket])
  · rintro x rfl
    cases hw
    simpa [modifyBucket] using notSimulated b rfl

lemma leave (req b : ℕ) : (s.leave req b).Seated c := by
  have hm := h.shrink b (fun k => { k with readers := k.readers.filter (· ≠ req) })
    (fun _ => rfl) (fun _ => rfl) (fun _ _ hr => hr) (fun _ hk => hk)
  exact hm.setHandler req .done (by simp [Handler.bucket?]) (by simp)

lemma addBucket (ho : s.Owned) (historic : Bool) (time : BitVec 32) :
    (s.addBucket historic time).Seated c := by
  have hn : (s.addBucket historic time).bucket s.allocated =
      newAggregatorBucket historic time := by
    simp [State.addBucket]
  constructor
  · intro x hx
    by_cases hlt : x < s.allocated
    · rw [bucket_addBucket (Nat.ne_of_lt hlt)]
      apply h.recent
      cases historic <;> simpa [State.addBucket, Nat.ne_of_lt hlt] using hx
    · cases historic with
      | true => exact absurd (ho.recent_lt x hx) hlt
      | false =>
        have hs : x ∈ s.recentBuckets ∨ x = s.allocated := by
          simpa [State.addBucket] using hx
        rw [hs.resolve_left (fun hr => hlt (ho.recent_lt x hr)), hn]
        rfl
  · intro x hx
    by_cases hlt : x < s.allocated
    · rw [bucket_addBucket (Nat.ne_of_lt hlt)]
      apply h.historic
      cases historic <;> simpa [State.addBucket, Nat.ne_of_lt hlt] using hx
    · cases historic with
      | false => exact absurd (ho.historic_lt x hx) hlt
      | true =>
        have hs : x ∈ s.historicBuckets ∨ x = s.allocated := by
          simpa [State.addBucket] using hx
        rw [hs.resolve_left (fun hr => hlt (ho.historic_lt x hr)), hn]
        rfl
  · intro x hx
    rw [bucket_addBucket (Nat.ne_of_lt (ho.ready x hx).1)]
    exact h.ready x hx
  · intro i x hx
    rw [bucket_addBucket (Nat.ne_of_lt (ho.held i x (stale_subset _ x hx)).1)]
    exact h.stale i x hx
  · intro req x hx
    rw [bucket_addBucket (Nat.ne_of_lt (ho.joined req x hx).1)]
    exact h.handler req x hx
  · intro x req hx
    by_cases ha : x = s.allocated
    · subst ha
      rw [hn] at hx
      simp [newAggregatorBucket, Bucket.everyone] at hx
    · rw [bucket_addBucket ha] at hx ⊢
      exact h.contributor x req hx
  · intro req x hx
    have hj := ho.joined req x (by rw [show s.handler req = .simulating x from hx]; rfl)
    rw [bucket_addBucket (Nat.ne_of_lt hj.1)]
    exact h.simulating req x hx
  · intro x hx
    by_cases ha : x = s.allocated
    · subst ha
      rw [hn]
      rfl
    · rw [bucket_addBucket ha] at hx ⊢
      exact h.simulated x hx

lemma popReady (now : BitVec 32) (shortWindow : ℕ) : (s.popReady now shortWindow).Seated c :=
  { h with
    recent := fun x hx => h.recent x ((dropWhile_sublist _).subset hx)
    ready := fun x hx => h.recent x ((takeWhile_sublist _).subset hx) }

lemma cancelLongpoll (req b : ℕ) : (s.modifyBucket b (fun k => k.cancelLongpoll req)).Seated c := by
  apply h.shrink b (fun k => k.cancelLongpoll req) (fun _ => rfl) (fun _ => rfl)
  · intro k other ho
    simp only [Bucket.mem_everyone, Bucket.cancelLongpoll, mem_filter] at ho ⊢
    tauto
  · intro k hk
    simp [Bucket.cancelLongpoll, hk]

end Seated

/-- The bucket of the window that a request or a keep-alive is given. -/
lemma Window.reaches (hw : s.Window) {t : BitVec 32} (h : s.Reaches c t) :
    ∃ b, s.recentBuckets[(c.roundedToOurTime t - s.frontTime).toNat]? = some b ∧
      s.time b = c.roundedToOurTime t := by
  rcases h with ⟨hold, hn⟩ | rfl
  · exact hw.index hold hn
  · apply hw.at_index
    have hle := c.roundedToOurTime_sub s.frontTime
    have hd := hw.wide
    simp only [futureWindow] at hd
    omega

namespace Seated

/-- A handler goes on in its bucket, and may let itself in. -/
lemma moveHandler (h : s.Seated c) {b : ℕ} (f : Bucket → Bucket) (w : Handler)
    (hj : (s.handler req).bucket? = some b) (hw : w.bucket? = some b)
    (notSimulated : ∀ x, w ≠ .simulating x) (hh : ∀ k, (f k).historic = k.historic)
    (ht : ∀ k, (f k).time = k.time)
    (hm : ∀ k, ∀ other ∈ (f k).everyone, other ∈ k.everyone ∨ other = req)
    (hs : (s.bucket b).historic = true → (f (s.bucket b)).contributorsSimulatedErrors = []) :
    ((s.modifyBucket b f).setHandler req w).Seated c := by
  have hf := h.handler req b hj
  have hd : (s.modifyBucket b f).Seated c := by
    apply h.modify b f hh ht _ hs
    intro other ho
    rcases hm _ other ho with hr | rfl
    · exact .inl hr
    · exact .inr hf
  apply hd.setHandler
  · intro x hx
    rw [hw] at hx
    cases hx
    exact hf.congr (by simp [modifyBucket, hh]) (by simp [modifyBucket, ht])
  · exact fun x hx => absurd hx (notSimulated x)

end Seated

/-- A bucket of the window that is not ours has nobody in it. -/
lemma Seated.empty_of_not_ours (h : s.Seated c) {b : ℕ} (hb : (s.bucket b).historic = false)
    (hours : s.time b % 3 ≠ c.remainder) : (s.bucket b).hasContributors = false := by
  have hn : (s.bucket b).everyone = [] := by
    rw [eq_nil_iff_forall_not_mem]
    intro req hr
    have hf := h.contributor b req hr
    rw [Fits, if_neg (by simp [hb])] at hf
    exact hours hf
  simp only [Bucket.everyone, append_eq_nil_iff] at hn
  simp [Bucket.hasContributors, hn]

/-- Where everybody is stays in order from `s₀` to `s`, and nothing has panicked. -/
structure Housed (c : Config) (s₀ s : State) : Prop where
  owned : s.Owned
  seated : s.Seated c
  panicked : s.panicked = s₀.panicked

namespace Housed

variable {s₀ : State}

lemma addBucket (h : Housed c s₀ s) (historic : Bool) (time : BitVec 32) :
    Housed c s₀ (s.addBucket historic time) :=
  ⟨h.owned.addBucket historic time, h.seated.addBucket h.owned historic time, h.panicked⟩

lemma extendRecent (h : Housed c s₀ s) (missing : ℕ) : Housed c s₀ (s.extendRecent missing) := by
  induction missing generalizing s with
  | zero => exact h
  | succ missing ih => exact ih (h.addBucket false _)

lemma advanceRecentBuckets (h : Housed c s₀ s) (now : BitVec 32) (shortWindow : ℕ) :
    Housed c s₀ (s.advanceRecentBuckets now shortWindow) := by
  have hp : Housed c s₀ (s.popReady now shortWindow) :=
    ⟨h.owned.popReady now shortWindow, h.seated.popReady now shortWindow, h.panicked⟩
  apply extendRecent
  unfold refill
  split
  · exact hp.addBucket false _
  · exact hp

lemma start (c : Config) (now : BitVec 32) (shortWindow : ℕ) :
    Housed c initial (start now shortWindow) := by
  refine advanceRecentBuckets ⟨Owned.initial, ?_, rfl⟩ now shortWindow
  constructor <;> simp [initial, stale, Handler.bucket?, newAggregatorBucket, Bucket.everyone]

end Housed

/-- The window is still the same, too. -/
structure Steady (c : Config) (s₀ s : State) : Prop extends Housed c s₀ s where
  keeps : Keeps s₀ s

namespace Steady

variable {s₀ : State}

section

variable (h : Steady c s₀ s)
include h

lemma answerBucket (b : ℕ) (reply2 reply3 : Reply) :
    Steady c s₀ (s.answerBucket b reply2 reply3) := by
  let f : Bucket → Bucket := fun k => { k with contributors := [], contributors3 := [] }
  have hs := h.seated.shrink b f (fun _ => rfl) (fun _ => rfl)
    (fun k req hr => by simp [f, Bucket.mem_everyone] at hr ⊢; simp [hr]) (fun _ hk => hk)
  exact ⟨⟨{ h.owned.modify b f (fun _ => rfl) with }, { hs with }, h.panicked⟩,
    { h.keeps.modify (f := f) (fun _ => rfl) with }⟩

/-- An inserter that keeps only buckets it had to itself, and takes no stale one. -/
lemma shrinkInserter (i : ℕ) (w : Inserter) (hw : ∀ b ∈ w.buckets, b ∈ (s.inserter i).exclusive)
    (stale : ∀ b ∈ w.stale, b ∈ (s.inserter i).stale) : Steady c s₀ (s.setInserter i w) :=
  ⟨⟨h.owned.shrinkInserter i w hw,
    h.seated.setInserter i w (fun b hb => h.seated.stale i b (stale b hb)), h.panicked⟩,
    { h.keeps with }⟩

lemma sendReady (receiver : Option ℕ) : Steady c s₀ (s.sendReady c receiver) := by
  unfold State.sendReady
  cases hy : s.readyBuckets with
  | nil => exact h
  | cons b rest =>
    have hr : ∀ x ∈ rest, x ∈ s.readyBuckets := fun x hx => hy ▸ mem_cons_of_mem _ hx
    have hb : b ∈ s.readyBuckets := hy ▸ (.head _)
    have ho : ∀ x ∈ rest, s.Retired x := fun x hx => h.owned.ready x (hr x hx)
    have hs : ∀ x ∈ rest, (s.bucket x).historic = false := fun x hx => h.seated.ready x (hr x hx)
    dsimp only
    split_ifs with hd hours hc hf
    · exact h
    · have he := h.seated.empty_of_not_ours (h.seated.ready b hb) hours
      simp [he] at hc
    · exact ⟨⟨{ h.owned with ready := ho }, { h.seated with ready := hs }, h.panicked⟩,
        { h.keeps with }⟩
    · exact ⟨⟨{ h.owned with ready := nofun }, { h.seated with ready := nofun }, h.panicked⟩,
        { h.keeps with }⟩
    · cases receiver with
      | none =>
        have ha := h.answerBucket b .rpcError 
          (.conveyorFull (s.time b) (s.bucket b).contributorsCount)
        exact ⟨⟨{ ha.owned with ready := ho },
          { ha.seated with ready := fun x hx => ha.seated.ready x (hr x hx) }, h.panicked⟩,
          { ha.keeps with }⟩
      | some i =>
        dsimp only
        split_ifs
        · have hw : (s.setInserter i (.received b)).Owned := by
            apply h.owned.setInserter
            · exact fun x hx => (mem_singleton.1 hx) ▸ h.owned.ready b hb
            · intro x hx
              rw [mem_singleton.1 hx]
              exact not_not.1 hd
          exact ⟨⟨{ hw with ready := ho },
            { h.seated.setInserter i (.received b) nofun with ready := hs }, h.panicked⟩,
            { h.keeps with }⟩
        · exact h

lemma setReplies (r : Replies) : Steady c s₀ { s with replies := r } :=
  ⟨⟨{ h.owned with }, { h.seated with }, h.panicked⟩, { h.keeps with }⟩

/-- The handler of a request is done, with any answer. -/
lemma finishHandler (req : ℕ) (r : Replies) :
    Steady c s₀ { s.setHandler req .done with replies := r } :=
  ⟨⟨{ h.owned.setHandler req .done (by simp [Handler.bucket?]) with },
    { h.seated.setHandler req .done (by simp [Handler.bucket?]) (by simp) with }, h.panicked⟩,
    { h.keeps with }⟩

/-- A request joins a bucket it may be in. -/
lemma join (req b : ℕ) (w : Handler) (hw : w.bucket? = some b)
    (hb : b ∈ s.recentBuckets ∨ b ∈ s.historicBuckets) (fits : Fits c (s.bucket b) req)
    (notSimulated : ∀ x, w = .simulating x → (s.bucket b).historic = false) :
    Steady c s₀ (s.join req b w) :=
  ⟨⟨h.owned.join req b w hw hb, h.seated.join req b w hw fits notSimulated, h.panicked⟩,
    { h.keeps.modify (f := fun k => { k with readers := req :: k.readers })
      (fun _ => rfl) with }⟩

end

/-- A request for a historic bucket finds or makes the one of its own second. -/
lemma joinHistoric (h : Steady c s s) (req : ℕ) :
    Steady c s (s.joinHistoric req (c.request req).time) := by
  unfold State.joinHistoric
  split
  · next b hb =>
    have hm := mem_of_find?_eq_some hb
    have ht : s.time b = (c.request req).time := by
      simpa using find?_some hb
    refine h.join req b _ rfl (.inr hm) ?_ (by simp)
    unfold Fits
    rw [if_pos (h.seated.historic b hm)]
    exact ht.symm
  · have hn : Steady c s (s.addBucket true (c.request req).time) :=
      ⟨h.addBucket true _, ⟨rfl, rfl, fun _ hx => time_addBucket_of_lt hx true _⟩⟩
    refine hn.join req _ _ rfl (.inr (mem_append_right _ (mem_singleton_self _))) ?_ (by simp)
    simp [Fits, State.addBucket, newAggregatorBucket]

/-- A request joins a bucket of the window at a second of this replica. -/
lemma joinRecent (h : Steady c s₀ s) (hw : s.Window) (req : ℕ) (w : ℕ → Handler)
    (hb : ∀ b, (w b).bucket? = some b) {t : BitVec 32} (ht : s.Reaches c t) :
    Steady c s₀ (s.joinRecent req (c.roundedToOurTime t - s.frontTime).toNat w) := by
  obtain ⟨b, hi, ha⟩ := hw.reaches ht
  have hm := mem_of_getElem? hi
  have hr := h.seated.recent b hm
  rw [State.joinRecent, hi]
  refine h.join req b _ (hb b) (.inl hm) ?_ (fun _ _ => hr)
  rw [Fits, if_neg (by simp [hr])]
  change s.time b % 3 = c.remainder
  rw [ha]
  exact c.roundedToOurTime_mod t

lemma arrival (h : Steady c s s) (hw : s.Window) {s' : State} (ha : Arrival c s req s') :
    Steady c s s' := by
  cases ha with
  | unchanged => exact h
  | panic hs => exact absurd hs hw.nonempty
  | reply | hijack => exact h.finishHandler req _
  | historic => exact h.joinHistoric req
  | merging _ t ht | simulating _ t ht | pinging _ t ht =>
    exact h.joinRecent hw req _ (fun _ => rfl) ht

variable (h : Steady c s₀ s)
include h

lemma leave (req b : ℕ) : Steady c s₀ (s.leave req b) :=
  ⟨⟨h.owned.leave req b, h.seated.leave req b, h.panicked⟩,
    { h.keeps.modify (f := fun k => { k with readers := k.readers.filter (· ≠ req) })
      (fun _ => rfl) with }⟩

lemma proceed (req : ℕ) (started : Bool) : Steady c s₀ (s.proceed c req started) := by
  have hg : ∀ f b w, (s.handler req).bucket? = some b →
      w.bucket? = some b → (∀ x, w ≠ .simulating x) → (∀ k, (f k).readers = k.readers) →
      (∀ k, (f k).historic = k.historic) → (∀ k, (f k).time = k.time) →
      (∀ k, ∀ other ∈ (f k).everyone, other ∈ k.everyone ∨ other = req) →
      ((s.bucket b).historic = true → (f (s.bucket b)).contributorsSimulatedErrors = []) →
      Steady c s₀ ((s.modifyBucket b f).setHandler req w) :=
    fun f b w hj hw ha hr hh ht hm hs =>
      ⟨⟨(h.owned.modify b f hr).moveHandler w hj hw,
        h.seated.moveHandler f w hj hw ha hh ht hm hs, h.panicked⟩,
        { h.keeps.modify ht with }⟩
  have hy : ∀ b w, (s.handler req).bucket? = some b → w.bucket? = some b →
      (∀ x, w ≠ .simulating x) → Steady c s₀ (s.setHandler req w) := by
    intro b w hj hw ha
    refine ⟨⟨h.owned.moveHandler w hj hw, h.seated.setHandler req w ?_ ?_, h.panicked⟩,
      { h.keeps with }⟩
    · intro x hx
      rw [hw] at hx
      cases hx
      exact h.seated.handler req b hj
    · exact fun x hx => absurd hx (ha x)
  have ha := h.seated.simulated
  unfold State.proceed
  split
  · exact h
  · exact h
  · next b hj =>
    exact hg _ b _ (by rw [hj]; rfl) rfl (by simp) (fun _ => rfl) (fun _ => rfl) (fun _ => rfl)
      (fun _ _ hr => .inl hr) (ha b)
  · next b hj =>
    split
    · have hs := hg (fun k => { k with contributors3 := req :: k.contributors3 }) b
        (.summing b none) (by rw [hj]; rfl) rfl (by simp) (fun _ => rfl) (fun _ => rfl)
        (fun _ => rfl) (fun k other hr => by simp [Bucket.mem_everyone] at hr ⊢; tauto) (ha b)
      exact hs.setReplies _
    · exact hy b _ (by rw [hj]; rfl) rfl (by simp)
  · next b r hj =>
    exact hg _ b _ (by rw [hj]; rfl) rfl (by simp) (fun _ => rfl) (fun _ => rfl) (fun _ => rfl)
      (fun _ _ hr => .inl hr) (ha b)
  · exact h.leave req _
  · next b r hj =>
    have hs := h.leave req b
    exact hs.setReplies _
  · next b hj =>
    split
    · have hs := hg (fun k =>
          { k with contributorsSimulatedErrors := req :: k.contributorsSimulatedErrors }) b
        (.leaving b none) (by rw [hj]; rfl) rfl (by simp) (fun _ => rfl) (fun _ => rfl)
        (fun _ => rfl) (fun k other hr => by simp [Bucket.mem_everyone] at hr ⊢; tauto)
        (fun hb => absurd hb (by simp [h.seated.simulating req b hj]))
      exact hs.setReplies _
    · exact hy b _ (by rw [hj]; rfl) rfl (by simp)
  · next b version3 hj =>
    split
    · have hs := hg (fun k =>
          if version3 then { k with contributors3 := req :: k.contributors3 }
          else { k with contributors := req :: k.contributors }) b
        (.leaving b none) (by rw [hj]; rfl) rfl (by simp) (fun _ => by cases version3 <;> rfl)
        (fun _ => by cases version3 <;> rfl) (fun _ => by cases version3 <;> rfl)
        (fun k other hr => by cases version3 <;> simp [Bucket.mem_everyone] at hr ⊢ <;> tauto)
        (fun hb => by cases version3 <;> exact ha b hb)
      exact hs.setReplies _
    · exact hy b _ (by rw [hj]; rfl) rfl (by simp)

lemma popOldestHistoricBucket (i : ℕ) (historicWindow : BitVec 32) :
    Steady c s₀ (s.popOldestHistoricBucket i historicWindow) := by
  unfold State.popOldestHistoricBucket
  split
  · next oldestTime aggBuckets hi =>
    dsimp only
    generalize ha : s.historicBuckets.filter
      (fun b => !s.isStale oldestTime historicWindow b) = rest
    generalize hc : rest.foldl s.older none = historicBucket
    have hs : ∀ x ∈ rest, x ∈ s.historicBuckets := by
      intro x hx
      rw [← ha] at hx
      exact (mem_filter.1 hx).1
    have hsb' : ∀ x ∈ rest.filter (fun b => some b ≠ historicBucket), x ∈ s.historicBuckets :=
      fun x hx => hs x (mem_filter.1 hx).1
    have he : ∀ x, historicBucket = some x → x ∈ rest := fun x hx =>
      (Owned.foldl_older_mem rest (hc.trans hx)).resolve_right (by simp)
    set s' : State := { s with
      historicBuckets := rest.filter (fun b => some b ≠ historicBucket) } with hs'
    have ht : ∀ x, s.Retired x → s'.Retired x :=
      fun x hx => ⟨hx.1, hx.2.1, fun hh => hx.2.2 (hsb' x hh)⟩
    have h' : s'.Owned := { h.owned with
        historic_lt := fun x hx => h.owned.historic_lt x (hsb' x hx)
        apart := fun x hx hh => h.owned.apart x hx (hsb' x hh)
        ready := fun x hx => ht x (h.owned.ready x hx)
        held := fun j x hx => ht x (h.owned.held j x hx) }
    have hp : ∀ x ∈ s.historicBuckets, x ∉ s'.historicBuckets → s'.Retired x :=
      fun x hx hh => ⟨h.owned.historic_lt x hx, fun hr => h.owned.apart x hr hx, hh⟩
    have how : (s'.setInserter i (.waiting oldestTime historicWindow aggBuckets historicBucket
        (s.historicBuckets.filter (s.isStale oldestTime historicWindow)))).Owned := by
      apply h'.setInserter
      · intro x hx
        rcases mem_append.1 hx with hx | hx
        · rcases mem_append.1 hx with hx | hx
          · exact ht x (h.owned.held i x (by rw [hi]; exact hx))
          · have hx : historicBucket = some x := by simpa using hx
            exact hp x (hs x (he x hx)) (by simp [hs', hx])
        · obtain ⟨hm, hd⟩ := mem_filter.1 hx
          apply hp x hm
          simp [hs', ← ha, hd]
      · exact fun x hx => h.owned.closed i x (by rw [hi]; exact hx)
    have hf := h.seated.setInserter i (.waiting oldestTime historicWindow aggBuckets
      historicBucket (s.historicBuckets.filter (s.isStale oldestTime historicWindow)))
      (fun b hb => h.seated.historic b (mem_filter.1 hb).1)
    split_ifs with hn
    · cases hb : historicBucket with
      | none => simp [hb] at hn
      | some b => simp [hb, h.seated.simulated b (h.seated.historic b (hs b (he b hb)))] at hn
    · exact ⟨⟨{ how with },
        { hf with historic := fun b hb => h.seated.historic b (hsb' b hb) }, h.panicked⟩,
        { h.keeps with }⟩
  · exact h

lemma resume (i : ℕ) : Steady c s₀ (s.resume i) := by
  unfold State.resume
  split
  · next hi =>
    split
    · next ha =>
      refine ⟨⟨h.owned.setInserter i _ ?_ ?_, h.seated.setInserter i _ ?_, h.panicked⟩,
        { h.keeps with }⟩
      · exact fun x hx => h.owned.held i x (by rw [hi]; exact hx)
      · intro x hx
        rw [exclusive, append_assoc] at hx
        rcases mem_append.1 hx with hx | hx
        · exact h.owned.closed i x (by rw [hi]; exact hx)
        · exact isEmpty_iff.1 (all_eq_true.1 ha x hx)
      · exact fun x hx => h.seated.stale i x (by rw [hi]; exact hx)
    · exact h
  · exact h

lemma answerStale (i : ℕ) : Steady c s₀ (s.answerStale c i) := by
  unfold State.answerStale
  split
  · next b _ hi =>
    apply (h.answerBucket b _ _).shrinkInserter
    · intro x hx
      change x ∈ (s.inserter i).exclusive
      rw [hi]
      rcases mem_append.1 hx with hx | hx
      · exact mem_append_left _ hx
      · exact mem_append_right _ (.tail _ hx)
    · intro x hx
      change x ∈ (s.inserter i).stale
      rw [hi]
      exact mem_cons_of_mem _ hx
  · next hi =>
    refine h.shrinkInserter i _ (fun x hx => ?_) nofun
    rw [hi]
    exact mem_append_left _ (mem_append_left _ hx)
  · next hi =>
    refine h.shrinkInserter i _ (fun x hx => ?_) nofun
    rw [hi]
    exact mem_append_left _ hx
  · exact h

lemma respond (i : ℕ) : Steady c s₀ (s.respond i) := by
  unfold State.respond
  split
  · next b _ _ hi =>
    refine (h.answerBucket b _ _).shrinkInserter i _ (fun x hx => ?_) nofun
    change x ∈ (s.inserter i).exclusive
    rw [hi]
    exact mem_cons_of_mem _ hx
  · next b _ _ =>
    let f : Bucket → Bucket := fun k => { k with contributorsSimulatedErrors := [] }
    have hd := h.seated.shrink b f (fun _ => rfl) (fun _ => rfl)
      (fun k req hr => by simp [Bucket.mem_everyone] at hr ⊢; tauto) (fun _ _ => rfl)
    have hs := Steady.shrinkInserter ⟨⟨h.owned.modify b f (fun _ => rfl), hd, h.panicked⟩,
      h.keeps.modify (fun _ => rfl)⟩ i .idle nofun nofun
    exact hs.setReplies _
  · exact h.shrinkInserter i .idle nofun nofun
  · exact h

end Steady

/-- The three invariants that hold at every point of every run. -/
structure Sound (c : Config) (s : State) : Prop where
  owned : s.Owned
  window : s.Window
  seated : s.Seated c

/-- Only the ticker moves the window. -/
lemma Sound.step_cases (hs : s.Sound c) (a : Action) : Steady c s (s.step c a) ∨
    ∃ now shortWindow, a = .advance now shortWindow ∧
      s.step c a = s.advanceRecentBuckets now shortWindow := by
  have h : Steady c s s := ⟨⟨hs.owned, hs.seated, rfl⟩, rfl, rfl, fun _ _ => rfl⟩
  have hc : ∀ req b, Steady c s (s.modifyBucket b (fun k => k.cancelLongpoll req)) :=
    fun req b => ⟨⟨h.owned.modify b _ (fun _ => rfl), h.seated.cancelLongpoll req b, rfl⟩,
      h.keeps.modify (fun _ => rfl)⟩
  cases a with
  | advance now shortWindow =>
    simp only [step]
    split
    · exact .inr ⟨now, shortWindow, rfl, rfl⟩
    · exact .inl h
  | sendReady receiver => exact .inl (h.sendReady receiver)
  | arrive req denyOldAgents historicWindow simulate started =>
    exact .inl (h.arrival hs.window
      (arrival_arrive s req denyOldAgents historicWindow simulate started))
  | proceed req started => exact .inl (h.proceed req started)
  | lookAround i willInsertHistoric =>
    simp only [step, lookAround, if_neg hs.window.nonempty]
    split
    · next b hi => exact .inl (h.shrinkInserter i _ (fun x hx => by rw [hi]; exact hx) nofun)
    · exact .inl h
  | popOldestHistoricBucket i historicWindow =>
    exact .inl (h.popOldestHistoricBucket i historicWindow)
  | resume i => exact .inl (h.resume i)
  | answerStale i => exact .inl (h.answerStale i)
  | marshal i keep =>
    simp only [step, marshal]
    split
    · next aggBuckets hi =>
      have hn := h.shrinkInserter i
        (.sending aggBuckets ((aggBuckets.flatMap (fun b => (s.bucket b).merged)).filter keep))
        (fun x hx => by rw [hi]; exact hx) nofun
      exact .inl ⟨⟨{ hn.owned with }, { hn.seated with }, rfl⟩, { hn.keeps with }⟩
    · exact .inl h
  | sendToClickhouse i sendErr =>
    simp only [step, sendToClickhouse]
    split
    · next aggBuckets body hi =>
      have hn := fun sendErr => h.shrinkInserter i
        (.responding aggBuckets.head? aggBuckets sendErr) (fun x hx => by rw [hi]; exact hx) nofun
      split
      · exact .inl (hn none)
      · exact .inl ⟨⟨{ (hn sendErr).owned with }, { (hn sendErr).seated with }, rfl⟩,
          { (hn sendErr).keeps with }⟩
    · exact .inl h
  | respond i => exact .inl (h.respond i)
  | cancelLongpoll req b =>
    simp only [step]
    split
    · exact .inl h
    · exact .inl (hc req b)
  | writeEmptyResponse req b => exact .inl ((hc req b).setReplies _)
  | disconnect req => exact .inl (h.setReplies _)
  | disableNewInsert => exact .inl ⟨⟨{ h.owned with }, { h.seated with }, rfl⟩, { h.keeps with }⟩

lemma Sound.housed (hs : s.Sound c) (a : Action) : Housed c s (s.step c a) := by
  rcases hs.step_cases a with h | ⟨now, shortWindow, -, heq⟩
  · exact h.toHoused
  · rw [heq]
    exact Housed.advanceRecentBuckets ⟨hs.owned, hs.seated, rfl⟩ now shortWindow

lemma Sound.step (hs : s.Sound c) (a : Action) : (s.step c a).Sound c := by
  refine ⟨(hs.housed a).owned, ?_, (hs.housed a).seated⟩
  rcases hs.step_cases a with h | ⟨now, shortWindow, -, heq⟩
  · exact hs.window.keeps hs.owned h.keeps
  · rw [heq]
    exact hs.window.consecutive.advanceRecentBuckets hs.owned now shortWindow

lemma Sound.start (c : Config) (now : BitVec 32) (shortWindow : ℕ) :
    (start now shortWindow).Sound c := by
  have hc : initial.Consecutive := by
    intro i b hb
    simp [initial] at hb
  have h := Housed.start c now shortWindow
  exact ⟨h.owned, hc.advanceRecentBuckets Owned.initial now shortWindow, h.seated⟩

lemma run_cons (hp : s.panicked = none) (a : Action) (actions : List Action) :
    s.run c (a :: actions) = (s.step c a).run c actions := by
  simp [run, hp]

/-- A run never panics, so each of its actions is a step: what every step from a sound state
keeps holds after the run. -/
lemma Sound.run_induction (P : State → Prop) (actions : List Action)
    (preserved : ∀ s : State, ∀ a ∈ actions, s.Sound c → P s → P (s.step c a))
    (h : s.Sound c) (hp : s.panicked = none) (hs : P s) :
    (s.run c actions).Sound c ∧ (s.run c actions).panicked = none ∧ P (s.run c actions) := by
  induction actions generalizing s with
  | nil => exact ⟨h, hp, hs⟩
  | cons a actions ih =>
    rw [run_cons hp]
    apply ih
    · exact fun s b hb => preserved s b (.tail _ hb)
    · exact h.step a
    · exact (h.housed a).panicked.trans hp
    · exact preserved s a (.head _) h hs

end State

end Aggregator
