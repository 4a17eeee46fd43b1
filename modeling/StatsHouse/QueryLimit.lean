import StatsHouse.QueryLinks

/-!
# The limit on active queries

The counter of active queries is exact in every run. A query is let in while there is room, as
long as the capacity is not lowered below the number of active queries: `nextQueryLocked`
compares the two for equality, so once there are more active queries than the capacity every
query that comes and every release lets another one in.
-/

namespace QueryQueue

open OrderedTree List Or Status

universe u
variable {s : Status} {i : ℕ}

lemma Status.not_active_waiting : ¬ waiting.Active := by decide

lemma Status.active_handedOver : handedOver.Active := by decide

namespace Queue

variable {T : Trees ℕ ℕ} {Token : Type u} {q q' : Queue T Token} {c : Call Token} {token : Token}

lemma isActive_iff : q.IsActive i ↔ ∃ c, q.calls[i]? = some c ∧ c.status.Active := by
  simp only [IsActive, status, Option.map_eq_some_iff]
  constructor
  · rintro ⟨s, ⟨c, hc, rfl⟩, hs⟩
    exact ⟨c, hc, hs⟩
  · rintro ⟨c, hc, hs⟩
    exact ⟨c.status, ⟨c, hc, rfl⟩, hs⟩

lemma isActive_setStatus {j : ℕ} (hc : q.calls[i]? = some c) :
    (q.setStatus i s).IsActive j ↔ if j = i then s.Active else q.IsActive j := by
  rw [isActive_iff, isActive_iff]
  simp only [setStatus, getElem?_modify]
  by_cases hij : i = j
  · subst hij
    simp [hc]
  · simp [hij, Ne.symm hij]

lemma isActive_concat (calls : q'.calls = q.calls ++ [⟨token, s⟩]) :
    q'.IsActive i ↔ q.IsActive i ∨ i = q.calls.length ∧ s.Active := by
  simp only [isActive_iff, calls, getElem?_concat]
  constructor
  · rintro ⟨c, hc | ⟨rfl, rfl⟩, hs⟩
    · exact inl ⟨c, hc, hs⟩
    · exact inr ⟨rfl, hs⟩
  · rintro (⟨c, hc, hs⟩ | ⟨rfl, hs⟩)
    · exact ⟨c, inl hc, hs⟩
    · exact ⟨_, inr ⟨rfl, rfl⟩, hs⟩

lemma not_isActive_of_waitsAt (h : q.WaitsAt i token) : ¬ q.IsActive i := by
  rw [isActive_iff]
  rintro ⟨c, hc, hs⟩
  rw [WaitsAt, hc] at h
  obtain rfl := Option.some.inj h
  exact not_active_waiting hs

lemma not_isActive_length : ¬ q.IsActive q.calls.length := by
  rw [isActive_iff]
  simp

lemma activeCalls_concat (calls : q'.calls = q.calls ++ [⟨token, s⟩]) :
    q'.activeCalls = q.activeCalls + if s.Active then 1 else 0 := by
  simp [activeCalls, calls, countP_append, countP_cons]

/-- The links hold and the counter is exact. -/
structure Sound (q : Queue T Token) : Prop extends Linked q where
  counted : q.activeQuery = q.activeCalls

lemma Sound.newQueue [Inhabited Token] (n : Int) : Sound (newQueue T n : Queue T Token) :=
  { Linked.newQueue n with counted := rfl }

/-- The same calls are active. -/
structure Unmoved (q q' : Queue T Token) : Prop where
  active : ∀ i, q'.IsActive i ↔ q.IsActive i
  capacity : q'.maxActiveQuery = q.maxActiveQuery

/-- One more call is active. -/
structure Admits (q q' : Queue T Token) (i : ℕ) : Prop where
  fresh : ¬ q.IsActive i
  active : ∀ j, q'.IsActive j ↔ q.IsActive j ∨ j = i
  counted : q'.activeQuery = q.activeQuery + 1
  capacity : q'.maxActiveQuery = q.maxActiveQuery

lemma Admits.letsIn (h : Admits q q' i) {j : ℕ} : ¬ q.IsActive j ∧ q'.IsActive j ↔ j = i := by
  rw [h.active]
  constructor
  · rintro ⟨hj, ho⟩
    exact ho.resolve_left hj
  · rintro rfl
    exact ⟨h.fresh, inr rfl⟩

lemma Sound.waiting_call (h : Sound q) (linked : Linked q')
    (calls : q'.calls = q.calls ++ [⟨token, .waiting⟩])
    (activeQuery : q'.activeQuery = q.activeQuery)
    (maxActiveQuery : q'.maxActiveQuery = q.maxActiveQuery) : Sound q' ∧ Unmoved q q' := by
  have hc := activeCalls_concat calls
  rw [if_neg (by decide), Nat.add_zero] at hc
  refine ⟨⟨linked, by rw [activeQuery, h.counted, hc]⟩, fun i => ?_, maxActiveQuery⟩
  rw [isActive_concat calls]
  simp [Status.Active]

lemma activeCalls_setStatus_same (hc : q.calls[i]? = some c) (same : c.status.Active ↔ s.Active) :
    (q.setStatus i s).activeCalls = q.activeCalls := by
  have hn := activeCalls_setStatus hc s
  simp only [same] at hn
  omega

lemma isActive_setStatus_same (hc : q.calls[i]? = some c) (same : c.status.Active ↔ s.Active)
    (j : ℕ) : (q.setStatus i s).IsActive j ↔ q.IsActive j := by
  rw [isActive_setStatus hc]
  split_ifs with hji
  · rw [hji, isActive_iff, hc, ← same]
    simp
  · rfl

/-- A call that was handed over returns. -/
lemma Sound.returns (h : Sound q) (hc : q.calls[i]? = some ⟨token, .handedOver⟩) :
    Sound (q.setStatus i .admitted) ∧ Unmoved q (q.setStatus i .admitted) := by
  have hs : handedOver.Active ↔ Status.admitted.Active := by decide
  refine ⟨⟨h.toLinked.setStatus hc (by simp) (by simp), ?_⟩, isActive_setStatus_same hc hs, rfl⟩
  rw [activeCalls_setStatus_same hc hs]
  exact h.counted

/-- The queue between the two halves of `Release`. -/
def released (q : Queue T Token) (i : ℕ) : Queue T Token :=
  { q.setStatus i .released with activeQuery := q.activeQuery - 1 }

lemma Sound.released (h : Sound q) (hc : q.calls[i]? = some ⟨token, .admitted⟩) :
    Sound (q.released i) ∧ ∀ j, (q.released i).IsActive j ↔ q.IsActive j ∧ j ≠ i := by
  have ha : Status.admitted.Active := by decide
  have hr : ¬Status.released.Active := by decide
  have hn := activeCalls_setStatus hc .released
  rw [if_pos ha, if_neg hr, Nat.add_zero] at hn
  have hl : Linked (q.released i) :=
    (h.toLinked.setStatus hc (by simp) (by simp)).of_calls rfl rfl rfl rfl le_rfl rfl
      fun _ _ => .rfl
  refine ⟨⟨hl, ?_⟩, fun j => ?_⟩
  · have hd : (q.released i).activeCalls + 1 = q.activeCalls := hn
    have hb : (q.released i).activeQuery = q.activeQuery - 1 := rfl
    have ho := h.counted
    rw [hb]
    omega
  · have hi := isActive_setStatus hc (j := j) (s := .released)
    apply hi.trans
    split_ifs with hji
    · simp [hji, hr]
    · simp [hji]

lemma status_eq_some (h : q.status i = some s) : ∃ token, q.calls[i]? = some ⟨token, s⟩ := by
  obtain ⟨⟨token, s'⟩, hc, rfl⟩ := Option.map_eq_some_iff.1 h
  exact ⟨token, hc⟩

lemma Sound.receive (h : Sound q) (i : ℕ) : Sound (q.receive i) ∧ Unmoved q (q.receive i) := by
  unfold Queue.receive
  split_ifs with hs
  · obtain ⟨token, hc⟩ := status_eq_some hs
    exact h.returns hc
  · exact ⟨h, fun _ => .rfl, rfl⟩

variable [DecidableEq Token]

lemma Sound.handOver (h : Sound q) {u : ℕ} {rest : T.Tree} {qry : List ℕ}
    (front : q.waitingUsers = u :: T.items rest) (queries : (q.users u).qry = i :: qry) :
    Sound (q.handOver u rest i qry) ∧ Admits q (q.handOver u rest i qry) i := by
  have hu : u ∈ q.waitingUsers := by simp [front]
  have hw : q.WaitsAt i (q.users u).token := by
    rw [← h.queued u hu, queries]
    exact .head _
  have hc := activeCalls_setStatus hw .handedOver
  rw [if_neg not_active_waiting, if_pos active_handedOver, Nat.add_zero] at hc
  have hl := h.toLinked.handOver front queries
  rw [handOver_eq] at hl ⊢
  refine ⟨⟨hl, ?_⟩, not_isActive_of_waitsAt hw, fun j => ?_, rfl, rfl⟩
  · have ho : q.activeQuery + 1 = (q.setStatus i .handedOver).activeCalls := by
      rw [h.counted, hc]
      rfl
    exact ho
  · apply (isActive_setStatus hw).trans
    split_ifs with hji
    · simp [hji, Status.Active]
    · simp [hji]

lemma Sound.nextQueryLocked (h : Sound q) : Sound q.nextQueryLocked ∧ ((q.nextQueryLocked = q ∧
          (q.activeQuery = q.maxActiveQuery ∨ q.waitingUsers = [])) ∨
        ∃ i token, q.activeQuery ≠ q.maxActiveQuery ∧ q.waitingUsers ≠ [] ∧
          q.WaitsAt i token ∧ Admits q q.nextQueryLocked i) := by
  obtain ⟨heq, hh⟩ | ⟨u, rest, i, qry, hr, ht, hq, heq⟩ := h.toLinked.nextQueryLocked_cases
  · exact ⟨by rw [heq]; exact h, inl ⟨heq, hh⟩⟩
  · obtain ⟨hs, had⟩ := h.handOver ht hq
    have hw : q.WaitsAt i (q.users u).token := by
      rw [← h.queued u (by simp [ht]), hq]
      exact .head _
    rw [← heq] at hs had
    exact ⟨hs, inr ⟨i, _, hr, by simp [ht], hw, had⟩⟩

/-- A new call waits, or it is admitted because there is room. -/
lemma Sound.addUserQueryLocked (h : Sound q) (token : Token) :
    Sound (q.addUserQueryLocked token).1 ∧
      ((q.addUserQueryLocked token).2 = false ∧ Unmoved q (q.addUserQueryLocked token).1 ∧
          (q.addUserQueryLocked token).1.activeQuery = q.activeQuery ∧
          (q.addUserQueryLocked token).1.waitingUsers ≠ [] ∨
        (q.addUserQueryLocked token).2 = true ∧ q.activeQuery < q.maxActiveQuery ∧
          Admits q (q.addUserQueryLocked token).1 q.calls.length) := by
  have hl := h.toLinked.addUserQueryLocked token
  obtain ⟨u, ha, heq⟩ | ⟨_, hr, heq⟩ | ⟨ha, _, heq⟩ := q.addUserQueryLocked_cases token
  · rw [heq] at hl ⊢
    obtain ⟨hs, hn⟩ := h.waiting_call hl rfl rfl rfl
    have hu := (h.named token u ha).1
    exact ⟨hs, inl ⟨rfl, hn, rfl, ne_nil_of_mem hu⟩⟩
  · rw [heq] at hl ⊢
    have hc : (q.admitFast token).activeCalls = q.activeCalls + 1 := by
      rw [activeCalls_concat rfl, if_pos (by decide)]
    refine ⟨⟨hl, ?_⟩, inr ⟨rfl, hr, not_isActive_length, fun i => ?_, rfl, rfl⟩⟩
    · rw [hc]
      exact congrArg (· + 1) h.counted
    · rw [isActive_concat rfl]
      simp [Status.Active]
  · rw [heq] at hl ⊢
    obtain ⟨hs, hn⟩ := h.waiting_call hl rfl rfl rfl
    have hm := (hs.named token q.nextUser (Function.update_self _ _ _)).1
    exact ⟨hs, inl ⟨rfl, hn, rfl, ne_nil_of_mem hm⟩⟩

lemma Sound.givesUp (h : Sound q) (hw : q.WaitsAt i token) :
    Sound ((q.removeQueryLocked token i).setStatus i .cancelled) ∧
      Unmoved q ((q.removeQueryLocked token i).setStatus i .cancelled) := by
  obtain ⟨u, _, _, hb, hl⟩ := h.toLinked.removeQueryLocked hw
  have hs : waiting.Active ↔ cancelled.Active := by decide
  have hc := activeCalls_setStatus_same hw hs
  have ha := isActive_setStatus_same hw hs
  obtain heq | heq := hb
  · rw [heq] at hl ⊢
    exact ⟨⟨hl, h.counted.trans (congrArg Nat.cast hc.symm)⟩, ha, rfl⟩
  · rw [heq] at hl ⊢
    exact ⟨⟨hl, h.counted.trans (congrArg Nat.cast hc.symm)⟩, ha, rfl⟩

/-- The step lets the query of this call in. -/
def LetsIn (q : Queue T Token) (a : Action Token) (i : ℕ) : Prop :=
  ¬ q.IsActive i ∧ (q.step a).IsActive i

instance (q : Queue T Token) (a : Action Token) : DecidablePred (q.LetsIn a) := fun i =>
  inferInstanceAs (Decidable (¬ q.IsActive i ∧ (q.step a).IsActive i))

def AdmitsOnce (q : Queue T Token) (a : Action Token) : Prop :=
  ∀ i j, q.LetsIn a i → q.LetsIn a j → i = j

/-- The queries that are active after the step, without the one that it lets in, are fewer than
the capacity. -/
def AdmitsBelowLimit (q : Queue T Token) (a : Action Token) : Prop :=
  ∀ i, q.LetsIn a i → ((q.step a).activeCalls : Int) - 1 < q.maxActiveQuery

/-- There are no more active queries than the capacity when a query comes, and when a query is
released there are no more left than the capacity or nobody waits. -/
def WithinCapacity (q : Queue T Token) : Action Token → Prop
  | .acquire _ => q.activeQuery ≤ q.maxActiveQuery
  | .release i => q.status i = some .admitted →
      q.activeQuery - 1 ≤ q.maxActiveQuery ∨ q.waitingUsers = []
  | _ => True

/-- What one step can do. -/
structure StepSpec (q : Queue T Token) (a : Action Token) : Prop where
  sound : Sound (q.step a)
  once : q.AdmitsOnce a
  below : q.AdmitsBelowLimit a ↔ q.WithinCapacity a

lemma StepSpec.of_unmoved {a : Action Token} (sound : Sound (q.step a))
    (same : ∀ i, (q.step a).IsActive i → q.IsActive i) (within : q.WithinCapacity a) :
    StepSpec q a where
  sound := sound
  once := fun i _ hi _ => absurd (same i hi.2) hi.1
  below := iff_of_true (fun i hi => absurd (same i hi.2) hi.1) within

/-- One call is let in. -/
lemma StepSpec.of_admits {a : Action Token} (sound : Sound (q.step a))
    (letsIn : ∀ j, q.LetsIn a j ↔ j = i)
    (room : (q.step a).activeQuery - 1 < q.maxActiveQuery ↔ q.WithinCapacity a) :
    StepSpec q a where
  sound := sound
  once := fun j k hj hk => ((letsIn j).1 hj).trans ((letsIn k).1 hk).symm
  below := by
    rw [← room, sound.counted]
    exact ⟨fun h => h i ((letsIn i).2 rfl), fun h j _ => h⟩

lemma Sound.acquire_spec (h : Sound q) (token : Token) : StepSpec q (.acquire token) := by
  have hs : q.step (.acquire token) = if (q.addUserQueryLocked token).2
      then (q.addUserQueryLocked token).1
      else (q.addUserQueryLocked token).1.nextQueryLocked := by
    simp [Queue.step, h.alive, acquire]
  obtain ⟨hd, ⟨hl, hu, ha, ht⟩ | ⟨hb, hr, had⟩⟩ := h.addUserQueryLocked token
  · rw [hl, if_neg (by simp)] at hs
    obtain ⟨hn, ⟨heq, hw⟩ | ⟨i, _, hf, _, _, had⟩⟩ := hd.nextQueryLocked
    · have hf := hw.resolve_right ht
      rw [ha, hu.capacity] at hf
      refine .of_unmoved (hs ▸ hn) (fun i hi => ?_) (Int.le_of_eq hf)
      rw [hs, heq] at hi
      exact (hu.active i).1 hi
    · refine .of_admits (i := i) (hs ▸ hn) (fun j => ?_) ?_
      · rw [LetsIn, ← hu.active, hs]
        exact had.letsIn
      · rw [hs, had.counted, ha, WithinCapacity]
        rw [ha, hu.capacity] at hf
        omega
  · rw [hb, if_pos rfl] at hs
    refine .of_admits (i := q.calls.length) (hs ▸ hd) (fun j => ?_) ?_
    · rw [LetsIn, hs]
      exact had.letsIn
    · rw [hs, had.counted, WithinCapacity]
      omega

lemma Sound.release_spec (h : Sound q) (i : ℕ) : StepSpec q (.release i) := by
  by_cases ha : q.status i = some .admitted
  · obtain ⟨token, hc⟩ := status_eq_some ha
    have hp : q.step (.release i) = (q.released i).nextQueryLocked := by
      simp [Queue.step, h.alive, release, ha, Queue.released]
    obtain ⟨hr, hb⟩ := h.released hc
    have hn : (q.released i).activeQuery = q.activeQuery - 1 := rfl
    have hm : (q.released i).maxActiveQuery = q.maxActiveQuery := rfl
    have ht : (q.released i).waitingUsers = q.waitingUsers := rfl
    obtain ⟨hd, ⟨heq, hh⟩ | ⟨j, _, hu, hf, hw, had⟩⟩ := hr.nextQueryLocked
    · refine .of_unmoved (hp ▸ hd) (fun k hk => ?_) (fun _ => ?_)
      · rw [hp, heq] at hk
        exact ((hb k).1 hk).1
      · rw [hn, hm, ht] at hh
        exact hh.imp Int.le_of_eq id
    · have he := (waitsAt_setStatus (by decide)).1 hw
      have hg := not_isActive_of_waitsAt he.1
      refine .of_admits (i := j) (hp ▸ hd) (fun k => ?_) ?_
      · rw [LetsIn, hp, had.active, hb]
        constructor
        · rintro ⟨hk, ⟨hk', _⟩ | rfl⟩
          · exact absurd hk' hk
          · rfl
        · rintro rfl
          exact ⟨hg, inr rfl⟩
      · rw [hp, had.counted, hn, WithinCapacity]
        rw [ht] at hf
        simp only [ha, hf, or_false, forall_const]
        omega
  · have hp : q.step (.release i) = q := by simp [Queue.step, h.alive, release, ha]
    exact .of_unmoved (hp.symm ▸ h) (fun j hj => hp ▸ hj) fun hs => absurd hs ha

lemma Sound.cancel (h : Sound q) (i : ℕ) : Sound (q.cancel i) ∧ Unmoved q (q.cancel i) := by
  unfold Queue.cancel
  split
  · rename_i hc
    exact h.returns hc
  · rename_i hc
    exact h.givesUp hc
  · exact ⟨h, fun _ => .rfl, rfl⟩

lemma Sound.spec (h : Sound q) (a : Action Token) : StepSpec q a := by
  cases a with
  | acquire token => exact h.acquire_spec token
  | release i => exact h.release_spec i
  | receive i =>
    have hs : q.step (.receive i) = q.receive i := by simp [Queue.step, h.alive]
    obtain ⟨hn, hu⟩ := h.receive i
    exact .of_unmoved (hs ▸ hn) (fun j hj => (hu.active j).1 (hs ▸ hj)) trivial
  | cancel i =>
    have hs : q.step (.cancel i) = q.cancel i := by simp [Queue.step, h.alive]
    obtain ⟨hn, hu⟩ := h.cancel i
    exact .of_unmoved (hs ▸ hn) (fun j hj => (hu.active j).1 (hs ▸ hj)) trivial
  | adjustCapacity capacity =>
    have hs : q.step (.adjustCapacity capacity) = q.adjustCapacity capacity := by
      simp [Queue.step, h.alive]
    have hn : Sound (q.adjustCapacity capacity) :=
      ⟨h.toLinked.of_calls rfl rfl rfl rfl le_rfl rfl fun _ _ => .rfl, h.counted⟩
    have ha j : (q.adjustCapacity capacity).IsActive j → q.IsActive j := id
    exact .of_unmoved (hs ▸ hn) (fun j hj => ha j (hs ▸ hj)) trivial

/-- Every step of the run, in the state in which it is made. -/
def AllSteps (P : Queue T Token → Action Token → Prop) : Queue T Token → List (Action Token) → Prop
  | _, [] => True
  | q, a :: actions => P q a ∧ AllSteps P (q.step a) actions

lemma Sound.run (h : Sound q) (actions : List (Action Token)) : Sound (q.run actions) := by
  induction actions generalizing q with
  | nil => exact h
  | cons a actions ih => exact ih (h.spec a).sound

lemma Sound.all_once (h : Sound q) (actions : List (Action Token)) :
    AllSteps AdmitsOnce q actions := by
  induction actions generalizing q with
  | nil => trivial
  | cons a actions ih => exact ⟨(h.spec a).once, ih (h.spec a).sound⟩

lemma Sound.all_below_iff (h : Sound q) (actions : List (Action Token)) :
    AllSteps AdmitsBelowLimit q actions ↔ AllSteps WithinCapacity q actions := by
  induction actions generalizing q with
  | nil => exact .rfl
  | cons a actions ih => exact and_congr (h.spec a).below (ih (h.spec a).sound)

/-- In every run the counter is exact and a step lets in one query at most. The steps let queries
in below the capacity exactly if none of them is made with more active queries than the
capacity, a release of the last surplus query and releases with nobody waiting apart. -/
theorem admission_limit [Inhabited Token] (n : Int) (actions : List (Action Token)) :
    ((newQueue T n).run actions).activeQuery = ((newQueue T n).run actions).activeCalls ∧
      AllSteps AdmitsOnce (newQueue T n) actions ∧
      (AllSteps AdmitsBelowLimit (newQueue T n) actions ↔
        AllSteps WithinCapacity (newQueue T n) actions) :=
  ⟨((Sound.newQueue n).run actions).counted, (Sound.newQueue n).all_once actions,
    (Sound.newQueue n).all_below_iff actions⟩

/-- All three hosts of a shard fail while four queries of four users are active, which lowers the
capacity from four to one. The next query is the fifth one. -/
theorem lowered_capacity_admits :
    let q := (newQueue sortedList 4 : Queue _ ℕ).run
      [.acquire 1, .acquire 2, .acquire 3, .acquire 4,
        .adjustCapacity ((adjustSemCapacity [false, false, false] 4).getD 0)]
    q.maxActiveQuery = 1 ∧ q.activeCalls = 4 ∧
      q.LetsIn (.acquire 5) 4 ∧ (q.step (.acquire 5)).activeCalls = 5 := by
  decide +kernel

/-- While a query waits there are at least as many active queries as the capacity. -/
def NoRoom (q : Queue T Token) : Prop :=
  ∀ token, q.Waits token → q.maxActiveQuery ≤ q.activeCalls

/-- The capacity is set above the number of active queries only while nobody waits. -/
def RaisedIdle (q : Queue T Token) : Action Token → Prop
  | .adjustCapacity capacity => ∀ token, q.Waits token → capacity.toInt ≤ q.activeCalls
  | _ => True

omit [DecidableEq Token] in
lemma Sound.tree_ne_nil (h : Sound q) (hw : q.Waits token) : q.waitingUsers ≠ [] := by
  obtain ⟨i, hi⟩ := waits_iff.1 hw
  obtain ⟨u, hn⟩ := h.waiting i token hi
  exact ne_nil_of_mem (h.named token u hn).1

omit [DecidableEq Token] in
lemma Sound.noRoom_iff (h : Sound q) :
    q.NoRoom ↔ (q.waitingUsers ≠ [] → q.maxActiveQuery ≤ q.activeQuery) := by
  rw [h.counted]
  constructor
  · intro hn ht
    obtain ⟨u, hu⟩ := exists_mem_of_ne_nil _ ht
    obtain ⟨i, hi⟩ := exists_mem_of_ne_nil _ (h.filled u hu)
    exact hn _ (waits_iff.2 ⟨i, (h.queued u hu i).1 hi⟩)
  · exact fun hf token hw => hf (h.tree_ne_nil hw)

/-- One query is let in, so one place may be free before. -/
lemma Sound.next_noRoom (h : Sound q)
    (full : q.waitingUsers ≠ [] → q.maxActiveQuery ≤ q.activeQuery + 1) :
    q.nextQueryLocked.NoRoom := by
  obtain ⟨hs, ⟨heq, hw⟩ | ⟨i, _, _, ht, _, had⟩⟩ := h.nextQueryLocked
  · rw [heq, h.noRoom_iff]
    exact fun ht => (hw.resolve_right ht).ge
  · rw [hs.noRoom_iff, had.capacity, had.counted]
    exact fun _ => full ht

lemma Sound.noRoom_step (h : Sound q) (noRoom : q.NoRoom) (a : Action Token) :
    (q.step a).NoRoom ↔ q.RaisedIdle a := by
  have hf := h.noRoom_iff.1 noRoom
  unfold Queue.step
  rw [h.alive, if_neg (by simp)]
  cases a with
  | adjustCapacity capacity => exact .rfl
  | acquire token =>
    refine iff_of_true ?_ trivial
    obtain ⟨hn, _⟩ := h.addUserQueryLocked token
    simp only [acquire]
    obtain ⟨u, hm, heq⟩ | ⟨_, hr, heq⟩ | ⟨_, hle, heq⟩ := q.addUserQueryLocked_cases token
    · rw [heq] at hn ⊢
      have hle := hf (ne_nil_of_mem (h.named token u hm).1)
      exact hn.next_noRoom fun _ => Int.le_add_one hle
    · rw [heq] at hn ⊢
      exact hn.noRoom_iff.2 fun ht => absurd (hf ht) (not_le.2 hr)
    · rw [heq] at hn ⊢
      exact hn.next_noRoom fun _ => Int.le_add_one (not_lt.1 hle)
  | release i =>
    refine iff_of_true ?_ trivial
    simp only [release]
    split_ifs with hs
    · obtain ⟨token, hc⟩ := status_eq_some hs
      have ha : (q.released i).activeQuery + 1 = q.activeQuery := Int.sub_add_cancel _ 1
      exact (h.released hc).1.next_noRoom (ha ▸ hf)
    · exact noRoom
  | receive i =>
    refine iff_of_true ?_ trivial
    simp only [Queue.receive]
    split_ifs with hs
    · obtain ⟨token, hc⟩ := status_eq_some hs
      exact (h.returns hc).1.noRoom_iff.2 hf
    · exact noRoom
  | cancel i =>
    refine iff_of_true ?_ trivial
    simp only [Queue.cancel]
    split
    · rename_i hc
      exact (h.returns hc).1.noRoom_iff.2 hf
    · rename_i hc
      apply (h.givesUp hc).1.noRoom_iff.2
      obtain ⟨u, hn, _, heq | heq, _⟩ := h.toLinked.removeQueryLocked hc
      · rw [heq]
        exact fun _ => hf (ne_nil_of_mem (h.named _ u hn).1)
      · rw [heq]
        exact hf
    · exact noRoom

lemma Sound.all_noRoom_iff (h : Sound q) (noRoom : q.NoRoom) (actions : List (Action Token)) :
    AllSteps (fun q a => (q.step a).NoRoom) q actions ↔ AllSteps RaisedIdle q actions := by
  induction actions generalizing q with
  | nil => exact .rfl
  | cons a actions ih =>
    simp only [AllSteps, ← h.noRoom_step noRoom a]
    exact and_congr_right fun hn => ih (h.spec a).sound hn

/-- `AdjustCapacity` lets nobody in: no query waits beside a free place exactly if the capacity
is never raised above the number of active queries while one waits. -/
theorem waiting_without_room_iff [Inhabited Token] (n : Int) (actions : List (Action Token)) :
    AllSteps (fun q a => (q.step a).NoRoom) (newQueue T n) actions ↔
      AllSteps RaisedIdle (newQueue T n) actions :=
  (Sound.newQueue n).all_noRoom_iff (by simp [NoRoom, Waits, newQueue]) actions

/-- One place, one query active and one waiting. The capacity becomes two. -/
theorem raised_capacity_unused :
    let q := (newQueue sortedList 1 : Queue _ ℕ).run [.acquire 1, .acquire 2, .adjustCapacity 2]
    q.Waits 2 ∧ q.maxActiveQuery = 2 ∧ q.activeCalls = 1 := by
  decide +kernel

end Queue

end QueryQueue
