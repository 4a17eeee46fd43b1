import StatsHouse.QueryLimit

/-!
# Taking turns

With a fixed capacity a query waits only while the queue is full, so the fast path is taken only
when nobody waits and queries are let in by releases. A user keeps its order while it waits and
draws a new one, larger than all others, when it is served. Once another user has been served
it is therefore behind, and it is not served again before the one that waits.
-/

namespace QueryQueue

open OrderedTree List Option Function Or Queue

universe u

variable {T : Trees ℕ ℕ} {Token : Type u} {token other waiter : Token} {i u : ℕ} {c : Call Token}
  {actions : List (Action Token)}

/-- The capacity stays. -/
def Action.KeepsCapacity : Action Token → Prop
  | .adjustCapacity _ => False
  | _ => True

instance : DecidablePred fun a : Action Token => a.KeepsCapacity
  | .adjustCapacity _ => isFalse id
  | .acquire _ => isTrue trivial
  | .receive _ => isTrue trivial
  | .cancel _ => isTrue trivial
  | .release _ => isTrue trivial

namespace Queue

variable {q q' : Queue T Token}

/-- The order of the user with the token, if it waits. -/
def rank (q : Queue T Token) (token : Token) : Option ℕ := (q.waitingUsersByName token).map q.order

lemma Linked.rank_lt (h : Linked q) {x : ℕ} (hx : q.rank token = some x) : x < q.globalOrder := by
  obtain ⟨u, hn, rfl⟩ := map_eq_some_iff.1 hx
  exact h.drawn u (h.named token u hn).1

lemma Linked.exists_rank (h : Linked q) (hw : q.Waits token) : ∃ x, q.rank token = some x := by
  obtain ⟨i, hi⟩ := waits_iff.1 hw
  obtain ⟨u, hn⟩ := h.waiting i token hi
  exact ⟨q.order u, by rw [rank, hn]; rfl⟩

lemma rank_congr (byName : q'.waitingUsersByName token = q.waitingUsersByName token)
    (order : ∀ u, q.waitingUsersByName token = some u → q'.order u = q.order u) :
    q'.rank token = q.rank token := by
  rw [rank, rank, byName]
  cases hn : q.waitingUsersByName token with
  | none => rfl
  | some u => exact congrArg some (order u hn)

variable [DecidableEq Token]

/-- No query is let in; users stay, leave or come with the largest order. -/
structure Quiet (q q' : Queue T Token) : Prop where
  admitted : ∀ token, q'.admittedCalls token = q.admittedCalls token
  rank : ∀ token, q'.rank token = q.rank token ∨ q'.rank token = none ∨
    q.rank token = none ∧ q'.rank token = some q.globalOrder

/-- The first user is served: it leaves or goes to the end. -/
structure Serves (q q' : Queue T Token) (token : Token) : Prop where
  admitted : q'.admittedCalls token = q.admittedCalls token + 1
  admitted_of_ne : ∀ t ≠ token, q'.admittedCalls t = q.admittedCalls t
  first : ∃ x, q.rank token = some x ∧ ∀ t ≠ token, ∀ y, q.rank t = some y → x < y
  rank : q'.rank token = none ∨ q'.rank token = some q.globalOrder
  rank_of_ne : ∀ t ≠ token, q'.rank t = q.rank t

/-- The user is served before the other one, as things are. -/
def Ahead (q : Queue T Token) (token other : Token) : Prop :=
  ∃ x y, q.rank token = some x ∧ q.rank other = some y ∧ x < y

lemma Quiet.rank_of_waits (h : Quiet q q') (linked : Linked q) (linked' : Linked q')
    (hw : q.Waits token) (hw' : q'.Waits token) : q'.rank token = q.rank token := by
  obtain ⟨y, hy⟩ := linked.exists_rank hw
  obtain ⟨y', hy'⟩ := linked'.exists_rank hw'
  obtain hr | hr | ⟨hr, _⟩ := h.rank token
  · exact hr
  · rw [hr] at hy'
    cases hy'
  · rw [hr] at hy
    cases hy

lemma Quiet.ahead (h : Quiet q q') (linked : Linked q) (sameRank : q'.rank other = q.rank other)
    (ahead : q'.Ahead token other) : q.Ahead token other := by
  obtain ⟨x, y, hx, hy, hlt⟩ := ahead
  rw [sameRank] at hy
  obtain hr | hr | ⟨_, hr⟩ := h.rank token
  · exact ⟨x, y, hr ▸ hx, hy, hlt⟩
  · rw [hr] at hx
    cases hx
  · rw [hr] at hx
    obtain rfl := some.inj hx
    exact absurd (linked.rank_lt hy) hlt.asymm

lemma Serves.not_ahead (h : Serves q q' token) (linked : Linked q) (hne : other ≠ token) :
    ¬ q'.Ahead token other := by
  rintro ⟨x, y, hx, hy, hlt⟩
  rw [h.rank_of_ne other hne] at hy
  obtain hr | hr := h.rank
  · rw [hr] at hx
    cases hx
  · rw [hr] at hx
    obtain rfl := some.inj hx
    exact hlt.asymm (linked.rank_lt hy)

/-- While a user waits and is not served, a step lets in a query of another user only if that
one was ahead, and then it is ahead no more. -/
lemma overtakes_once (linked : Linked q) (linked' : Linked q')
    (turn : Quiet q q' ∨ ∃ token, Serves q q' token) (other : Token) (hw : q.Waits waiter)
    (hw' : q'.Waits waiter) (unserved : q'.admittedCalls waiter = q.admittedCalls waiter) :
    q'.admittedCalls other = q.admittedCalls other ∧
      (q'.Ahead other waiter → q.Ahead other waiter) ∨
      q'.admittedCalls other = q.admittedCalls other + 1 ∧ q.Ahead other waiter ∧
        ¬ q'.Ahead other waiter := by
  obtain hq | ⟨token, hs⟩ := turn
  · have ha := hq.rank_of_waits linked linked' hw hw'
    exact inl ⟨hq.admitted other, hq.ahead linked ha⟩
  · have ht : waiter ≠ token := by
      rintro rfl
      have had := hs.admitted
      omega
    by_cases ho : other = token
    · subst ho
      obtain ⟨x, hx, hf⟩ := hs.first
      obtain ⟨y, hy⟩ := linked.exists_rank hw
      exact inr ⟨hs.admitted, ⟨x, y, hx, hy, hf waiter ht y hy⟩, hs.not_ahead linked ht⟩
    · refine inl ⟨hs.admitted_of_ne other ho, ?_⟩
      rintro ⟨x, y, hx, hy, hlt⟩
      rw [hs.rank_of_ne other ho] at hx
      rw [hs.rank_of_ne waiter ht] at hy
      exact ⟨x, y, hx, hy, hlt⟩

lemma admittedCalls_setStatus (hc : q.calls[i]? = some c) (s : Status) (token : Token) :
    (q.setStatus i s).admittedCalls token +
        (if c.token = token ∧ c.status.WasAdmitted then 1 else 0) =
      q.admittedCalls token + (if c.token = token ∧ s.WasAdmitted then 1 else 0) :=
  countP_modify (p := fun c : Call Token => c.token = token ∧ c.status.WasAdmitted)
    hc

lemma admittedCalls_setStatus_same {s : Status} (hc : q.calls[i]? = some c)
    (same : c.status.WasAdmitted ↔ s.WasAdmitted) (token : Token) :
    (q.setStatus i s).admittedCalls token = q.admittedCalls token := by
  have hn := admittedCalls_setStatus hc s token
  simp only [same] at hn
  omega

lemma admittedCalls_concat (calls : q'.calls = q.calls ++ [⟨token, .waiting⟩]) (t : Token) :
    q'.admittedCalls t = q.admittedCalls t := by
  have hw : ¬Status.waiting.WasAdmitted := by decide
  simp [admittedCalls, calls, countP_append, hw]

lemma Quiet.of_calls (had : ∀ token, q'.admittedCalls token = q.admittedCalls token)
    (byName : q'.waitingUsersByName = q.waitingUsersByName)
    (order : ∀ u, q'.order u = q.order u) : Quiet q q' :=
  ⟨had, fun token => inl (rank_congr (by rw [byName]) fun u _ => order u)⟩

lemma Quiet.joinUser : Quiet q (q.joinUser token u) := by
  refine .of_calls (admittedCalls_concat rfl) rfl fun v => ?_
  by_cases hv : v = u
  · simp [order, Queue.joinUser, setUser, hv]
  · simp [order, Queue.joinUser, setUser, hv]

lemma Linked.quiet_startUser (h : Linked q) (byName : q.waitingUsersByName token = none) :
    Quiet q (q.startUser token) := by
  refine ⟨admittedCalls_concat rfl, fun t => ?_⟩
  by_cases ht : t = token
  · subst ht
    refine inr (inr ⟨by rw [rank, byName]; rfl, ?_⟩)
    simp [rank, Queue.startUser, order, setUser]
  · refine inl (rank_congr (update_of_ne ht _ _) fun v hv => ?_)
    have hf := (h.allocated v (h.named t v hv).1).ne
    simp [order, Queue.startUser, setUser, hf]

lemma Quiet.returns (hc : q.calls[i]? = some ⟨token, .handedOver⟩) :
    Quiet q (q.setStatus i .admitted) := by
  have hs : Status.handedOver.WasAdmitted ↔ Status.admitted.WasAdmitted := by decide
  exact .of_calls (admittedCalls_setStatus_same hc hs) rfl fun _ => rfl

lemma Linked.quiet_givesUp (h : Linked q) (hw : q.WaitsAt i token) :
    Quiet q ((q.removeQueryLocked token i).setStatus i .cancelled) := by
  obtain ⟨u, _, _, hc, _⟩ := h.removeQueryLocked hw
  have had := admittedCalls_setStatus_same hw
    (show Status.waiting.WasAdmitted ↔ Status.cancelled.WasAdmitted by decide)
  obtain heq | heq := hc
  · rw [heq]
    refine ⟨had, fun t => ?_⟩
    by_cases ht : t = token
    · subst ht
      exact inr (inl (by simp [rank, leaveWithUser]))
    · exact inl (rank_congr (update_of_ne ht _ _) fun v _ => leaveUser_order v)
  · rw [heq]
    exact .of_calls had rfl leaveUser_order

lemma Linked.serves_handOver (h : Linked q) {rest : T.Tree} {qry : List ℕ}
    (front : q.waitingUsers = u :: T.items rest) (queries : (q.users u).qry = i :: qry) :
    Serves q (q.handOver u rest i qry) (q.users u).token := by
  have hu : u ∈ q.waitingUsers := by simp [front]
  have hw : q.WaitsAt i (q.users u).token := by
    rw [← h.queued u hu, queries]
    exact .head _
  have hc t := admittedCalls_setStatus hw .handedOver t
  have hg : ¬Status.waiting.WasAdmitted := by decide
  have hh : Status.handedOver.WasAdmitted := by decide
  simp only [hg, hh, and_false, and_true, if_false, Nat.add_zero] at hc
  rw [handOver_eq]
  constructor
  · exact (hc _).trans (by rw [if_pos rfl])
  · intro t ht
    exact (hc t).trans (by rw [if_neg ht.symm, Nat.add_zero])
  · refine ⟨q.order u, by rw [rank, h.listed u hu]; rfl, ?_⟩
    intro t ht y hy
    obtain ⟨v, hv, rfl⟩ := map_eq_some_iff.1 hy
    obtain ⟨hm, hk⟩ := h.named t v hv
    have ho := h.ordered
    rw [front] at hm ho
    obtain rfl | hm := mem_cons.1 hm
    · exact absurd hk.symm ht
    · exact ho.head_lt hm
  · rw [rank]
    split_ifs with hn
    · exact inl (by simp)
    · apply inr
      rw [h.listed u hu]
      exact congrArg (some ∘ User.order) (update_self u _ q.users)
  · intro t ht
    refine rank_congr ?_ fun v hv => ?_
    · split_ifs
      · exact update_of_ne ht _ _
      · rfl
    · have ha : v ≠ u := by
        rintro rfl
        exact ht (h.named t v hv).2.symm
      exact congrArg User.order (update_of_ne ha _ _)

/-- There is no room while somebody waits. -/
structure Busy (q : Queue T Token) (n : ℕ) : Prop extends Sound q where
  capacity : q.maxActiveQuery = n
  within : q.activeQuery ≤ n
  full : q.waitingUsers ≠ [] → q.activeQuery = n

omit [DecidableEq Token] in
lemma Busy.newQueue [Inhabited Token] (n : ℕ) : Busy (newQueue T n : Queue T Token) n :=
  { Sound.newQueue n with
    capacity := rfl
    within := Int.natCast_nonneg n
    full := fun h => absurd T.items_empty h }

/-- A full queue hands nothing over. -/
lemma nextQueryLocked_of_full
    (full : q.activeQuery = q.maxActiveQuery) : q.nextQueryLocked = q := by
  rw [nextQueryLocked, if_pos full]

lemma Serves.of_released {t : Token} (hc : q.calls[i]? = some ⟨token, .admitted⟩)
    (h : Serves (q.released i) q' t) : Serves q q' t := by
  have hs : Status.admitted.WasAdmitted ↔ Status.released.WasAdmitted := by decide
  have had t : (q.released i).admittedCalls t = q.admittedCalls t :=
    admittedCalls_setStatus_same hc hs t
  exact ⟨(had t) ▸ h.admitted, fun t' ht' => (had t') ▸ h.admitted_of_ne t' ht',
    h.first, h.rank, h.rank_of_ne⟩

/-- With a fixed capacity the queue stays full while somebody waits, and then queries are let in
in turn. -/
structure TurnSpec (q q' : Queue T Token) (n : ℕ) : Prop where
  busy : Busy q' n
  turn : q.waitingUsers ≠ [] → Quiet q q' ∨ ∃ token, Serves q q' token

variable {n : ℕ}

section

variable (h : Busy q n)
include h

lemma Busy.of_quiet (sound : Sound q') (quiet : Quiet q q')
    (capacity : q'.maxActiveQuery = q.maxActiveQuery) (active : q'.activeQuery = q.activeQuery)
    (full : q'.waitingUsers ≠ [] → q.activeQuery = n) : TurnSpec q q' n where
  busy := { sound with
      capacity := capacity.trans h.capacity
      within := active ▸ h.within
      full := fun hf => active.trans (full hf) }
  turn := fun _ => inl quiet

lemma Busy.acquire_turn (token : Token) : TurnSpec q (q.acquire token) n := by
  obtain ⟨hs, _⟩ := h.toSound.addUserQueryLocked token
  rw [acquire]
  obtain ⟨u, hn, heq⟩ | ⟨hn, hr, heq⟩ | ⟨hn, hu, heq⟩ := q.addUserQueryLocked_cases token
  · have ha := h.full (ne_nil_of_mem (h.named token u hn).1)
    have hb : (q.joinUser token u).nextQueryLocked = q.joinUser token u :=
      nextQueryLocked_of_full (ha.trans h.capacity.symm)
    rw [heq] at hs ⊢
    rw [if_neg (by simp), hb]
    exact h.of_quiet hs .joinUser rfl rfl fun _ => ha
  · rw [heq] at hs ⊢
    have hlt : q.activeQuery < n := h.capacity ▸ hr
    have he : q.waitingUsers = [] := by
      by_contra hf
      exact absurd (h.full hf) (Int.ne_of_lt hlt)
    refine ⟨{ hs with capacity := h.capacity, within := hlt, full := ?_ }, ?_⟩
    · exact fun hf => absurd he hf
    · exact fun hf => absurd he hf
  · have ha : q.activeQuery = n := by
      have ht := h.within
      rw [h.capacity] at hu
      omega
    have hb : (q.startUser token).nextQueryLocked = q.startUser token :=
      nextQueryLocked_of_full (ha.trans h.capacity.symm)
    rw [heq] at hs ⊢
    rw [if_neg (by simp), hb]
    exact h.of_quiet hs (h.toLinked.quiet_startUser hn) rfl rfl fun _ => ha

lemma Busy.release_turn (i : ℕ) : TurnSpec q (q.release i) n := by
  rw [release]
  split_ifs with hs
  · obtain ⟨token, hc⟩ := status_eq_some hs
    obtain ⟨hr, _⟩ := h.toSound.released hc
    have hn := hr.nextQueryLocked.1
    have ha : (q.released i).activeQuery = q.activeQuery - 1 := rfl
    have hm : (q.released i).maxActiveQuery = n := h.capacity
    have hh := h.within
    change TurnSpec q (q.released i).nextQueryLocked n
    obtain ⟨heq, hw⟩ | ⟨u, rest, j, qry, _, ht, hq, heq⟩ := hr.toLinked.nextQueryLocked_cases
    · rw [ha, hm] at hw
      have he := hw.resolve_left (by omega)
      rw [heq] at hn ⊢
      refine ⟨{ hn with capacity := h.capacity, within := ?_, full := ?_ }, ?_⟩
      · rw [ha]
        omega
      · exact fun hf => absurd he hf
      · exact fun hf => absurd he hf
    · have hf : q.waitingUsers ≠ [] := by
        have hi : q.waitingUsers = u :: T.items rest := ht
        simp [hi]
      have hb := h.full hf
      have hv := (hr.toLinked.serves_handOver ht hq).of_released hc
      rw [heq] at hn ⊢
      rw [handOver_eq] at hn hv ⊢
      have hg : q.activeQuery - 1 + 1 = n := by omega
      exact ⟨{ hn with capacity := hm, within := Int.le_of_eq hg, full := fun _ => hg },
        fun _ => inr ⟨_, hv⟩⟩
  · exact h.of_quiet h.toSound (.of_calls (fun _ => rfl) rfl fun _ => rfl) rfl rfl h.full

lemma Busy.cancel_turn (i : ℕ) : TurnSpec q (q.cancel i) n := by
  have hs := (h.toSound.cancel i).1
  unfold cancel at hs ⊢
  split at hs
  · rename_i hc
    exact h.of_quiet hs (.returns hc) rfl rfl h.full
  · rename_i token hw
    obtain ⟨u, hn, _, hb, _⟩ := h.toLinked.removeQueryLocked hw
    have hq := h.toLinked.quiet_givesUp hw
    have ha := h.full (ne_nil_of_mem (h.named token u hn).1)
    obtain heq | heq := hb
    · rw [heq] at hs hq ⊢
      exact h.of_quiet hs hq rfl rfl fun _ => ha
    · rw [heq] at hs hq ⊢
      exact h.of_quiet hs hq rfl rfl fun _ => ha
  · exact h.of_quiet h.toSound (.of_calls (fun _ => rfl) rfl fun _ => rfl) rfl rfl h.full

lemma Busy.receive_turn (i : ℕ) : TurnSpec q (q.receive i) n := by
  have hn := (h.toSound.receive i).1
  unfold receive at hn ⊢
  split_ifs at hn ⊢ with hs
  · obtain ⟨token, hc⟩ := status_eq_some hs
    exact h.of_quiet hn (.returns hc) rfl rfl h.full
  · exact h.of_quiet h.toSound (.of_calls (fun _ => rfl) rfl fun _ => rfl) rfl rfl h.full

lemma Busy.turn {a : Action Token} (keeps : a.KeepsCapacity) : TurnSpec q (q.step a) n := by
  simp only [step, h.alive, Bool.false_eq_true, if_false]
  cases a with
  | acquire token => exact h.acquire_turn token
  | receive i => exact h.receive_turn i
  | cancel i => exact h.cancel_turn i
  | release i => exact h.release_turn i
  | adjustCapacity capacity => exact keeps.elim

lemma Busy.run (keeps : ∀ a ∈ actions, a.KeepsCapacity) : Busy (q.run actions) n := by
  induction actions generalizing q with
  | nil => exact h
  | cons a actions ih =>
    exact ih (h.turn (keeps a (.head _))).busy fun b hb => keeps b (mem_cons_of_mem a hb)

end

/-- After the step the user still waits, and no query of it was let in. -/
def KeepsWaiting (token : Token) (q : Queue T Token) (a : Action Token) : Prop :=
  (q.step a).Waits token ∧ (q.step a).admittedCalls token = q.admittedCalls token

open Classical in
/-- One admission at most is left for a user that is ahead, none for the others. -/
lemma Busy.overtaken (h : Busy q n) (keeps : ∀ a ∈ actions, a.KeepsCapacity) (other : Token)
    (hw : q.Waits waiter) (waits : AllSteps (KeepsWaiting waiter) q actions) :
    (q.run actions).admittedCalls other ≤
      q.admittedCalls other + if q.Ahead other waiter then 1 else 0 := by
  induction actions generalizing q with
  | nil => exact Nat.le_add_right _ _
  | cons a actions ih =>
    obtain ⟨⟨hw', hc⟩, hr⟩ := waits
    obtain ⟨hu, hd⟩ := h.turn (keeps a (.head _))
    have ht := ih hu (fun b hb => keeps b (mem_cons_of_mem a hb)) hw' hr
    have he : q.run (a :: actions) = (q.step a).run actions := rfl
    rw [he]
    obtain ⟨had, ha⟩ | ⟨had, ha, hh⟩ := overtakes_once
      h.toLinked hu.toLinked (hd (h.tree_ne_nil hw)) other hw hw' hc
    · rw [had] at ht
      refine ht.trans (Nat.add_le_add_left ?_ _)
      by_cases hn : (q.step a).Ahead other waiter
      · rw [if_pos hn, if_pos (ha hn)]
      · rw [if_neg hn]
        exact Nat.zero_le _
    · rw [if_neg hh, had] at ht
      rw [if_pos ha]
      exact ht

/-- For a fixed capacity. While a user waits without being served, each other user gets one query
in at most; the fast path is taken only when nobody waits; and the queue is full whenever
somebody waits. -/
theorem round_robin [Inhabited Token] (n : ℕ) (before after : List (Action Token))
    (keeps : ∀ a ∈ before ++ after, a.KeepsCapacity) :
    let q := (newQueue T n).run before
    (∀ waiter, q.Waits waiter → AllSteps (KeepsWaiting waiter) q after → ∀ other ≠ waiter,
        (q.run after).admittedCalls other ≤ q.admittedCalls other + 1) ∧
      (∀ token, (q.addUserQueryLocked token).2 = true → ∀ t, ¬q.Waits t) ∧
      ((∃ token, q.Waits token) → q.activeCalls = n) := by
  classical
  intro q
  have hb : Busy q n := (Busy.newQueue n).run fun a ha => keeps a (mem_append_left _ ha)
  refine ⟨fun waiter hw hc other _ => ?_, fun token hf t hw => ?_, fun ⟨token, hw⟩ => ?_⟩
  · have hle := hb.overtaken (fun a ha => keeps a (mem_append_right _ ha)) other hw hc
    refine hle.trans (Nat.add_le_add_left ?_ _)
    split_ifs <;> simp
  · have hu := hb.full (hb.tree_ne_nil hw)
    have hp := hb.capacity
    obtain ⟨_, ⟨hs, _⟩ | ⟨_, hr, _⟩⟩ := hb.toSound.addUserQueryLocked token
    · rw [hf] at hs
      cases hs
    · omega
  · have hu := hb.full (hb.tree_ne_nil hw)
    have ho := hb.counted
    omega

/-- Two users wait behind a third one, and each of the two gets its turn. -/
theorem round_robin_two :
    let q := (newQueue sortedList (1 : ℕ) : Queue _ ℕ).run
      [.acquire 1, .acquire 2, .acquire 2, .acquire 3]
    (∀ waiter, q.Waits waiter → AllSteps (KeepsWaiting waiter) q [.release 0, .receive 1] →
        ∀ other ≠ waiter, (q.run [.release 0, .receive 1]).admittedCalls other ≤
          q.admittedCalls other + 1) ∧
      q.Waits 3 ∧ (q.run [.release 0, .receive 1]).Waits 3 ∧
      (q.run [.release 0, .receive 1]).admittedCalls 2 = q.admittedCalls 2 + 1 :=
  ⟨(round_robin 1 _ _ (by decide +kernel)).1,
   by decide +kernel, by decide +kernel, by decide +kernel⟩

end Queue

end QueryQueue
