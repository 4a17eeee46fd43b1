import Mathlib.Data.List.Nodup
import StatsHouse.QueryQueue

/-!
# How the queue of queries holds together

The map and the tree hold the same users, each user has the waiting calls of its token in its
list, and the counter of active queries counts the calls that were admitted and not released.
Every action keeps this, so a user in the tree always has a query to hand over.
-/

namespace QueryQueue

open OrderedTree List Function Nat

universe u

variable {T : Trees ℕ ℕ} {Token : Type u} {c : Call Token} {q' : Queue T Token} {s : Status}
  {token : Token} {i v : ℕ}

lemma countP_modify {α : Type u} {p : α → Prop} [DecidablePred p] {l : List α} {f : α → α} {x : α}
    (h : l[i]? = some x) :
    (l.modify i f).countP p + (if p x then 1 else 0) = l.countP p + (if p (f x) then 1 else 0) := by
  induction l generalizing i with
  | nil => cases h
  | cons y l ih =>
    cases i with
    | zero =>
      obtain rfl : y = x := by simpa using h
      simp only [modify_zero_cons, countP_cons, decide_eq_true_eq]
      omega
    | succ i =>
      have hr := ih (by simpa using h)
      simp only [modify_succ_cons, countP_cons, decide_eq_true_eq] at hr ⊢
      omega

namespace Queue

variable {q : Queue T Token} {j u : ℕ}

/-- The call waits for its turn. -/
def WaitsAt (q : Queue T Token) (i : ℕ) (token : Token) : Prop :=
  q.calls[i]? = some ⟨token, .waiting⟩

lemma waits_iff : q.Waits token ↔ ∃ i, q.WaitsAt i token := mem_iff_getElem?

lemma waitsAt_setStatus (hs : s ≠ .waiting) :
    (q.setStatus i s).WaitsAt j token ↔ q.WaitsAt j token ∧ j ≠ i := by
  simp only [WaitsAt, setStatus, getElem?_modify]
  cases hj : q.calls[j]? with
  | none => simp
  | some c =>
    by_cases hij : i = j
    · simp [hij, hs]
    · simp [hij, Ne.symm hij]

lemma getElem?_concat {α : Type u} {l : List α} {x y : α} :
    (l ++ [x])[i]? = some y ↔ l[i]? = some y ∨ i = l.length ∧ x = y := by
  obtain hlt | rfl | hgt := lt_trichotomy i l.length
  · rw [getElem?_append_left hlt]
    simp [hlt.ne]
  · simp
  · rw [getElem?_eq_none (by simp; omega), getElem?_eq_none hgt.le]
    simp [hgt.ne']

lemma activeCalls_setStatus (hc : q.calls[i]? = some c) (s : Status) :
    (q.setStatus i s).activeCalls + (if c.status.Active then 1 else 0) =
      q.activeCalls + (if s.Active then 1 else 0) :=
  countP_modify (p := fun c : Call Token => c.status.Active)
    hc

structure Linked (q : Queue T Token) : Prop where
  alive : q.panicked = false
  listed : ∀ u ∈ q.waitingUsers, q.waitingUsersByName (q.users u).token = some u
  named : ∀ token u, q.waitingUsersByName token = some u →
    u ∈ q.waitingUsers ∧ (q.users u).token = token
  ordered : Ordered q.order q.waitingUsers
  drawn : ∀ u ∈ q.waitingUsers, q.order u < q.globalOrder
  allocated : ∀ u ∈ q.waitingUsers, u < q.nextUser
  filled : ∀ u ∈ q.waitingUsers, (q.users u).qry ≠ []
  nodup : ∀ u ∈ q.waitingUsers, (q.users u).qry.Nodup
  queued : ∀ u ∈ q.waitingUsers, ∀ i, i ∈ (q.users u).qry ↔ q.WaitsAt i (q.users u).token
  waiting : ∀ i token, q.WaitsAt i token → ∃ u, q.waitingUsersByName token = some u

lemma Linked.newQueue [Inhabited Token] (n : Int) : Linked (newQueue T n : Queue T Token) := by
  have hw : (Queue.newQueue T n : Queue T Token).waitingUsers = [] := T.items_empty
  constructor
  case alive => rfl
  case ordered =>
    rw [hw]
    exact List.Pairwise.nil
  case named => simp [Queue.newQueue]
  case waiting => simp [Queue.newQueue, WaitsAt]
  all_goals simp [hw]

lemma Linked.of_calls (h : Linked q) (users : q'.users = q.users)
    (nextUser : q'.nextUser = q.nextUser) (byName : q'.waitingUsersByName = q.waitingUsersByName)
    (byPriority : q'.waitingUsers = q.waitingUsers)
    (globalOrder : q.globalOrder ≤ q'.globalOrder) (alive : q'.panicked = q.panicked)
    (same : ∀ i token, q'.WaitsAt i token ↔ q.WaitsAt i token) : Linked q' := by
  have ho : q'.order = q.order := funext fun u => by rw [order, order, users]
  constructor
  case drawn =>
    intro u hu
    rw [ho]
    exact (h.drawn u (byPriority ▸ hu)).trans_le globalOrder
  all_goals simp [users, nextUser, byName, byPriority, alive, ho, same]
  case alive => exact h.alive
  case listed => exact h.listed
  case named => exact h.named
  case ordered => exact h.ordered
  case allocated => exact h.allocated
  case filled => exact h.filled
  case nodup => exact h.nodup
  case queued => exact h.queued
  case waiting => exact h.waiting

lemma Linked.setStatus (h : Linked q) (hc : q.calls[i]? = some c) (hw : c.status ≠ .waiting)
    (hs : s ≠ .waiting) :
    Linked (q.setStatus i s) := by
  refine h.of_calls rfl rfl rfl rfl le_rfl rfl fun j token => ?_
  rw [waitsAt_setStatus hs, and_iff_left_iff_imp]
  rintro hj rfl
  rw [WaitsAt, hc] at hj
  cases hj
  exact hw rfl

/-- One user changes: it has other queries and perhaps another order, and it is among the waiting
users if it has queries. -/
structure Changes [DecidableEq Token] (q q' : Queue T Token) (u : ℕ) (user : User Token) :
    Prop where
  alive : q'.panicked = q.panicked
  name : q.waitingUsersByName user.token = some u ∨
    q.waitingUsersByName user.token = none ∧ u ∉ q.waitingUsers
  users : q'.users = update q.users u user
  byName : q'.waitingUsersByName =
    update q.waitingUsersByName user.token (if user.qry = [] then none else some u)
  byPriority : ∀ v, v ∈ q'.waitingUsers ↔
    v ∈ q.waitingUsers ∧ v ≠ u ∨ v = u ∧ user.qry ≠ []
  ordered : Ordered q'.order q'.waitingUsers
  drawn : q.globalOrder ≤ q'.globalOrder ∧ user.order < q'.globalOrder
  allocated : q.nextUser ≤ q'.nextUser ∧ u < q'.nextUser
  nodup : user.qry.Nodup
  queued : ∀ i, i ∈ user.qry ↔ q'.WaitsAt i user.token
  others : ∀ i t, t ≠ user.token → (q'.WaitsAt i t ↔ q.WaitsAt i t)

lemma Linked.change [DecidableEq Token] (h : Linked q) {user : User Token}
    (c : Changes q q' u user) : Linked q' := by
  have hs : q'.users u = user := by rw [c.users, update_self]
  have hold {v : ℕ} (hne : v ≠ u) : q'.users v = q.users v := by rw [c.users, update_of_ne hne]
  have hk {v : ℕ} (hv : v ∈ q.waitingUsers) (heq : (q.users v).token = user.token) :
      v = u := by
    have hl := h.listed v hv
    rw [heq] at hl
    obtain hn | ⟨hn, _⟩ := c.name
    · rw [hn] at hl
      exact (Option.some.inj hl).symm
    · rw [hn] at hl
      cases hl
  have hu : ∀ v ∈ q'.waitingUsers,
      q'.waitingUsersByName (q'.users v).token = some v ∧ q'.order v < q'.globalOrder ∧
        v < q'.nextUser ∧ (q'.users v).qry ≠ [] ∧ (q'.users v).qry.Nodup ∧
        ∀ i, i ∈ (q'.users v).qry ↔ q'.WaitsAt i (q'.users v).token := by
    intro v hv
    rw [order, c.byName]
    obtain ⟨hv, hne⟩ | ⟨rfl, hf⟩ := (c.byPriority v).1 hv
    · have ho : (q.users v).token ≠ user.token := fun heq => hne (hk hv heq)
      rw [hold hne, update_of_ne ho]
      exact ⟨h.listed v hv, (h.drawn v hv).trans_le c.drawn.1,
        (h.allocated v hv).trans_le c.allocated.1, h.filled v hv, h.nodup v hv,
        fun i => (h.queued v hv i).trans (c.others i _ ho).symm⟩
    · rw [hs, update_self, if_neg hf]
      exact ⟨rfl, c.drawn.2, c.allocated.2, hf, c.nodup, c.queued⟩
  constructor
  case alive => exact c.alive.trans h.alive
  case listed => exact fun v hv => (hu v hv).1
  case ordered => exact c.ordered
  case drawn => exact fun v hv => (hu v hv).2.1
  case allocated => exact fun v hv => (hu v hv).2.2.1
  case filled => exact fun v hv => (hu v hv).2.2.2.1
  case nodup => exact fun v hv => (hu v hv).2.2.2.2.1
  case queued => exact fun v hv => (hu v hv).2.2.2.2.2
  case named =>
    intro t v hv
    rw [c.byName] at hv
    by_cases ht : t = user.token
    · rw [ht, update_self] at hv
      split_ifs at hv with ha
      obtain rfl := Option.some.inj hv
      exact ⟨(c.byPriority u).2 (.inr ⟨rfl, ha⟩), by rw [hs, ht]⟩
    · rw [update_of_ne ht] at hv
      obtain ⟨hm, heq⟩ := h.named t v hv
      have hne : v ≠ u := by
        rintro rfl
        obtain hn | ⟨_, hb⟩ := c.name
        · exact ht (heq.symm.trans (h.named _ _ hn).2)
        · exact hb hm
      exact ⟨(c.byPriority v).2 (.inl ⟨hm, hne⟩), by rw [hold hne, heq]⟩
  case waiting =>
    intro i t hw
    rw [c.byName]
    by_cases ht : t = user.token
    · have hm : i ∈ user.qry := (c.queued i).2 (ht ▸ hw)
      exact ⟨u, by rw [ht, update_self, if_neg (ne_nil_of_mem hm)]⟩
    · rw [update_of_ne ht]
      exact h.waiting i t ((c.others i t ht).1 hw)

lemma order_update (user : User Token) (users : q'.users = update q.users u user)
    (same : user.order = q.order u) (v : ℕ) : q'.order v = q.order v := by
  rw [order, users]
  by_cases hv : v = u
  · rw [hv, update_self, same]
  · rw [update_of_ne hv, order]

lemma mem_iff_of_mem {l : List ℕ} {P : Prop} (hu : u ∈ l) (hP : P) :
    v ∈ l ↔ v ∈ l ∧ v ≠ u ∨ v = u ∧ P := by
  by_cases hv : v = u
  · simp [hv, hu, hP]
  · simp [hv]

lemma waitsAt_of_ne {t : Token} (hw : q.WaitsAt i token) (ht : t ≠ token) :
    q.WaitsAt j t ∧ j ≠ i ↔ q.WaitsAt j t := by
  rw [and_iff_left_iff_imp]
  rintro hj rfl
  rw [WaitsAt, hw] at hj
  exact ht (congrArg Call.token (Option.some.inj hj)).symm

lemma waitsAt_concat (calls : q'.calls = q.calls ++ [⟨token, s⟩]) {t : Token} :
    q'.WaitsAt i t ↔ q.WaitsAt i t ∨ i = q.calls.length ∧ token = t ∧ s = .waiting := by
  rw [WaitsAt, calls, getElem?_concat, Call.mk.injEq]
  rfl

section Add

variable [DecidableEq Token]

/-- The call joins the list of its user. -/
def joinUser (q : Queue T Token) (token : Token) (u : ℕ) : Queue T Token :=
  { q.setUser u { q.users u with qry := (q.users u).qry ++ [q.calls.length] } with
    calls := q.calls ++ [⟨token, .waiting⟩] }

/-- The user starts to wait. -/
def startUser (q : Queue T Token) (token : Token) : Queue T Token :=
  let q' := q.setUser q.nextUser ⟨token, [q.calls.length], q.globalOrder⟩
  { q' with
    globalOrder := q.globalOrder + 1
    nextUser := q.nextUser + 1
    waitingUsersByName := update q.waitingUsersByName token (some q.nextUser)
    waitingUsersByPriority := T.replaceOrInsert q'.order q.nextUser q.waitingUsersByPriority
    calls := q.calls ++ [⟨token, .waiting⟩] }

/-- The fast path. -/
def admitFast (q : Queue T Token) (token : Token) : Queue T Token := { q with
    globalOrder := q.globalOrder + 1
    activeQuery := q.activeQuery + 1
    calls := q.calls ++ [⟨token, .admitted⟩] }

/-- What a new call can do. -/
lemma addUserQueryLocked_cases (q : Queue T Token) (token : Token) :
    (∃ u, q.waitingUsersByName token = some u ∧
        q.addUserQueryLocked token = (q.joinUser token u, false)) ∨
      (q.waitingUsersByName token = none ∧ q.activeQuery < q.maxActiveQuery ∧
        q.addUserQueryLocked token = (q.admitFast token, true)) ∨
      (q.waitingUsersByName token = none ∧ ¬ q.activeQuery < q.maxActiveQuery ∧
        q.addUserQueryLocked token = (q.startUser token, false)) := by
  unfold addUserQueryLocked
  cases hn : q.waitingUsersByName token with
  | some u => exact .inl ⟨u, rfl, rfl⟩
  | none =>
    by_cases hf : q.activeQuery < q.maxActiveQuery
    · simp only [if_pos hf]
      exact .inr (.inl ⟨trivial, hf, rfl⟩)
    · simp only [if_neg hf]
      exact .inr (.inr ⟨trivial, hf, rfl⟩)

omit [DecidableEq Token] in
lemma Linked.admitFast (h : Linked q) (token : Token) : Linked (q.admitFast token) := by
  refine h.of_calls rfl rfl rfl rfl (le_succ _) rfl ?_
  intro i t
  rw [waitsAt_concat rfl]
  simp

lemma Linked.joinUser (h : Linked q) (hbyName : q.waitingUsersByName token = some u) :
    Linked (q.joinUser token u) := by
  obtain ⟨hu, rfl⟩ := h.named token u hbyName
  have hf : (q.users u).qry ++ [q.calls.length] ≠ [] := by simp
  have hr : (q.joinUser (q.users u).token u).users =
      update q.users u { q.users u with qry := (q.users u).qry ++ [q.calls.length] } := rfl
  have c : Changes q (q.joinUser (q.users u).token u) u
      { q.users u with qry := (q.users u).qry ++ [q.calls.length] } := by
    constructor
    case alive => rfl
    case name => exact .inl hbyName
    case users => rfl
    case byName => rw [if_neg hf, ← hbyName, update_eq_self]; rfl
    case byPriority => exact fun v => mem_iff_of_mem hu hf
    case ordered => exact h.ordered.congr fun v _ => order_update _ hr rfl v
    case drawn => exact ⟨le_rfl, h.drawn u hu⟩
    case allocated => exact ⟨le_rfl, h.allocated u hu⟩
    case nodup =>
      apply (h.nodup u hu).append (nodup_singleton _)
      intro i hi hl
      have hw := (h.queued u hu i).1 hi
      exact absurd (List.getElem?_eq_some_iff.1 hw).1 (by simp [mem_singleton.1 hl])
    case queued =>
      intro i
      rw [waitsAt_concat rfl, mem_append, mem_singleton, h.queued u hu i]
      simp
    case others =>
      intro i t ht
      rw [waitsAt_concat rfl]
      simp [ht.symm]
  exact h.change c

lemma Linked.startUser (h : Linked q) (hbyName : q.waitingUsersByName token = none) :
    Linked (q.startUser token) := by
  have ho : q.nextUser ∉ q.waitingUsers := fun hm => lt_irrefl _ (h.allocated _ hm)
  have ha : (q.startUser token).users q.nextUser = ⟨token, [q.calls.length], q.globalOrder⟩ :=
    update_self _ _ _
  have hold {v : ℕ} hv : (q.startUser token).users v = q.users v :=
    update_of_ne (ne_of_mem_of_not_mem hv ho) _ _
  have he {v : ℕ} hv :
      (q.startUser token).order v = q.order v := congrArg User.order (hold hv)
  have hy : (q.startUser token).order q.nextUser = q.globalOrder := congrArg User.order ha
  have hk : ∀ v ∈ q.waitingUsers,
      (q.startUser token).order v ≠ (q.startUser token).order q.nextUser := by
    intro v hv
    rw [he hv, hy]
    exact (h.drawn v hv).ne
  have ht : Ordered (q.startUser token).order q.waitingUsers := h.ordered.congr fun v hv => he hv
  have c : Changes q (q.startUser token) q.nextUser ⟨token, [q.calls.length], q.globalOrder⟩ := by
    constructor
    case alive => rfl
    case name => exact .inr ⟨hbyName, ho⟩
    case users => rfl
    case byName => rfl
    case byPriority =>
      intro v
      apply (T.mem_replaceOrInsert ht hk).trans
      by_cases hv : v = q.nextUser
      · simp [hv]
      · simp [hv, waitingUsers]
    case ordered => exact T.ordered_replaceOrInsert ht hk
    case drawn => exact ⟨le_succ _, lt_succ_self _⟩
    case allocated => exact ⟨le_succ _, lt_succ_self _⟩
    case nodup => exact nodup_singleton _
    case queued =>
      intro i
      have hn : ¬q.WaitsAt i token := by
        intro hw
        obtain ⟨v, hv⟩ := h.waiting i token hw
        rw [hbyName] at hv
        cases hv
      rw [waitsAt_concat rfl]
      simp [hn]
    case others =>
      intro i t ht
      rw [waitsAt_concat rfl]
      simp [ht.symm]
  exact h.change c

lemma Linked.addUserQueryLocked (h : Linked q) (token : Token) :
    Linked (q.addUserQueryLocked token).1 := by
  obtain ⟨u, hn, heq⟩ | ⟨_, _, heq⟩ | ⟨hn, _, heq⟩ := q.addUserQueryLocked_cases token
  · rw [heq]
    exact h.joinUser hn
  · rw [heq]
    exact h.admitFast token
  · rw [heq]
    exact h.startUser hn

end Add

section Next

variable [DecidableEq Token]

/-- Nothing is handed over, or the first query of the first user is. -/
lemma Linked.nextQueryLocked_cases (h : Linked q) : (q.nextQueryLocked = q ∧
        (q.activeQuery = q.maxActiveQuery ∨ q.waitingUsers = [])) ∨
      ∃ u rest i qry, q.activeQuery ≠ q.maxActiveQuery ∧
        q.waitingUsers = u :: T.items rest ∧ (q.users u).qry = i :: qry ∧
        q.nextQueryLocked = q.handOver u rest i qry := by
  unfold nextQueryLocked
  by_cases hf : q.activeQuery = q.maxActiveQuery
  · rw [if_pos hf]
    exact .inl ⟨rfl, .inl hf⟩
  · rw [if_neg hf]
    have hi : q.waitingUsers = _ := T.items_deleteMin q.waitingUsersByPriority
    rcases ht : T.deleteMin q.waitingUsersByPriority with _ | ⟨u, rest⟩
    · rw [ht] at hi
      exact .inl ⟨rfl, .inr hi⟩
    · rw [ht] at hi
      cases hq : (q.users u).qry with
      | nil => exact absurd hq (h.filled u (by rw [hi]; exact .head _))
      | cons i qry => exact .inr ⟨u, rest, i, qry, hf, hi, hq, by simp [hq]⟩

variable {u i : ℕ} {rest : T.Tree} {qry : List ℕ}

lemma handOver_eq : q.handOver u rest i qry =
    { (q.setUser u { q.users u with order := q.globalOrder, qry }).setStatus i .handedOver with
      globalOrder := q.globalOrder + 1
      activeQuery := q.activeQuery + 1
      waitingUsersByName :=
        if qry = [] then update q.waitingUsersByName (q.users u).token none
        else q.waitingUsersByName
      waitingUsersByPriority :=
        if qry = [] then rest
        else T.replaceOrInsert
          (q.setUser u { q.users u with order := q.globalOrder, qry }).order u rest } := by
  unfold handOver
  split_ifs <;> rfl

lemma Linked.handOver (h : Linked q) (front : q.waitingUsers = u :: T.items rest)
    (queries : (q.users u).qry = i :: qry) : Linked (q.handOver u rest i qry) := by
  have hu : u ∈ q.waitingUsers := by simp [front]
  have hi : q.WaitsAt i (q.users u).token := by
    rw [← h.queued u hu, queries]
    exact .head _
  have hn := h.nodup u hu
  rw [queries, nodup_cons] at hn
  have ho := h.ordered
  rw [front] at ho
  have hne {v : ℕ} (hv : v ∈ T.items rest) : v ≠ u := by
    rintro rfl
    exact lt_irrefl _ (ho.head_lt hv)
  have hm {v : ℕ} : v ∈ T.items rest ↔ v ∈ q.waitingUsers ∧ v ≠ u := by
    rw [front, mem_cons]
    exact ⟨fun hv => ⟨.inr hv, hne hv⟩, fun hv => hv.1.resolve_left hv.2⟩
  let q₁ := q.setUser u { q.users u with order := q.globalOrder, qry }
  have he : ∀ v ∈ T.items rest, q₁.order v = q.order v := fun v hv =>
    congrArg User.order (update_of_ne (hne hv) _ _)
  have hk : ∀ v ∈ T.items rest, q₁.order v ≠ q₁.order u := by
    intro v hv
    have hl : q₁.order u = q.globalOrder := congrArg User.order (update_self u _ q.users)
    rw [he v hv, hl]
    exact (h.drawn v (hm.1 hv).1).ne
  have hr := Ordered.congr (pairwise_cons.1 ho).2 he
  rw [handOver_eq]
  refine h.change (?_ : Changes q _ u { q.users u with order := q.globalOrder, qry })
  constructor
  case alive => rfl
  case name => exact .inl (h.listed u hu)
  case users => rfl
  case byName =>
    split_ifs
    · rfl
    · exact (update_eq_self_iff.2 (h.listed u hu).symm).symm
  case byPriority =>
    intro v
    rw [← hm, waitingUsers]
    split_ifs with ha
    · simp [ha]
    · exact (T.mem_replaceOrInsert hr hk).trans (by simp [ha, or_comm])
  case ordered =>
    rw [waitingUsers]
    split_ifs
    · exact hr
    · exact T.ordered_replaceOrInsert hr hk
  case drawn => exact ⟨le_succ _, lt_succ_self _⟩
  case allocated => exact ⟨le_rfl, h.allocated u hu⟩
  case nodup => exact hn.2
  case queued =>
    intro j
    have hj := h.queued u hu j
    rw [queries, mem_cons] at hj
    have hw : (q.setStatus i .handedOver).WaitsAt j (q.users u).token ↔ _ :=
      waitsAt_setStatus (by decide)
    rw [← hj] at hw
    refine Iff.trans ?_ hw.symm
    constructor
    · intro hm
      exact ⟨.inr hm, ne_of_mem_of_not_mem hm hn.1⟩
    · rintro ⟨hb, hji⟩
      exact hb.resolve_left hji
  case others =>
    intro j t ht
    exact (waitsAt_setStatus (by decide)).trans (waitsAt_of_ne hi ht)

end Next

section Cancel

variable [DecidableEq Token] {token : Token} {u i : ℕ}

/-- A call that gives up is taken out of the list of its user. -/
def leaveUser (q : Queue T Token) (u i : ℕ) : Queue T Token :=
  (q.setUser u { q.users u with qry := (q.users u).qry.erase i }).setStatus i .cancelled

/-- The last call of a user takes the user with it. -/
def leaveWithUser (q : Queue T Token) (token : Token) (u i : ℕ) : Queue T Token :=
  { q.leaveUser u i with
    waitingUsersByPriority := T.delete (q.leaveUser u i).order u q.waitingUsersByPriority
    waitingUsersByName := update q.waitingUsersByName token none }

lemma removeQueryLocked_cases (byName : q.waitingUsersByName token = some u) :
    (((q.users u).qry.erase i = [] ∧
        (q.removeQueryLocked token i).setStatus i .cancelled = q.leaveWithUser token u i) ∨
      (q.users u).qry.erase i ≠ [] ∧
        (q.removeQueryLocked token i).setStatus i .cancelled = q.leaveUser u i) := by
  have hs : (q.setUser u { q.users u with qry := (q.users u).qry.erase i }).users u =
      { q.users u with qry := (q.users u).qry.erase i } := update_self _ _ _
  simp only [removeQueryLocked, byName, hs]
  by_cases hl : (q.users u).qry.erase i = []
  · rw [if_pos hl]
    exact .inl ⟨hl, rfl⟩
  · rw [if_neg hl]
    exact .inr ⟨hl, rfl⟩

omit [DecidableEq Token] in
lemma leaveUser_order (v : ℕ) : (q.leaveUser u i).order v = q.order v :=
  order_update { q.users u with qry := (q.users u).qry.erase i } rfl rfl v

/-- The user stays if it has other queries. -/
lemma Linked.leave (h : Linked q) {byName : Token → Option ℕ} {byPriority : T.Tree}
    (hu : u ∈ q.waitingUsers) (hi : i ∈ (q.users u).qry)
    (hbyName : byName = update q.waitingUsersByName (q.users u).token
      (if (q.users u).qry.erase i = [] then none else some u))
    (hm : ∀ v, v ∈ T.items byPriority ↔
      v ∈ q.waitingUsers ∧ v ≠ u ∨ v = u ∧ (q.users u).qry.erase i ≠ [])
    (hordered : Ordered (q.leaveUser u i).order (T.items byPriority)) :
    Linked { q.leaveUser u i with
      waitingUsersByName := byName, waitingUsersByPriority := byPriority } := by
  refine h.change (?_ : Changes q _ u { q.users u with qry := (q.users u).qry.erase i })
  constructor
  case alive => rfl
  case name => exact .inl (h.listed u hu)
  case users => rfl
  case byName => exact hbyName
  case byPriority => exact hm
  case ordered => exact hordered
  case drawn => exact ⟨le_rfl, h.drawn u hu⟩
  case allocated => exact ⟨le_rfl, h.allocated u hu⟩
  case nodup => exact (h.nodup u hu).erase i
  case queued =>
    intro j
    rw [(h.nodup u hu).mem_erase_iff, h.queued u hu, and_comm]
    exact (waitsAt_setStatus (by decide)).symm
  case others =>
    intro j t ht
    exact (waitsAt_setStatus (by decide)).trans (waitsAt_of_ne ((h.queued u hu i).1 hi) ht)

/-- What giving up can do. -/
lemma Linked.removeQueryLocked (h : Linked q) (hw : q.WaitsAt i token) :
    ∃ u, q.waitingUsersByName token = some u ∧ i ∈ (q.users u).qry ∧
      ((q.removeQueryLocked token i).setStatus i .cancelled = q.leaveWithUser token u i ∨
        (q.removeQueryLocked token i).setStatus i .cancelled = q.leaveUser u i) ∧
      Linked ((q.removeQueryLocked token i).setStatus i .cancelled) := by
  obtain ⟨u, hn⟩ := h.waiting i token hw
  obtain ⟨hu, ht⟩ := h.named token u hn
  have hi : i ∈ (q.users u).qry := (h.queued u hu i).2 (ht ▸ hw)
  have ho : Ordered (q.leaveUser u i).order q.waitingUsers :=
    h.ordered.congr fun v _ => leaveUser_order v
  refine ⟨u, hn, hi, ?_⟩
  subst ht
  obtain ⟨hl, heq⟩ | ⟨hf, heq⟩ := removeQueryLocked_cases hn
  · refine ⟨.inl heq, ?_⟩
    rw [heq]
    refine h.leave hu hi (by rw [if_pos hl]) (fun v => ?_) (T.ordered_delete ho hu)
    rw [T.mem_delete ho hu]
    simp [hl, waitingUsers]
  · refine ⟨.inr heq, ?_⟩
    rw [heq]
    refine h.leave hu hi ?_ (fun v => mem_iff_of_mem hu hf) ho
    rw [if_neg hf, ← hn]
    exact (update_eq_self _ _).symm

end Cancel

end Queue

end QueryQueue
