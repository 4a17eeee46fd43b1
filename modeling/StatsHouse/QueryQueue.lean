import StatsHouse.OrderedTree

/-!
# The queue of queries

`queue.Queue` lets at most `maxActiveQuery` queries run at a time. A query that has to wait is
put behind the other queries of its user, and users take turns: the tree of waiting users is
ordered by a counter that is drawn when a user starts to wait and again whenever one of its
queries is let in.

A call of `Acquire` is known by its place in the list of all calls, which also stands for the
query it waits with: the query's channel is closed when the call has been handed over. Between
its two sections under the lock a call waits for its channel or for its context. The tree is any
that meets the laws of `Trees`.
-/

namespace QueryQueue

open OrderedTree Function

universe u

inductive Status where
  /-- In the list of its user, the channel is open. -/
  | waiting
  /-- The channel is closed, `Acquire` has not returned yet. -/
  | handedOver
  /-- `Acquire` returned nil. -/
  | admitted
  /-- `Acquire` returned the error of its context. -/
  | cancelled
  /-- The holder called `Release`. -/
  | released
deriving Repr, DecidableEq

structure Call (Token : Type u) where
  token : Token
  status : Status
deriving Repr, DecidableEq

structure User (Token : Type u) where
  token : Token
  qry : List ℕ
  order : ℕ
deriving Repr, DecidableEq

/-- Users are objects that the map and the tree both point to. -/
structure Queue (T : Trees ℕ ℕ) (Token : Type u) where
  activeQuery : Int
  maxActiveQuery : Int
  users : ℕ → User Token
  nextUser : ℕ
  waitingUsersByName : Token → Option ℕ
  waitingUsersByPriority : T.Tree
  globalOrder : ℕ
  calls : List (Call Token)
  panicked : Bool

inductive Action (Token : Type u) where
  | acquire (token : Token)
  /-- The call finds its channel closed. -/
  | receive (call : ℕ)
  /-- The call finds its context done. -/
  | cancel (call : ℕ)
  | release (call : ℕ)
  | adjustCapacity (capacity : BitVec 64)
deriving Repr, DecidableEq

/-- An admitted query that is not released. -/
def Status.Active (s : Status) : Prop := s = .handedOver ∨ s = .admitted

instance : DecidablePred Status.Active := fun s =>
  inferInstanceAs (Decidable (s = .handedOver ∨ s = .admitted))

/-- Admitted at some time. -/
def Status.WasAdmitted (s : Status) : Prop := s.Active ∨ s = .released

instance : DecidablePred Status.WasAdmitted := fun s =>
  inferInstanceAs (Decidable (s.Active ∨ s = .released))

namespace Queue

variable {Token : Type u} [DecidableEq Token] [Inhabited Token]

def newQueue (T : Trees ℕ ℕ) (n : Int) : Queue T Token where
  activeQuery := 0
  maxActiveQuery := n
  users := fun _ => ⟨default, [], 0⟩
  nextUser := 0
  waitingUsersByName := fun _ => none
  waitingUsersByPriority := T.empty
  globalOrder := 0
  calls := []
  panicked := false

variable {T : Trees ℕ ℕ} (q : Queue T Token)

/-- The users in the tree, in ascending order. -/
def waitingUsers : List ℕ := T.items q.waitingUsersByPriority

def order (u : ℕ) : ℕ := (q.users u).order

def status (i : ℕ) : Option Status := (q.calls[i]?).map Call.status

def setStatus (i : ℕ) (s : Status) : Queue T Token :=
  { q with calls := q.calls.modify i fun c => { c with status := s } }

def setUser (u : ℕ) (user : User Token) : Queue T Token := { q with users := update q.users u user }

/-- The new call is the next one; the flag is the fast path. -/
def addUserQueryLocked (token : Token) : Queue T Token × Bool :=
  match q.waitingUsersByName token with
  | some u =>
    let q := q.setUser u { q.users u with qry := (q.users u).qry ++ [q.calls.length] }
    ({ q with calls := q.calls ++ [⟨token, .waiting⟩] }, false)
  | none =>
    let order := q.globalOrder
    let q := { q with globalOrder := q.globalOrder + 1 }
    if q.activeQuery < q.maxActiveQuery then
      ({ q with activeQuery := q.activeQuery + 1, calls := q.calls ++ [⟨token, .admitted⟩] }, true)
    else
      let u := q.nextUser
      let q := q.setUser u ⟨token, [q.calls.length], order⟩
      ({ q with
          nextUser := u + 1
          waitingUsersByName := update q.waitingUsersByName token (some u)
          waitingUsersByPriority := T.replaceOrInsert q.order u q.waitingUsersByPriority
          calls := q.calls ++ [⟨token, .waiting⟩] }, false)

def removeQueryLocked (token : Token) (e : ℕ) : Queue T Token :=
  match q.waitingUsersByName token with
  | none => q
  | some u =>
    let q := q.setUser u { q.users u with qry := (q.users u).qry.erase e }
    if (q.users u).qry = [] then
      { q with
        waitingUsersByPriority := T.delete q.order u q.waitingUsersByPriority
        waitingUsersByName := update q.waitingUsersByName token none }
    else q

/-- The first query of the first user is let in, and the user goes to the end of the order if it
has more queries. -/
def handOver (u : ℕ) (rest : T.Tree) (i : ℕ) (qry : List ℕ) : Queue T Token :=
  let user : User Token := { q.users u with order := q.globalOrder, qry }
  let q := { q.setUser u user with
    globalOrder := q.globalOrder + 1, waitingUsersByPriority := rest }
  let q :=
    if qry = [] then
      { q with waitingUsersByName := update q.waitingUsersByName user.token none }
    else { q with waitingUsersByPriority := T.replaceOrInsert q.order u rest }
  { q with activeQuery := q.activeQuery + 1 }.setStatus i .handedOver

def nextQueryLocked : Queue T Token :=
  if q.activeQuery = q.maxActiveQuery then q
  else
    match T.deleteMin q.waitingUsersByPriority with
    | none => q
    | some (u, rest) =>
      match (q.users u).qry with
      -- the front of an empty list is nil
      | [] => { q with panicked := true }
      | i :: qry => q.handOver u rest i qry

/-- `Acquire` until it waits or returns. -/
def acquire (token : Token) : Queue T Token :=
  let r := q.addUserQueryLocked token
  if r.2 then r.1 else r.1.nextQueryLocked

/-- The rest of `Acquire` when the channel is closed. -/
def receive (i : ℕ) : Queue T Token :=
  if q.status i = some .handedOver then q.setStatus i .admitted else q

/-- The rest of `Acquire` when the context is done. -/
def cancel (i : ℕ) : Queue T Token :=
  match q.calls[i]? with
  | some ⟨_, .handedOver⟩ => q.setStatus i .admitted
  | some ⟨token, .waiting⟩ => (q.removeQueryLocked token i).setStatus i .cancelled
  | _ => q

/-- `Release` by the holder that got the given call. -/
def release (i : ℕ) : Queue T Token :=
  if q.status i = some .admitted then
    { q.setStatus i .released with activeQuery := q.activeQuery - 1 }.nextQueryLocked
  else q

def adjustCapacity (capacity : BitVec 64) : Queue T Token :=
  { q with maxActiveQuery := capacity.toInt }

def step (a : Action Token) : Queue T Token :=
  if q.panicked then q
  else
    match a with
    | .acquire token => q.acquire token
    | .receive i => q.receive i
    | .cancel i => q.cancel i
    | .release i => q.release i
    | .adjustCapacity capacity => q.adjustCapacity capacity

def run (actions : List (Action Token)) : Queue T Token := actions.foldl step q

def IsActive (i : ℕ) : Prop := ∃ s, q.status i = some s ∧ s.Active

instance : DecidablePred q.IsActive := fun i =>
  match h : q.status i with
  | none => isFalse (by simp [IsActive, h])
  | some s => decidable_of_iff s.Active (by simp [IsActive, h])

/-- The number of queries that are admitted and not released. -/
def activeCalls : ℕ := q.calls.countP fun c => c.status.Active

/-- Some query of the user waits. -/
def Waits (token : Token) : Prop := ⟨token, .waiting⟩ ∈ q.calls

instance : DecidablePred q.Waits := fun token =>
  inferInstanceAs (Decidable (⟨token, .waiting⟩ ∈ q.calls))

/-- How many queries of the user have been admitted so far. -/
def admittedCalls (token : Token) : ℕ :=
  q.calls.countP fun c => c.token = token ∧ c.status.WasAdmitted

end Queue

/-- Percent of the capacity for each host that is down. -/
def shardLoadReductionRatio : Int := 25

/-- The capacity that `adjustSemCapacity` sets, if it sets one; a flag for each host that is up. -/
def adjustSemCapacity (up : List Bool) (maxSize : Int) : Option (BitVec 64) :=
  if up.length ≠ 3 then none
  else
    let loadFactor := 100 - shardLoadReductionRatio * (up.count false)
    let capacity := (maxSize * loadFactor).tdiv 100
    let capacity := if capacity = 0 ∧ maxSize > 0 ∧ loadFactor > 0 then 1 else capacity
    some (BitVec.ofInt 64 capacity)

end QueryQueue
