import Mathlib.Tactic.Common

/-!
# The flush deadline of the balancer's buffer

The sender sleeps in `swap` until a fifth of the buffer is filled, the buffer is closed or the
timer of this call has fired. Sections under the mutex are atomic steps. The packets themselves
and what is left of the last batch play no role.
-/

namespace PktBuffer

inductive Sender where
  | outside
  /-- In `cond.Wait`. -/
  | asleep
  /-- Signalled, and about to take the mutex again. -/
  | woken
deriving DecidableEq

structure State where
  wi : Nat := 0
  closed : Bool := false
  /-- Calls of `close` that are between the mutex and the `Broadcast`. -/
  broadcasts : Nat := 0
  /-- The timer of the current `swap` has fired. -/
  timeout : Bool := false
  sender : Sender := .outside

inductive Action where
  | push
  | enterSwap
  | wakeUp
  | timer
  | close
  | broadcast
deriving DecidableEq

variable (bufferLen : Nat)

def State.signal (s : State) : State :=
  if s.sender = .asleep then { s with sender := .woken } else s

/-- The loop condition of `swap` and what follows the loop. -/
def State.checkSwap (s : State) : State :=
  if s.wi < bufferLen * 20 / 100 ∧ !s.closed ∧ !s.timeout then { s with sender := .asleep }
  else if s.closed then { s with sender := .outside }
  else { s with sender := .outside, wi := 0 }

/-- `none` if the action is not possible. -/
def step (s : State) : Action → Option State
  | .push => some (if bufferLen ≤ s.wi then s.signal else { s with wi := s.wi + 1 }.signal)
  | .enterSwap =>
    if s.sender = .outside then some ({ s with timeout := false }.checkSwap bufferLen) else none
  | .wakeUp => if s.sender = .woken then some (s.checkSwap bufferLen) else none
  -- the callback does not signal
  | .timer => if s.sender ≠ .outside then some { s with timeout := true } else none
  | .close => some { s with closed := true, broadcasts := s.broadcasts + 1 }
  | .broadcast =>
    if 0 < s.broadcasts then some { s with broadcasts := s.broadcasts - 1 }.signal else none

/-- The sender sleeps and no wake-up is under way. -/
def State.Blocked (s : State) : Prop := s.sender = .asleep ∧ s.broadcasts = 0

/-- It is blocked although there is a reason to go on. -/
def State.Stuck (s : State) : Prop :=
  s.Blocked ∧ (s.timeout ∨ s.closed ∨ bufferLen * 20 / 100 ≤ s.wi)

/-- What holds of each step of a run. -/
def Along (p : State → Action → State → Prop) : State → List Action → Prop
  | _, [] => True
  | s, a :: actions => ∀ s', step bufferLen s a = some s' → p s a s' ∧ Along p s' actions

variable {bufferLen} {s s' : State} {a : Action}

lemma State.signal_awake (s : State) : s.signal.sender ≠ .asleep := by
  rw [State.signal]
  split_ifs with h
  · simp
  · exact h

lemma State.checkSwap_not_stuck (s : State) : ¬(s.checkSwap bufferLen).Stuck bufferLen := by
  rw [State.checkSwap]
  split_ifs with h
  · simp only [Bool.not_eq_true'] at h
    simp [State.Stuck, h.2.1, h.2.2, h.1]
  · simp [State.Stuck, State.Blocked]
  · simp [State.Stuck, State.Blocked]

/-- Only the timer of a blocked sender gets it stuck. -/
lemma step_stuck_iff (h : step bufferLen s a = some s') :
    ¬s'.Stuck bufferLen ↔ (a = .timer → ¬s.Blocked) := by
  cases a with
  | timer =>
    rw [step] at h
    split_ifs at h
    cases h
    simp [State.Stuck, State.Blocked]
  | push =>
    cases h
    refine iff_of_true (fun hs => ?_) (by simp)
    split_ifs at hs <;> exact State.signal_awake _ hs.1.1
  | enterSwap | wakeUp =>
    rw [step] at h
    split_ifs at h
    cases h
    exact iff_of_true (State.checkSwap_not_stuck _) (by simp)
  | close =>
    cases h
    simp [State.Stuck, State.Blocked]
  | broadcast =>
    rw [step] at h
    split_ifs at h
    cases h
    exact iff_of_true (fun hs => State.signal_awake _ hs.1.1) (by simp)

/-- The sender is never stuck in a run exactly when no timer fires while it is blocked. -/
theorem never_stuck_iff (bufferLen : Nat) (actions : List Action) :
    Along bufferLen (fun _ _ s' => ¬s'.Stuck bufferLen) {} actions ↔
      Along bufferLen (fun s a _ => a = .timer → ¬s.Blocked) {} actions := by
  generalize ({} : State) = s
  induction actions generalizing s with
  | nil => exact .rfl
  | cons a actions ih =>
    refine forall_congr' fun s' => forall_congr' fun h => ?_
    exact and_congr (step_stuck_iff h) (ih s')

/-- One packet comes, the sender goes to sleep, its timer fires: it sleeps on. -/
theorem timer_does_not_wake : ([.push, .enterSwap, .timer].foldlM (step 100) {}).map
    (fun s => (s.sender, s.timeout, s.wi)) = some (.asleep, true, 1) := by
  decide

end PktBuffer
