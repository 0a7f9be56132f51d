/-!
# Run statuses and their transitions

The six statuses of a run and the edges between them that `assert_run_transition` allows. The
four terminal ones have no way out, but for `interrupted`, which a rollback reclassifies as
`error`.
-/

namespace DeerFlow

inductive RunStatus where
  | pending | running | success | error | timeout | interrupted
  deriving DecidableEq, Repr

inductive DisconnectMode where
  | cancel | continue_
  deriving DecidableEq, Repr

namespace RunStatus

def value : RunStatus → String
  | pending => "pending"
  | running => "running"
  | success => "success"
  | error => "error"
  | timeout => "timeout"
  | interrupted => "interrupted"

def terminalRunStatuses : List RunStatus := [success, error, timeout, interrupted]

def legalRunTransitions : RunStatus → List RunStatus
  | pending => [running, success, error, timeout, interrupted]
  | running => [success, error, timeout, interrupted]
  | interrupted => [error]
  | success => []
  | error => []
  | timeout => []

def isTerminal (s : RunStatus) : Bool := s ∈ terminalRunStatuses

/-- `pending` or `running`. -/
def inflight (s : RunStatus) : Bool := s = pending || s = running

/-- `success`, `error` or `timeout`. -/
def settled : RunStatus → Bool
  | success | error | timeout => true
  | _ => false

/-- `assert_run_transition`: the text of the error it raises, if it does. -/
def assertRunTransition (current target : RunStatus) : Except String Unit :=
  if current = target then .ok ()
  else if target ∈ legalRunTransitions current then .ok ()
  else .error s!"Illegal run transition '{current.value}' → '{target.value}' (run state machine, PR-070)."

def Legal (current target : RunStatus) : Prop :=
  current = target ∨ target ∈ legalRunTransitions current

instance : DecidableRel Legal := fun _ _ => inferInstanceAs (Decidable (_ ∨ _))

variable {a b : RunStatus}

theorem assertRunTransition_ok :
    assertRunTransition a b = .ok () ↔ Legal a b := by
  unfold assertRunTransition Legal
  by_cases h : a = b
  · simp [h]
  · by_cases h' : b ∈ legalRunTransitions a <;> simp [h, h']

theorem isTerminal_iff (s : RunStatus) : s.isTerminal ↔ s.inflight = false := by
  cases s <;> decide

theorem Legal.trans {a b c : RunStatus} (h1 : Legal a b) (h2 : Legal b c) : Legal a c := by
  revert h1 h2
  cases a <;> cases b <;> cases c <;> decide

theorem Legal.refl (a : RunStatus) : Legal a a := .inl rfl

theorem Legal.of_terminal (h : Legal a b) (ha : a.isTerminal) :
    b = a ∨ (a = interrupted ∧ b = error) := by
  revert h ha
  cases a <;> cases b <;> decide

theorem legal_interrupted {a : RunStatus} (h : a.inflight) : Legal a interrupted := by
  revert h
  cases a <;> decide

theorem legal_interrupted_of_not_settled {a : RunStatus} (h : a.settled = false) :
    Legal a interrupted := by
  revert h
  cases a <;> decide

theorem inflight_of_legal (h : Legal a b) (hb : b.inflight) : a.inflight := by
  revert h hb
  cases a <;> cases b <;> decide

end RunStatus

end DeerFlow
