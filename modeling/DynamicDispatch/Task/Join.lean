import DynamicDispatch.Task.Run

/-!
# Joining the children of a parallel task

A join reads reports in their order of arrival. It succeeds with all values by position once none is
missing, and fails with the first failure that arrives.
-/

namespace DynamicDispatch.Join

variable {C : Type}

/-- The join of a number of children of which none has reported. -/
def start (n : Nat) : Join C := ⟨List.replicate n none, n⟩

/-- The values received, by position. -/
def values (j : Join C) : List (Value C) := j.slots.map (·.getD .nil)

/-- The join with a success received. -/
def receive (j : Join C) (position : Nat) (v : Value C) : Join C :=
  ⟨j.slots.set position (some v), j.missing - 1⟩

/-- Reads reports until the join is over: its outcome, or the join that waits for more. With no
sender left a missing report can never come. -/
def drain (senders : Nat) : Join C → List (Nat × Outcome (Value C)) → Outcome (Value C) ⊕ Join C
  | j, [] =>
    if j.missing = 0 then .inl ⟨.success, .list j.values⟩
    else if senders = 0 then .inl ⟨.failure, .text "task dropped before settling"⟩
    else .inr j
  | j, (position, outcome) :: reports =>
    if j.missing = 0 then .inl ⟨.success, .list j.values⟩
    else match outcome.side with
      | .failure => .inl outcome
      | .success => drain senders (j.receive position outcome.value) reports

end DynamicDispatch.Join
