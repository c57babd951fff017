import QuasiNewton.Fault

/-!
# Attempts

Computations that may fail and that change a state. The state survives a failure, so that whatever
was counted or entered before it stays counted and entered. `Attempt.outcome` says what an attempt
makes of a state; it takes attempts apart, one lemma for each way to put them together.
-/

set_option autoImplicit false

namespace QuasiNewton

/-- A computation that may fail and that works on a state of type `σ`, which survives a failure. -/
abbrev Attempt (α σ β : Type) : Type := ExceptT (Fault α) (StateM σ) β

namespace Attempt

variable {α σ τ β γ : Type}

/-- What an attempt makes of a state: its result or its failure, and the state after it. -/
def outcome (a : Attempt α σ β) (state : σ) : Except (Fault α) β × σ := a.run.run state

/-- Operands that do not fit make an attempt fail. -/
def ofOperands : Except Mismatch β → Attempt α σ β
  | .ok x => pure x
  | .error cause => throw (.mismatch cause)

/-- A decided outcome, as an attempt that does not touch the state. -/
def ofExcept : Except (Fault α) β → Attempt α σ β
  | .ok x => pure x
  | .error fault => throw fault

/-- An attempt on a part of the state. -/
def onPart (read : σ → τ) (write : τ → σ → σ) (a : Attempt α τ β) : Attempt α σ β := fun state =>
  let (result, part) := a.outcome (read state)
  (result, write part state)

@[simp] theorem outcome_pure (x : β) (state : σ) :
    (pure x : Attempt α σ β).outcome state = (.ok x, state) := rfl

@[simp] theorem outcome_throw (fault : Fault α) (state : σ) :
    (throw fault : Attempt α σ β).outcome state = (.error fault, state) := rfl

@[simp] theorem outcome_get (state : σ) : (get : Attempt α σ σ).outcome state = (.ok state, state) :=
  rfl

@[simp] theorem outcome_modify (f : σ → σ) (state : σ) :
    (modify f : Attempt α σ PUnit).outcome state = (.ok ⟨⟩, f state) := rfl

@[simp] theorem outcome_ofOperands_ok (x : β) (state : σ) :
    (ofOperands (.ok x) : Attempt α σ β).outcome state = (.ok x, state) := rfl

@[simp] theorem outcome_ofOperands_error (cause : Mismatch) (state : σ) :
    (ofOperands (.error cause) : Attempt α σ β).outcome state = (.error (.mismatch cause), state) :=
  rfl

@[simp] theorem outcome_ofExcept (r : Except (Fault α) β) (state : σ) :
    (ofExcept r : Attempt α σ β).outcome state = (r, state) := by
  cases r <;> rfl

@[simp] theorem outcome_onPart (read : σ → τ) (write : τ → σ → σ) (a : Attempt α τ β) (state : σ) :
    (onPart read write a : Attempt α σ β).outcome state =
      ((a.outcome (read state)).1, write (a.outcome (read state)).2 state) := rfl

/-- What follows an attempt sees its result and the state after it, and is left out if it fails. -/
theorem outcome_bind (a : Attempt α σ β) (next : β → Attempt α σ γ) (state : σ) :
    (a >>= next).outcome state =
      match a.outcome state with
      | (.ok x, after) => (next x).outcome after
      | (.error fault, after) => (.error fault, after) := by
  simp only [outcome, ExceptT.run_bind, StateT.run_bind]
  cases a.run.run state with
  | mk result after => cases result <;> rfl

/-- A handler sees the failure and the state after it. -/
theorem outcome_tryCatch (a : Attempt α σ β) (handler : Fault α → Attempt α σ β) (state : σ) :
    (tryCatch a handler).outcome state =
      match a.outcome state with
      | (.ok x, after) => (.ok x, after)
      | (.error fault, after) => (handler fault).outcome after := by
  simp only [outcome, tryCatch, tryCatchThe, MonadExceptOf.tryCatch, ExceptT.tryCatch, StateT.run,
    ExceptT.mk, ExceptT.run, bind, StateT.bind]
  rcases a state with ⟨result, after⟩
  cases result <;> rfl

end Attempt

end QuasiNewton
