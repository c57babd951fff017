import QuasiNewton.Attempt
import QuasiNewton.Objective.Differences
import QuasiNewton.Objective.Problem
import QuasiNewton.Tensor.Family

/-!
# Counted evaluations

All evaluations of a problem go through this module. They are counted in a `Ledger`, which survives
failures, and checked: what comes back is a finite cost, or a gradient with finite entries and the
shape of the point. Without a gradient of its own a problem is differentiated by central differences,
whose evaluations of the cost are counted once all of them have succeeded.

The first point that is evaluated decides which family computes with the gradients.
-/

set_option autoImplicit false

namespace QuasiNewton

/-- The counts of evaluations beside the state of the problem. -/
structure Ledger (σ : Type) where
  /-- The family that computes with gradients, once it is known. -/
  family? : Option Family
  costCalls : Nat
  gradientCalls : Nat
  state : σ

namespace Ledger

variable {σ : Type}

/-- A ledger without evaluations. -/
def fresh (family? : Option Family) (state : σ) : Ledger σ := ⟨family?, 0, 0, state⟩

/-- The ledger after a number of evaluations of the cost. -/
def countCost (l : Ledger σ) (n : Nat) : Ledger σ := { l with costCalls := l.costCalls + n }

/-- The ledger after an evaluation of the gradient. -/
def countGradient (l : Ledger σ) : Ledger σ := { l with gradientCalls := l.gradientCalls + 1 }

end Ledger

/-- A computation with counted evaluations. -/
abbrev Evaluation (α σ β : Type) : Type := Attempt α (Ledger σ) β

namespace Evaluation

variable {α σ β ε : Type}

/-- Code of the problem, run on the state of the problem. -/
def consult (code : ExceptT ε (StateM σ) β) : Evaluation α σ (Except ε β) := do
  let ledger ← get
  let (outcome, state) := code.run.run ledger.state
  set { ledger with state }
  pure outcome

/-- A failure that the problem reported: a failed evaluation is passed on, all else becomes the given
failed evaluation. -/
def reported (r : Raised) (otherwise : String → EvaluationFault α) : Fault α :=
  if r.kind = .evaluation then .raised r else .evaluation (otherwise r.message)

/-- The family that computes with the gradients; the first point decides. -/
def family (x : Tensor α) : Evaluation α σ Family := do
  match (← get).family? with
  | some family => pure family
  | none =>
    let family ← Attempt.ofExcept (Family.ofTensor x)
    modify fun ledger => { ledger with family? := some family }
    pure family

end Evaluation

namespace Problem

open Evaluation

variable {α σ : Type} [Scalar α] (p : Problem α σ)

/-- The finite cost of a point. -/
def evaluateCost (x : Tensor α) : Evaluation α σ α := do
  let _ ← family x
  modify (Ledger.countCost · 1)
  match ← consult (p.cost x) with
  | .error report => throw (reported report .costFailed)
  | .ok cost => if Scalar.isFinite cost then pure cost else throw (.evaluation (.costNotFinite cost))

/-- The gradient at a point by central differences. -/
def differentiate (family : Family) (x : Tensor α) : Evaluation α σ (Tensor α) := do
  let cost := fun z => p.cost (family.adopt z x)
  match ← consult (Differences.gradient cost x.values Differences.standardStep) with
  | .ok gradient =>
    modify (Ledger.countCost · (Differences.evaluations x.values))
    pure (family.adopt gradient x)
  | .error (.raised report) => throw (reported report .gradientFailed)
  | .error fault => throw (.evaluation (.gradientFailed fault.text))

/-- What the problem answers for its gradient at a point, by differences if it has none. -/
def askGradient (family : Family) (x : Tensor α) : Evaluation α σ (Reply α) :=
  match p.gradient? with
  | none => return .tensor (← p.differentiate family x)
  | some gradient => do
    modify Ledger.countGradient
    match ← consult (gradient x) with
    | .ok reply => pure reply
    | .error report => throw (reported report .gradientFailed)

/-- An answer that has the shape of the point and finite entries; plain lists are turned into
arrays. -/
def checkGradient (family : Family) (x : Tensor α) : Reply α → Evaluation α σ (Tensor α)
  | .number _ => throw (.mismatch .noShape)
  | .tensor reply => do
    let gradient := if reply.family?.isNone then family.adopt reply.values x else reply
    let found ← Attempt.ofOperands gradient.shape
    let expected ← Attempt.ofOperands x.shape
    if found ≠ expected then throw (.evaluation (.gradientShape found expected))
    if ← Attempt.ofOperands (family.allFinite gradient) then pure gradient
    else throw (.evaluation .gradientNotFinite)

/-- The gradient at a point, with the shape of the point and finite entries. -/
def evaluateGradient (x : Tensor α) : Evaluation α σ (Tensor α) := do
  let family ← family x
  checkGradient family x (← p.askGradient family x)

end Problem

end QuasiNewton
