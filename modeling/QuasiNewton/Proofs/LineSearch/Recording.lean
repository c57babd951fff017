import QuasiNewton.LineSearch.Search
import QuasiNewton.Proofs.Outcomes

/-!
# Recorded searches

A line search asks its line for costs and slopes and knows nothing else of it. Two lines that answer
alike therefore lead a search to the same step, whatever their states are, and the states stay related:
`Method.search_simulates`. One such pair is a line and the same line with a list of all trials kept
beside its state, `Line.recorded`; what is proved of the recorded search is true of the search itself.
-/

set_option autoImplicit false

namespace QuasiNewton

variable {α σ τ : Type}

/-- A trial of a search: a step length and the cost found there. -/
structure Trial (α : Type) where
  alpha : α
  cost : α
deriving DecidableEq, Repr

namespace Attempt

variable {β : Type}

/-- An attempt beside another part of the state is the same attempt. -/
theorem onPart_simulates (a : Attempt α σ β) :
    (onPart Prod.fst (fun state s => (state, s.2)) a : Attempt α (σ × τ) β).Simulates (fun s state => s.1 = state) Eq
      a := by
  rintro ⟨state, rest⟩ _ rfl
  rw [outcome_onPart]
  rcases a.outcome state with ⟨result, after⟩
  cases result <;> simp

/-- It is the same attempt as well if its result is noted in the other part. -/
theorem noting_simulates (a : Attempt α σ β) (note : β → τ → τ) :
    Simulates (fun s state => s.1 = state) Eq
      (do
        let x ← (onPart Prod.fst (fun state s => (state, s.2)) a : Attempt α (σ × τ) β)
        modify fun s => (s.1, note x s.2)
        return x) a := by
  rintro ⟨state, rest⟩ _ rfl
  simp only [outcome_bind, outcome_onPart]
  rcases a.outcome state with ⟨result, after⟩
  cases result <;> simp

/-- Attempts that simulate each other also do so beside equal other parts of their states. -/
theorem Simulates.beside {ρ : Type} {R : σ → τ → Prop} {a : Attempt α σ β} {b : Attempt α τ β}
    (h : a.Simulates R Eq b) :
    Simulates (fun (s : σ × ρ) (t : τ × ρ) => R s.1 t.1 ∧ s.2 = t.2) Eq
      (onPart Prod.fst (fun state s => (state, s.2)) a) (onPart Prod.fst (fun state s => (state, s.2)) b) :=
  simulates_iff_corresponds.mpr ((simulates_iff_corresponds.mp h).onPart (fun _ _ related => related.1)
    fun _ _ _ _ related after => ⟨after, related.2⟩)

end Attempt

namespace Line

/-- The line that also keeps a list of the trials, the latest one last. -/
def recorded (line : Line α σ) : Line α (σ × List (Trial α)) where
  cost alpha := do
    let cost ← Attempt.onPart Prod.fst (fun state s => (state, s.2)) (line.cost alpha)
    modify fun s => (s.1, s.2 ++ [⟨alpha, cost⟩])
    return cost
  slope alpha := Attempt.onPart Prod.fst (fun state s => (state, s.2)) (line.slope alpha)

/-- Two lines answer alike from related states and leave related states. -/
structure Simulates (R : σ → τ → Prop) (l : Line α σ) (m : Line α τ) : Prop where
  cost : ∀ alpha, (l.cost alpha).Simulates R Eq (m.cost alpha)
  slope : ∀ alpha, (l.slope alpha).Simulates R Eq (m.slope alpha)

/-- A line answers the same whether its trials are recorded or not. -/
theorem recorded_simulates (line : Line α σ) :
    line.recorded.Simulates (fun s state => s.1 = state) line where
  cost alpha := by
    have noted := (line.cost alpha).noting_simulates fun cost (trials : List (Trial α)) => trials ++ [⟨alpha, cost⟩]
    exact noted
  slope alpha := (line.slope alpha).onPart_simulates

/-- Lines that answer alike also do so if their trials are recorded. -/
theorem Simulates.recorded {R : σ → τ → Prop} {l : Line α σ} {m : Line α τ} (h : l.Simulates R m) :
    l.recorded.Simulates (fun s t => R s.1 t.1 ∧ s.2 = t.2) m.recorded where
  cost alpha := by
    refine (h.cost alpha).beside.bind fun cost _ same => ?_
    subst same
    exact Attempt.Simulates.bind (.change fun _ _ related => ⟨related.1, by rw [related.2]⟩) fun _ _ _ => .pure rfl
  slope alpha := (h.slope alpha).beside

end Line

variable [Scalar α] {R : σ → τ → Prop} {l : Line α σ} {m : Line α τ}

/-- What a line answers at positive step lengths: from a state that satisfies `I` it answers costs
related to the step length by `Φ` and slopes related to it by `Ψ`, it fails with faults that satisfy `E`
only, and the state satisfies `I` again. -/
structure Line.Answers (line : Line α σ) (I : σ → Prop) (Φ Ψ : α → α → Prop) (E : Fault α → Prop) :
    Prop where
  cost : ∀ alpha, 0 < alpha → ∀ s, I s →
    (line.cost alpha).Ensures s (fun cost t => Φ alpha cost ∧ I t) fun fault t => E fault ∧ I t
  slope : ∀ alpha, 0 < alpha → ∀ s, I s →
    (line.slope alpha).Ensures s (fun slope t => Ψ alpha slope ∧ I t) fun fault t => E fault ∧ I t

/-- A recorded state in which all trials were made ahead of the start and answered by the line. -/
structure Line.Recorded (I : σ → Prop) (Φ : α → α → Prop) (s : σ × List (Trial α)) : Prop where
  state : I s.1
  positive : ∀ t ∈ s.2, 0 < t.alpha
  answered : ∀ t ∈ s.2, Φ t.alpha t.cost

namespace Line.Answers

variable {line : Line α σ} {I : σ → Prop} {Φ Ψ : α → α → Prop} {E : Fault α → Prop}
  {alpha : α} {s : σ × List (Trial α)}

/-- A recorded line answers the same costs and adds each of them to its list. -/
theorem recorded_cost (h : line.Answers I Φ Ψ E) (positive : 0 < alpha)
    (hs : Recorded I Φ s) :
    (line.recorded.cost alpha).Ensures s
      (fun cost t => Recorded I Φ t ∧ t.2 = s.2 ++ [⟨alpha, cost⟩])
      fun fault t => E fault ∧ Recorded I Φ t := by
  simp only [recorded, Attempt.ensures_bind, Attempt.ensures_onPart, Attempt.ensures_modify,
    Attempt.ensures_pure]
  refine (h.cost alpha positive s.1 hs.state).mono (fun cost t answer => ?_) fun fault t failed => ?_
  · refine ⟨⟨answer.2, ?_, ?_⟩, trivial⟩ <;> intro u hu <;>
      rcases List.mem_append.mp hu with hu | hu
    · exact hs.positive u hu
    · exact List.mem_singleton.mp hu ▸ positive
    · exact hs.answered u hu
    · exact List.mem_singleton.mp hu ▸ answer.1
  · exact ⟨failed.1, failed.2, hs.positive, hs.answered⟩

theorem recorded_slope (h : line.Answers I Φ Ψ E) (positive : 0 < alpha)
    (hs : Recorded I Φ s) :
    (line.recorded.slope alpha).Ensures s
      (fun slope t => Ψ alpha slope ∧ Recorded I Φ t ∧ t.2 = s.2)
      fun fault t => E fault ∧ Recorded I Φ t := by
  simp only [recorded, Attempt.ensures_onPart]
  refine (h.slope alpha positive s.1 hs.state).mono (fun slope t answer => ?_) fun fault t failed => ?_
  · exact ⟨answer.1, ⟨answer.2, hs.positive, hs.answered⟩, trivial⟩
  · exact ⟨failed.1, failed.2, hs.positive, hs.answered⟩

end Line.Answers

open Attempt (Simulates)

namespace Backtracking

variable (s : Backtracking α) (startCost startSlope : α)

theorem searchFrom_simulates (h : l.Simulates R m) (left : Nat) (alpha : α) :
    (s.searchFrom l startCost startSlope left alpha).Simulates R Eq
      (s.searchFrom m startCost startSlope left alpha) := by
  induction left generalizing alpha with
  | zero => exact .throw _
  | succ left ih =>
    refine (h.cost alpha).bind fun cost _ same => ?_
    subst same
    split
    · exact .pure rfl
    · exact ih _

end Backtracking

namespace Wolfe

variable (s : Wolfe α) (o : Origin α)

theorem halve_simulates (h : l.Simulates R m) (i : Interval α) :
    (s.halve l o i).Simulates R Eq (s.halve m o i) := by
  refine (h.cost i.middle).bind fun cost _ same => ?_
  subst same
  split
  · exact .pure rfl
  · refine (h.slope i.middle).bind fun slope _ same => ?_
    subst same
    split
    · exact .pure rfl
    · exact .pure rfl

theorem zoom_simulates (h : l.Simulates R m) (left trials : Nat) (i : Interval α) :
    (s.zoom l o left trials i).Simulates R Eq (s.zoom m o left trials i) := by
  induction left generalizing trials i with
  | zero => exact .pure rfl
  | succ left ih =>
    refine (s.halve_simulates o h i).bind fun halved _ same => ?_
    subst same
    cases halved with
    | found alpha cost => exact .pure rfl
    | narrowed half =>
      dsimp only
      split
      · exact .pure rfl
      · exact ih _ _

theorem bracket_simulates (h : l.Simulates R m) (left trials : Nat) (before costBefore alpha : α) :
    (s.bracket l o left trials before costBefore alpha).Simulates R Eq
      (s.bracket m o left trials before costBefore alpha) := by
  induction left generalizing trials before costBefore alpha with
  | zero => exact .pure rfl
  | succ left ih =>
    refine (h.cost alpha).bind fun cost _ same => ?_
    subst same
    split
    · exact s.zoom_simulates o h _ _ _
    · refine (h.slope alpha).bind fun slope _ same => ?_
      subst same
      split
      · exact .pure rfl
      · split
        · exact s.zoom_simulates o h _ _ _
        · exact ih _ _ _ _

theorem pursue_simulates (h : l.Simulates R m) : (s.pursue l o).Simulates R Eq (s.pursue m o) :=
  s.bracket_simulates o h _ _ _ _ _

end Wolfe

namespace Secant

variable (s : Secant α) (startSlope : α)

theorem locate_simulates (h : l.Simulates R m) (left : Nat) (before slopeBefore alpha : α) :
    (s.locate l startSlope left before slopeBefore alpha).Simulates R Eq
      (s.locate m startSlope left before slopeBefore alpha) := by
  induction left generalizing before slopeBefore alpha with
  | zero => exact .pure rfl
  | succ left ih =>
    refine (h.slope alpha).bind fun slope _ same => ?_
    subst same
    split
    · exact .pure rfl
    · dsimp only
      split
      · exact .throw _
      · exact ih _ _ _

end Secant

/-- **Lines that answer alike lead every method to the same step**, or to the same fault. -/
theorem Method.search_simulates (h : l.Simulates R m) (method : Method α) (startCost startSlope : α) :
    (method.search l startCost startSlope).Simulates R Eq
      (method.search m startCost startSlope) := by
  cases method with
  | backtracking s => exact s.searchFrom_simulates startCost startSlope h _ _
  | wolfe s =>
    refine (s.pursue_simulates ⟨startCost, startSlope⟩ h).bind fun ending _ same => ?_
    subst same
    exact .ofExcept _
  | secant s =>
    refine (s.locate_simulates startSlope h _ _ _ _).bind fun found _ same => ?_
    subst same
    refine (h.cost found.1).bind fun cost _ same => ?_
    subst same
    split
    · exact .throw _
    · exact .pure rfl

end QuasiNewton
