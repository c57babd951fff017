import QuasiNewton.LineSearch.Search
import QuasiNewton.Objective.Quadratic
import QuasiNewton.Proofs.LineSearch.Recording
import QuasiNewton.Proofs.Objective.Twins

/-!
# Steady problems

A problem is steady if what its cost and its gradient answer at a point depends on the point only, and
not on what was asked before. The code may still change its state. Once the family of a ledger is
known, the evaluations of a steady problem are functions of the point as well, gradients by central
differences included: `CostAt` and `GradientAt` name their values.
-/

set_option autoImplicit false

namespace QuasiNewton

open Attempt

variable {α σ β γ ε δ : Type}

/-- Code whose answer does not depend on the state in which it runs. -/
def SteadyCode (code : ExceptT ε (StateM σ) β) : Prop :=
  ∀ s t, (code.run.run s).1 = (code.run.run t).1

namespace SteadyCode

theorem pure (x : β) : SteadyCode (Pure.pure x : ExceptT ε (StateM σ) β) := fun _ _ => rfl

theorem throw (e : ε) : SteadyCode (MonadExcept.throw e : ExceptT ε (StateM σ) β) := fun _ _ => rfl

/-- Steady code is its own twin, whatever the states are. -/
theorem twin {code : ExceptT ε (StateM σ) β} (h : SteadyCode code) : Twin (fun _ _ => True) code code :=
  fun s t _ => ⟨h s t, trivial⟩

end SteadyCode

/-- Two ledgers of one known family. -/
def Ledger.Share (f : Family) (l m : Ledger σ) : Prop := l.family? = some f ∧ m.family? = some f

/-- Evaluations keep two ledgers at their family, whatever the states are. -/
theorem Ledger.share_matching (f : Family) :
    Ledger.Matching (fun _ _ => True) (Ledger.Share (σ := σ) f) where
  family _ _ related := related.1.trans related.2.symm
  state _ _ _ := trivial
  choose _ _ _ related own := absurd (related.1.symm.trans own) nofun
  countCost _ _ _ related := related
  countGradient _ _ related := related
  consult _ _ _ _ related _ := related

namespace Evaluation

/-- An evaluation that answers alike from ledgers of one family: what it answers from any ledger is
what it answers from every ledger of the family that is known afterwards. -/
theorem ensures_of_simulates {next : Family → Evaluation α σ β} {x : Tensor α}
    (h : ∀ f, (family x >>= next).Simulates (Ledger.Share f) Eq (family x >>= next)) (l : Ledger σ) :
    (family x >>= next).Ensures l
      (fun y t => ∃ f, t.family? = some f ∧ (∀ g ∈ l.family?, f = g) ∧
        ∀ m : Ledger σ, m.family? = some f → ((family x >>= next).outcome m).1 = .ok y)
      fun _ t => ∀ g ∈ l.family?, t.family? = some g := by
  have known (f : Family) (l : Ledger σ) (hl : l.family? = some f) :
      (family x >>= next).Ensures l
        (fun y t => t.family? = some f ∧
          ∀ m : Ledger σ, m.family? = some f → ((family x >>= next).outcome m).1 = .ok y)
        fun _ t => t.family? = some f := by
    have shared := (h f l l ⟨hl, hl⟩).1
    unfold Ensures
    rcases run : (family x >>= next).outcome l with ⟨result, t⟩
    rw [run] at shared
    cases result with
    | error fault => exact shared.1
    | ok y =>
      refine ⟨shared.1, fun m hm => ?_⟩
      rw [(h f).answer_eq ⟨hm, hl⟩, run]
  rcases own : l.family? with _ | f
  · rcases found : Family.ofTensor x with fault | f
    · have fails : (family x >>= next).outcome l = (.error fault, l) := by
        simp [outcome_bind, outcome_family, own, found]
      simp [Ensures, fails]
    · -- the point decides on the family, and the rest goes on as if it had been known before
      have same : (family x >>= next).outcome l =
          (family x >>= next).outcome { l with family? := some f } := by
        simp [outcome_bind, outcome_family, own, found]
      have decided := known f { l with family? := some f } rfl
      unfold Ensures at decided ⊢
      rw [same]
      split <;> simp_all
  · refine (known f l own).mono (fun y t => ?_) fun fault t ht => ?_
    · rintro ⟨ht, hy⟩
      exact ⟨f, ht, by simp, hy⟩
    · simpa using ht

end Evaluation

namespace Problem

open Evaluation

variable [Scalar α] {p : Problem α σ}

/-- A problem whose answers depend on the point only. -/
structure Steady (p : Problem α σ) : Prop where
  cost : ∀ x, SteadyCode (p.cost x)
  gradient : ∀ code ∈ p.gradient?, ∀ x, SteadyCode (code x)

omit [Scalar α] in
/-- A steady problem is its own twin. -/
theorem Steady.twins (h : p.Steady) : p.Twins (fun _ _ => True) p where
  cost x := (h.cost x).twin
  gradient := by
    rcases own : p.gradient? with _ | code
    · exact .none
    · exact .some fun x => (h.gradient code own x).twin

/-- From ledgers of one family a steady problem answers the same costs. -/
theorem Steady.evaluateCost_simulates (h : p.Steady) (f : Family) (x : Tensor α) :
    (p.evaluateCost x).Simulates (Ledger.Share f) Eq (p.evaluateCost x) :=
  h.twins.evaluateCost (Ledger.share_matching f) x

/-- From ledgers of one family a steady problem answers the same gradients. -/
theorem Steady.evaluateGradient_simulates (h : p.Steady) (f : Family) (x : Tensor α) :
    (p.evaluateGradient x).Simulates (Ledger.Share f) Eq (p.evaluateGradient x) :=
  h.twins.evaluateGradient (Ledger.share_matching f) x

/-- The problem answers a cost at a point, whatever its state is. -/
def CostAt (p : Problem α σ) (x : Tensor α) (cost : α) : Prop :=
  ∀ s, ((p.cost x).run.run s).1 = .ok cost

/-- Counted evaluations of a family answer a gradient at a point, whatever has been counted. -/
def GradientAt (p : Problem α σ) (f : Family) (x gradient : Tensor α) : Prop :=
  ∀ l : Ledger σ, l.family? = some f → ((p.evaluateGradient x).outcome l).1 = .ok gradient

/-- A counted evaluation of the cost answers what the problem answers. -/
theorem evaluateCost_answer {x : Tensor α} {l : Ledger σ} {f : Family} {cost : α}
    (known : l.family? = some f) (h : ((p.evaluateCost x).outcome l).1 = .ok cost) :
    ((p.cost x).run.run l.state).1 = .ok cost := by
  simp only [evaluateCost, outcome_bind, outcome_family, known, outcome_modify] at h
  have answered : ((consult (p.cost x) : Evaluation α σ _).outcome (l.countCost 1)).1 =
      .ok ((p.cost x).run.run l.state).1 := rfl
  rcases asked : (consult (p.cost x) : Evaluation α σ _).outcome (l.countCost 1) with ⟨answer, t⟩
  rw [asked] at answered h
  obtain rfl : answer = _ := answered
  rcases own : ((p.cost x).run.run l.state).1 with report | value <;> rw [own] at h
  · exact absurd h nofun
  · dsimp only at h
    split at h
    · simpa using h
    · exact absurd h nofun

/-- A cost that a steady problem has answered is its cost at the point from then on. -/
theorem Steady.cost_ensures (h : p.Steady) (x : Tensor α) (l : Ledger σ) :
    (p.evaluateCost x).Ensures l
      (fun cost t => ∃ f, t.family? = some f ∧ (∀ g ∈ l.family?, f = g) ∧ p.CostAt x cost)
      fun _ t => ∀ g ∈ l.family?, t.family? = some g := by
  refine (ensures_of_simulates (fun f => h.evaluateCost_simulates f x) l).mono (fun cost t => ?_)
    fun _ _ failed => failed
  rintro ⟨f, ht, same, answers⟩
  exact ⟨f, ht, same, fun s => evaluateCost_answer rfl (answers (.fresh (some f) s) rfl)⟩

/-- A gradient that a steady problem has answered is its gradient at the point from then on. -/
theorem Steady.gradient_ensures (h : p.Steady) (x : Tensor α) (l : Ledger σ) :
    (p.evaluateGradient x).Ensures l
      (fun gradient t => ∃ f, t.family? = some f ∧ (∀ g ∈ l.family?, f = g) ∧
        p.GradientAt f x gradient)
      fun _ t => ∀ g ∈ l.family?, t.family? = some g :=
  ensures_of_simulates (fun f => h.evaluateGradient_simulates f x) l

/-- Seen along a ray, a steady problem answers the costs of the points there. -/
theorem Steady.line_answers (h : p.Steady) (f family : Family) (x d : Tensor α) :
    (p.line family x d).Answers (fun l => l.family? = some f)
      (fun alpha cost => ∃ point, family.scaledAdd x (.real alpha) d = .ok point ∧
        p.CostAt point cost)
      (fun _ _ => True) (fun _ => True) where
  cost alpha _ l hl := by
    simp only [line, pointAt, ensures_bind]
    rcases found : family.scaledAdd x (.real alpha) d with cause | point
    · exact ⟨trivial, hl⟩
    · refine (h.cost_ensures point l).mono (fun cost t => ?_) fun _ t ht => ⟨trivial, ht f hl⟩
      rintro ⟨g, ht, same, hcost⟩
      obtain rfl := same f hl
      exact ⟨⟨point, rfl, hcost⟩, ht⟩
  slope alpha _ l hl := by
    simp only [line, pointAt, ensures_bind]
    rcases found : family.scaledAdd x (.real alpha) d with cause | point
    · exact ⟨trivial, hl⟩
    · refine (h.gradient_ensures point l).mono (fun gradient t => ?_) fun _ t ht => ⟨trivial, ht f hl⟩
      rintro ⟨g, ht, same, -⟩
      obtain rfl := same f hl
      rcases family.dot gradient d with cause | slope
      · exact ⟨trivial, ht⟩
      · exact ⟨trivial, ht⟩

end Problem

namespace Quadratic

variable [Scalar α] {n : Nat}

theorem ofUnknowns_steady (f : Vector α n → β) (x : Tensor α) :
    SteadyCode (ofUnknowns f x : ExceptT Raised (StateM σ) β) := by
  unfold ofUnknowns
  split
  · exact .pure _
  · exact .throw _

theorem problem_steady (q : Quadratic α n) : (q.problem : Problem α σ).Steady where
  cost x := ofUnknowns_steady q.cost x
  gradient code given x := by
    obtain rfl := Option.some.inj given
    exact ofUnknowns_steady _ x

end Quadratic

end QuasiNewton
