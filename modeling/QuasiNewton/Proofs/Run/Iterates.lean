import QuasiNewton.Proofs.Run.Checkpoint

/-!
# The iterates of a run

At every check of a run the iteration state holds the iterate of this check, and the cost it remembers is that
of the check before. In the beginning no cost is remembered. The two tests for convergence are therefore
statements about the iterates alone: `Plan.FlatAt` tells that the gradient of an iterate is short, and
`Plan.SettledAt` that the cost has hardly changed in the step that has led to it.
-/

set_option autoImplicit false

namespace QuasiNewton

open QuasiNewton.Decimal (NumberText)

variable {α ς σ : Type} [Scalar α]

/-! ### Norms -/

/-- Both families compute one norm, where they compute one. -/
theorem Family.norm_unique {f g : Family} {t : Tensor α} {a b : α} (ha : f.norm t = .ok a)
    (hb : g.norm t = .ok b) : a = b := by
  have computed {h : Family} {c : α} (hc : h.norm t = .ok c) : lenient.norm t = .ok c := by
    cases h with
    | lenient => exact hc
    | strict =>
      simp only [norm, if_true] at hc
      split at hc
      case isFalse => exact absurd hc nofun
      case isTrue =>
        split at hc
        case isTrue => exact absurd hc nofun
        case isFalse => exact hc
  exact Except.ok.inj ((computed ha).symm.trans (computed hb))

/-- A number is the norm of the gradient of an iterate. -/
def Iterate.HasNorm (i : Iterate α) (norm : α) : Prop :=
  ∃ (gradient : Tensor α) (family : Family), i.gradient? = some gradient ∧ family.norm gradient = .ok norm

theorem Iterate.HasNorm.unique {i : Iterate α} {a b : α} (ha : i.HasNorm a) (hb : i.HasNorm b) : a = b := by
  obtain ⟨gradient, f, known, ha⟩ := ha
  obtain ⟨gradient', g, known', hb⟩ := hb
  obtain rfl := Option.some.inj (known.symm.trans known')
  exact Family.norm_unique ha hb

namespace Plan

/-! ### The tests for convergence -/

section Definitions

variable [NumberText α] (plan : Plan α) (solver : Solver α ς σ) (p : Problem α σ) (work : Workspace ς σ)
  (clock : Clock α)

/-- The gradient of the iterate after `k` steps is shorter than a tolerance. -/
def FlatAt (tolerance : α) (k : Nat) : Prop :=
  ∃ c norm, plan.checkpoint solver p work clock k = some c ∧ c.last.HasNorm norm ∧ norm < tolerance

/-- The last of `k` steps has changed the cost by less than a tolerance. -/
def SettledAt (tolerance : α) (k : Nat) : Prop :=
  ∃ j before c, k = j + 1 ∧ plan.checkpoint solver p work clock j = some before ∧
    plan.checkpoint solver p work clock k = some c ∧
    Scalar.abs (before.last.cost - c.last.cost) < tolerance

end Definitions

variable [NumberText α] {plan : Plan α} {solver : Solver α ς σ} {p : Problem α σ} {work : Workspace ς σ}
  {clock : Clock α} {k : Nat} {c : Checkpoint α ς σ}

/-- The iterate of a check is the current one of its iteration state. -/
theorem current_of_checkpoint (reached : plan.checkpoint solver p work clock k = some c) :
    c.run.state.point = c.last.point ∧ c.run.state.cost? = some c.last.cost ∧
      c.run.state.gradient? = c.last.gradient? := by
  cases k with
  | zero =>
    rw [(checkpoint_zero reached).state]
    exact ⟨rfl, rfl, rfl⟩
  | succ k =>
    obtain ⟨c₀, r, -, -, advanced⟩ := checkpoint_succ reached
    rw [advanced.state]
    exact ⟨rfl, rfl, rfl⟩

/-- A change of the cost is known after the first step, and it is the change from the check before. -/
theorem costChange_eq_some_iff (reached : plan.checkpoint solver p work clock k = some c) {change : α} :
    c.run.state.costChange = some change ↔ ∃ j before, k = j + 1 ∧
      plan.checkpoint solver p work clock j = some before ∧
      Scalar.abs (before.last.cost - c.last.cost) = change := by
  cases k with
  | zero =>
    have unknown : c.run.state.costChange = none := by
      rw [(checkpoint_zero reached).state]
      rfl
    rw [unknown]
    constructor
    · intro known
      cases known
    · rintro ⟨j, before, first, -⟩
      cases first
  | succ k =>
    obtain ⟨c₀, r, earlier, checked, advanced⟩ := checkpoint_succ reached
    obtain ⟨-, cost, -⟩ := current_of_checkpoint earlier
    have known : c.run.state.costChange = some (Scalar.abs (c₀.last.cost - c.last.cost)) := by
      rw [advanced.state, checked.state]
      simp only [IterState.costChange, IterState.advance, cost]
      rfl
    rw [known]
    constructor
    · intro same
      exact ⟨k, c₀, rfl, earlier, Option.some.inj same⟩
    · rintro ⟨j, before, last, reached', same⟩
      obtain rfl := Nat.succ.inj last
      obtain rfl := Option.some.inj (earlier.symm.trans reached')
      rw [same]

theorem flatAt_iff (reached : plan.checkpoint solver p work clock k = some c) {norm : α}
    (known : c.last.HasNorm norm) (tolerance : α) :
    plan.FlatAt solver p work clock tolerance k ↔ norm < tolerance := by
  constructor
  · rintro ⟨c', norm', reached', known', short⟩
    obtain rfl := Option.some.inj (reached.symm.trans reached')
    rwa [known.unique known']
  · intro short
    exact ⟨c, norm, reached, known, short⟩

theorem settledAt_iff (reached : plan.checkpoint solver p work clock k = some c) (tolerance : α) :
    plan.SettledAt solver p work clock tolerance k ↔
      ∃ change, c.run.state.costChange = some change ∧ change < tolerance := by
  constructor
  · rintro ⟨j, before, c', last, earlier, reached', small⟩
    obtain rfl := Option.some.inj (reached.symm.trans reached')
    exact ⟨_, (costChange_eq_some_iff reached).mpr ⟨j, before, last, earlier, rfl⟩, small⟩
  · rintro ⟨change, known, small⟩
    obtain ⟨j, before, last, earlier, rfl⟩ := (costChange_eq_some_iff reached).mp known
    exact ⟨j, before, c, last, earlier, reached, small⟩

end Plan

end QuasiNewton
