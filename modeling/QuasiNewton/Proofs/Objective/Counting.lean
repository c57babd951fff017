import QuasiNewton.Proofs.Exact.Reals
import QuasiNewton.Proofs.Objective.Twins

/-!
# What the counters count

A metered problem is the same problem with code that notes each of its invocations in a part of the state
that nothing else reads. After any number of costs and gradients that are asked for, whether they succeed
or fail, the gradient counter of the ledger is the number of invocations of the gradient. The cost counter
is the number of invocations of the cost but for one kind of them, which is counted too late: those of
central differences that break off. Their number is `missed`, and a problem with a gradient of its own
misses none.
-/

set_option autoImplicit false

namespace QuasiNewton

open Attempt

variable {α σ ε δ β γ : Type}

/-- How often the parts of a problem have been invoked. -/
structure Invocations where
  cost : Nat
  gradient : Nat

namespace Invocations

def zero : Invocations := ⟨0, 0⟩

def noteCost (m : Invocations) : Invocations := { m with cost := m.cost + 1 }

def noteGradient (m : Invocations) : Invocations := { m with gradient := m.gradient + 1 }

end Invocations

/-! ### Metered code -/

/-- The same code, with its invocation noted. -/
def metered (note : Invocations → Invocations) (code : ExceptT ε (StateM σ) β) :
    ExceptT ε (StateM (σ × Invocations)) β := fun state =>
  let (answer, after) := code.run.run state.1
  (answer, after, note state.2)

/-- Noting invocations changes nothing else. -/
theorem metered_twin (note : Invocations → Invocations) (code : ExceptT ε (StateM σ) β) :
    Twin (fun s t => s.1 = t) (metered note code) code := by
  rintro s _ rfl
  exact ⟨rfl, rfl⟩

/-- Code that invokes the cost `n` times if it succeeds and at most `n` times if it fails, and that does
not invoke the gradient. -/
def Spends (code : ExceptT ε (StateM (σ × Invocations)) β) (n : Nat) : Prop :=
  ∀ s m, match code.run.run (s, m) with
    | (.ok _, _, made) => made = ⟨m.cost + n, m.gradient⟩
    | (.error _, _, made) => m.cost ≤ made.cost ∧ made.cost ≤ m.cost + n ∧ made.gradient = m.gradient

namespace Spends

theorem metered (code : ExceptT ε (StateM σ) β) : Spends (metered Invocations.noteCost code) 1 := by
  intro s m
  rcases run : code.run.run s with ⟨answer | answer, t⟩
  · have failed : (QuasiNewton.metered Invocations.noteCost code).run.run (s, m) =
        (.error answer, t, m.noteCost) := by
      exact congrArg (fun r : Except ε β × σ => (r.1, r.2, m.noteCost)) run
    rw [failed]
    exact ⟨Nat.le_succ _, Nat.le_refl _, rfl⟩
  · have succeeded : (QuasiNewton.metered Invocations.noteCost code).run.run (s, m) =
        (.ok answer, t, m.noteCost) := by
      exact congrArg (fun r : Except ε β × σ => (r.1, r.2, m.noteCost)) run
    rw [succeeded]
    rfl

theorem pure (x : β) : Spends (Pure.pure x : ExceptT ε (StateM (σ × Invocations)) β) 0 :=
  fun _ _ => rfl

theorem throw (e : ε) (n : Nat) :
    Spends (MonadExcept.throw e : ExceptT ε (StateM (σ × Invocations)) β) n :=
  fun _ m => ⟨Nat.le_refl _, Nat.le_add_right m.cost n, rfl⟩

theorem bind {code : ExceptT ε (StateM (σ × Invocations)) β}
    {next : β → ExceptT ε (StateM (σ × Invocations)) γ} {k n : Nat} (first : Spends code k)
    (second : ∀ x, Spends (next x) n) : Spends (code >>= next) (k + n) := by
  intro s m
  have before := first s m
  rw [run_bind]
  rcases hc : code.run.run (s, m) with ⟨e | x, t, made⟩ <;> rw [hc] at before
  · obtain ⟨low, high, same⟩ := before
    exact ⟨low, by omega, same⟩
  · obtain rfl : made = ⟨m.cost + k, m.gradient⟩ := before
    have after := second x t ⟨m.cost + k, m.gradient⟩
    dsimp only
    rcases hn : (next x).run.run (t, ⟨m.cost + k, m.gradient⟩) with ⟨e | y, u, made⟩ <;>
      rw [hn] at after
    · obtain ⟨low, high, same⟩ := after
      exact ⟨by dsimp only at low; omega, by dsimp only at high; omega, same⟩
    · exact after.trans (by rw [Nat.add_assoc])

theorem adapt {code : ExceptT ε (StateM (σ × Invocations)) β} {n : Nat} (h : Spends code n)
    (f : ε → δ) : Spends (code.adapt f) n := by
  intro s m
  have spent := h s m
  have adapted : (code.adapt f).run.run (s, m) =
      (((code.run.run (s, m)).1.mapError f), (code.run.run (s, m)).2) := rfl
  rw [adapted]
  rcases run : code.run.run (s, m) with ⟨e | x, t⟩ <;> rw [run] at spent <;> exact spent

theorem ofFnM {n k : Nat} {code : Fin n → ExceptT ε (StateM (σ × Invocations)) β}
    (h : ∀ i, Spends (code i) k) : Spends (Vector.ofFnM code) (k * n) := by
  induction n with
  | zero =>
    rw [Vector.ofFnM_zero]
    exact pure _
  | succ n ih =>
    rw [Vector.ofFnM_succ]
    exact (ih fun i => h i.castSucc).bind fun xs => (h (Fin.last n)).bind fun x => pure _

/-- Central differences ask for the cost as often as they say. -/
theorem gradient [Scalar α] {f : Dense α → ExceptT Raised (StateM (σ × Invocations)) α}
    (h : ∀ x, Spends (f x) 1) (x : Dense α) (eps : α) :
    Spends (Differences.gradient f x eps) (Differences.evaluations x) := by
  have quotient (i : Nat) : Spends (Differences.quotient f x eps i) 2 :=
    ((h _).adapt _).bind fun upper => ((h _).adapt _).bind fun lower => pure _
  unfold Differences.gradient
  split
  · exact throw _ _
  · next rows rest shape =>
    have size : x.shape.size = rows * Shape.size rest := by
      rw [shape]
      cases rest <;> simp [Shape.size]
    split
    · next same =>
      have asked : Differences.evaluations x = 2 * rows + 0 := by
        rw [Differences.evaluations, Dense.size, ← same, Nat.add_zero]
      rw [asked]
      exact (ofFnM fun i => quotient i).bind fun _ => pure _
    · split
      · next empty =>
        have asked : Differences.evaluations x = 0 := by
          rw [Differences.evaluations, Dense.size, empty]
        rw [asked]
        exact pure _
      · next other =>
        have few : rows ≤ x.shape.size := by
          rw [size]
          refine Nat.le_mul_of_pos_right rows (Nat.pos_of_ne_zero fun none => other ?_)
          rw [size, none, Nat.mul_zero]
        have asked : Differences.evaluations x = 2 * rows + 2 * (x.shape.size - rows) := by
          rw [Differences.evaluations, Dense.size]
          omega
        rw [asked]
        exact (ofFnM fun i => quotient i).bind fun _ => throw _ _

end Spends

/-- The differences of an array with one axis are the quotients for its places. -/
theorem Differences.gradient_vector [Scalar α] {n : Nat} (f : Dense α → ExceptT Raised (StateM σ) α)
    (x : Vector α n) (eps : α) :
    Differences.gradient f (.vector x) eps =
      Vector.ofFnM (fun i : Fin n => Differences.quotient f (.vector x) eps i) >>=
        fun quotients => pure ⟨[n], quotients⟩ :=
  dif_pos rfl

/-! ### Metered problems -/

/-- The same problem, with all its invocations noted. -/
def Problem.metered (p : Problem α σ) : Problem α (σ × Invocations) where
  cost x := QuasiNewton.metered Invocations.noteCost (p.cost x)
  gradient? := p.gradient?.map fun code x => QuasiNewton.metered Invocations.noteGradient (code x)

/-- The ledger without the invocations. -/
def Ledger.forget (l : Ledger (σ × Invocations)) : Ledger σ := { l with state := l.state.1 }

/-- What can be asked of a problem. -/
inductive Query (α : Type) where
  | cost (x : Tensor α)
  | gradient (x : Tensor α)

section Queries

variable [Scalar α]

/-- The ledger after a query, whether it was answered or failed. -/
def Query.after (p : Problem α σ) (l : Ledger σ) : Query α → Ledger σ
  | cost x => ((p.evaluateCost x).outcome l).2
  | gradient x => ((p.evaluateGradient x).outcome l).2

/-- The ledger after several queries. -/
def ledgerAfter (p : Problem α σ) (l : Ledger σ) (queries : List (Query α)) : Ledger σ :=
  queries.foldl (Query.after p) l

/-- The invocations of the cost by central differences that break off. -/
def Query.missed (p : Problem α σ) (l : Ledger (σ × Invocations)) : Query α → Nat
  | cost _ => 0
  | gradient x =>
    if p.gradient?.isSome then 0
    else
      match (Evaluation.family x >>= (p.metered.differentiate · x)).outcome l with
      | (.ok _, _) => 0
      | (.error _, after) => after.state.2.cost - l.state.2.cost

/-- The invocations of the cost by central differences that break off, over several queries. -/
def missed (p : Problem α σ) (l : Ledger (σ × Invocations)) : List (Query α) → Nat
  | [] => 0
  | q :: queries => q.missed p l + missed p (q.after p.metered l) queries

/-! ### The meter changes nothing -/

omit [Scalar α] in
theorem Problem.metered_twins (p : Problem α σ) : p.metered.Twins (fun s t => s.1 = t) p :=
  .of_wrapped (fun x => metered_twin _ (p.cost x)) fun code x => metered_twin _ (code x)

theorem Ledger.forget_matching :
    Ledger.Matching (fun s t => s.1 = t) fun (l : Ledger (σ × Invocations)) m => l.forget = m where
  family := by rintro l _ rfl; rfl
  state := by rintro l _ rfl; rfl
  choose := by rintro l _ f rfl _; rfl
  countCost := by rintro l _ n rfl; rfl
  countGradient := by rintro l _ rfl; rfl
  consult := by rintro l _ s _ rfl rfl; rfl

theorem Query.after_forget (p : Problem α σ) (l : Ledger (σ × Invocations)) (q : Query α) :
    (q.after p.metered l).forget = q.after p l.forget := by
  cases q with
  | cost x => exact (p.metered_twins.evaluateCost Ledger.forget_matching x l _ rfl).1
  | gradient x => exact (p.metered_twins.evaluateGradient Ledger.forget_matching x l _ rfl).1

theorem ledgerAfter_forget (p : Problem α σ) (l : Ledger (σ × Invocations))
    (queries : List (Query α)) :
    (ledgerAfter p.metered l queries).forget = ledgerAfter p l.forget queries := by
  induction queries generalizing l with
  | nil => rfl
  | cons q queries ih =>
    have rest := ih (q.after p.metered l)
    rw [q.after_forget] at rest
    exact rest

/-! ### The books -/

/-- The gradient counter is right, and the cost counter falls short by `short`. -/
def Ledger.Books (short : Nat) (l : Ledger (σ × Invocations)) : Prop :=
  l.gradientCalls = l.state.2.gradient ∧ l.costCalls + short = l.state.2.cost

variable {p : Problem α σ} {l : Ledger (σ × Invocations)} {short : Nat}

omit [Scalar α] in
/-- Finding the family evaluates nothing. -/
theorem Evaluation.family_books (x : Tensor α) (books : l.Books short) :
    (family x : Evaluation α _ Family).Ensures l (fun _ t => t.Books short ∧ t.state = l.state)
      fun _ t => t.Books short ∧ t.state = l.state := by
  unfold Ensures
  rw [outcome_family]
  rcases l.family? with _ | f
  · rcases Family.ofTensor x with fault | f
    · exact ⟨books, rfl⟩
    · exact ⟨books, rfl⟩
  · exact ⟨books, rfl⟩

omit [Scalar α] in
/-- Code that notes its invocation is noted once, whether it fails or not. -/
theorem Evaluation.consult_metered (note : Invocations → Invocations) (code : ExceptT ε (StateM σ) β)
    (E : Fault α → Ledger (σ × Invocations) → Prop) :
    (consult (metered note code) : Evaluation α _ (Except ε β)).Ensures l
      (fun _ t => ∃ s, t = { l with state := (s, note l.state.2) }) E :=
  ⟨_, rfl⟩

omit [Scalar α] in
theorem Evaluation.consult_spends {code : ExceptT ε (StateM (σ × Invocations)) β} {n : Nat}
    (h : Spends code n) (E : Fault α → Ledger (σ × Invocations) → Prop) :
    (consult code : Evaluation α _ (Except ε β)).Ensures l
      (fun answer t => ∃ s made, t = { l with state := (s, made) } ∧
        match answer with
        | .ok _ => made = ⟨l.state.2.cost + n, l.state.2.gradient⟩
        | .error _ => l.state.2.cost ≤ made.cost ∧ made.gradient = l.state.2.gradient) E := by
  have spent := h l.state.1 l.state.2
  unfold Ensures
  rw [outcome_consult]
  rcases run : code.run.run l.state with ⟨fault | answer, s, made⟩ <;> rw [run] at spent
  · exact ⟨s, made, rfl, spent.1, spent.2.2⟩
  · exact ⟨s, made, rfl, spent⟩

theorem Problem.evaluateCost_books (x : Tensor α) (books : l.Books short) :
    (p.metered.evaluateCost x).Ensures l (fun _ t => t.Books short) fun _ t => t.Books short := by
  unfold evaluateCost
  rw [ensures_bind]
  refine (Evaluation.family_books x books).mono (fun _ t found => ?_) fun _ t found => found.1
  obtain ⟨⟨gradients, costs⟩, -⟩ := found
  rw [ensures_bind, ensures_modify, ensures_bind]
  refine (Evaluation.consult_metered Invocations.noteCost (p.cost x) _).mono (fun answer u noted => ?_)
    fun _ _ failed => failed
  obtain ⟨s, rfl⟩ := noted
  have after : Ledger.Books short
      { t.countCost 1 with state := (s, t.state.2.noteCost) } := by
    refine ⟨gradients, ?_⟩
    simp only [Ledger.countCost, Invocations.noteCost]
    omega
  cases answer with
  | error report => exact after
  | ok cost =>
    dsimp only
    split
    · exact after
    · exact after

/-- Central differences are counted if they succeed, and what they cost if they break off is missing from
the books. -/
theorem Problem.differentiate_books (f : Family) (x : Tensor α) (books : l.Books short) :
    (p.metered.differentiate f x).Ensures l (fun _ t => t.Books short)
      fun _ t => t.Books (short + (t.state.2.cost - l.state.2.cost)) := by
  obtain ⟨gradients, costs⟩ := books
  have spends := Spends.gradient (fun z => Spends.metered (p.cost (f.adopt z x))) x.values
    (Differences.standardStep : α)
  unfold differentiate
  rw [ensures_bind]
  refine (Evaluation.consult_spends spends _).mono (fun answer t spent => ?_) fun _ _ failed => failed
  obtain ⟨s, made, rfl, spent⟩ := spent
  cases answer with
  | error fault =>
    obtain ⟨low, same⟩ := spent
    have after : Ledger.Books (short + (made.cost - l.state.2.cost)) { l with state := (s, made) } :=
      ⟨gradients.trans same.symm, by dsimp only; omega⟩
    cases fault <;> exact after
  | ok gradient =>
    obtain rfl : made = _ := spent
    exact ⟨gradients, by simp only [Ledger.countCost]; omega⟩

/-- A gradient of the problem's own is counted, whether it fails or not. -/
theorem Problem.askGradient_books {code : Tensor α → ExceptT Raised (StateM σ) (Reply α)}
    (own : p.gradient? = some code) (f : Family) (x : Tensor α) (books : l.Books short) :
    (p.metered.askGradient f x).Ensures l (fun _ t => t.Books short) fun _ t => t.Books short := by
  obtain ⟨gradients, costs⟩ := books
  have given : p.metered.gradient? =
      some fun x => QuasiNewton.metered Invocations.noteGradient (code x) := by
    simp only [Problem.metered, own, Option.map_some]
  unfold askGradient
  rw [given]
  dsimp only
  rw [ensures_bind, ensures_modify, ensures_bind]
  refine (Evaluation.consult_metered Invocations.noteGradient (code x) _).mono
    (fun answer t noted => ?_) fun _ _ failed => failed
  obtain ⟨s, rfl⟩ := noted
  have after : Ledger.Books short
      { l.countGradient with state := (s, l.state.2.noteGradient) } := by
    refine ⟨?_, costs⟩
    simp only [Ledger.countGradient, Invocations.noteGradient, gradients]
  cases answer with
  | error report => exact after
  | ok reply => exact after

/-- What a gradient leaves is what has been left before the answer is checked. -/
theorem Problem.outcome_evaluateGradient (x : Tensor α) :
    ((p.metered.evaluateGradient x).outcome l).2 =
      ((Evaluation.family x >>= (p.metered.askGradient · x)).outcome l).2 := by
  simp only [evaluateGradient, outcome_bind]
  rcases (Evaluation.family x : Evaluation α _ _).outcome l with ⟨fault | f, t⟩
  · rfl
  · dsimp only
    rcases (p.metered.askGradient f x).outcome t with ⟨fault | reply, u⟩
    · rfl
    · exact outcome_checkGradient f x reply

/-- **One query keeps the books**, but for the invocations it misses. -/
theorem Query.after_books (q : Query α) (books : l.Books short) :
    (q.after p.metered l).Books (short + q.missed p l) := by
  cases q with
  | cost x =>
    have kept := Problem.evaluateCost_books (p := p) x books
    simp only [after, missed, Nat.add_zero]
    rcases run : (p.metered.evaluateCost x).outcome l with ⟨fault | cost, t⟩
    · exact kept.of_error run
    · exact kept.of_ok run
  | gradient x =>
    have found := Evaluation.family_books x books
    simp only [after, missed, Problem.outcome_evaluateGradient, outcome_bind]
    rcases family : (Evaluation.family x : Evaluation α _ _).outcome l with ⟨fault | f, t⟩
    · obtain ⟨kept, same⟩ := found.of_error family
      simpa [same] using kept
    · obtain ⟨kept, same⟩ := found.of_ok family
      rcases own : p.gradient? with _ | code
      · have none : p.metered.gradient? = none := by simp [Problem.metered, own]
        have counted := Problem.differentiate_books (p := p) f x kept
        simp only [Problem.askGradient, none, outcome_bind]
        rcases run : (p.metered.differentiate f x).outcome t with ⟨fault | gradient, u⟩
        · simpa [same] using counted.of_error run
        · simpa using counted.of_ok run
      · have counted := Problem.askGradient_books own f x kept
        simp only [Option.isSome_some, if_true, Nat.add_zero]
        rcases run : (p.metered.askGradient f x).outcome t with ⟨fault | reply, u⟩
        · exact counted.of_error run
        · exact counted.of_ok run

theorem ledgerAfter_books (queries : List (Query α)) (books : l.Books short) :
    (ledgerAfter p.metered l queries).Books (short + missed p l queries) := by
  induction queries generalizing l short with
  | nil => exact books
  | cons q queries ih =>
    have rest := ih (q.after_books (p := p) books)
    rw [Nat.add_assoc] at rest
    exact rest

/-- A problem with a gradient of its own misses nothing. -/
theorem missed_eq_zero (own : p.gradient?.isSome) (l : Ledger (σ × Invocations))
    (queries : List (Query α)) : missed p l queries = 0 := by
  induction queries generalizing l with
  | nil => rfl
  | cons q queries ih =>
    have none : q.missed p l = 0 := by cases q <;> simp [Query.missed, own]
    rw [missed, none, ih]

/-- **What the counters count.** After any costs and gradients that were asked for, answered or not, the
gradient counter is the number of invocations of the gradient, and the cost counter and the invocations
by central differences that broke off are together the number of invocations of the cost. The metered
problem leaves the ledger that the problem itself leaves. -/
theorem counters_count_invocations (p : Problem α σ) (family? : Option Family) (s : σ)
    (queries : List (Query α)) :
    let start : Ledger (σ × Invocations) := .fresh family? (s, .zero)
    let l := ledgerAfter p.metered start queries
    l.forget = ledgerAfter p (.fresh family? s) queries ∧
      l.gradientCalls = l.state.2.gradient ∧
      l.costCalls + missed p start queries = l.state.2.cost ∧
      (p.gradient?.isSome → missed p start queries = 0) := by
  intro start l
  have fresh : start.Books 0 := ⟨rfl, rfl⟩
  have books : l.Books (0 + missed p start queries) := ledgerAfter_books queries fresh
  rw [Nat.zero_add] at books
  exact ⟨ledgerAfter_forget p _ queries, books.1, books.2, fun own => missed_eq_zero own _ queries⟩

end Queries

/-- The cost one at the first call, and a report at all later ones. -/
noncomputable def breaking : Problem ℝ ℕ where
  cost _ := fun calls => (if calls = 0 then .ok 1 else .error ⟨.other "ValueError", "boom"⟩, calls + 1)
  gradient? := none

/-- For instance, central differences at a point with two entries that break off at the second evaluation
have invoked the cost twice, and none of it is counted. -/
theorem breaking_uncounted :
    let start : Ledger (ℕ × Invocations) := .fresh none (0, .zero)
    let l := ledgerAfter breaking.metered start [.gradient (.lenient (.vector #v[1, 2]))]
    l.costCalls = 0 ∧ l.state.2.cost = 2 := by
  have breaks (f : Dense ℝ → Tensor ℝ) (eps : ℝ) :
      (Differences.gradient (fun z => breaking.metered.cost (f z)) (.vector #v[1, 2]) eps).run.run
        (0, .zero) = (.error (.raised ⟨.other "ValueError", "boom"⟩), 2, ⟨2, 0⟩) := by
    rw [Differences.gradient_vector, Vector.ofFnM_succ, Vector.ofFnM_succ, Vector.ofFnM_zero]
    rfl
  simp only [ledgerAfter, List.foldl_cons, List.foldl_nil, Query.after,
    Problem.outcome_evaluateGradient, outcome_bind, Evaluation.outcome_family, Ledger.fresh]
  have family : Family.ofTensor (.lenient (.vector #v[1, 2]) : Tensor ℝ) = .ok .lenient := rfl
  have none : breaking.metered.gradient? = none := rfl
  have values : (Tensor.lenient (.vector #v[1, 2]) : Tensor ℝ).values = .vector #v[1, 2] := rfl
  simp only [family, Problem.askGradient, none, outcome_bind, Problem.differentiate,
    Evaluation.outcome_consult, values, breaks, outcome_throw, and_self]

end QuasiNewton
