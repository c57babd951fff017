import QuasiNewton.Objective.Evaluation
import QuasiNewton.Proofs.Outcomes

/-!
# Twin problems

Two problems are twins if their code answers the same from related states and leaves related states. The
counted evaluations of twins answer the same from ledgers that match: the ledgers know the same family and
hold related states, and all that an evaluation does to a ledger keeps them matching.
-/

set_option autoImplicit false

namespace QuasiNewton

open Attempt

variable {α σ τ ε δ β γ : Type}

/-- What follows code sees its answer and the state after it. -/
theorem run_bind (code : ExceptT ε (StateM σ) β) (next : β → ExceptT ε (StateM σ) γ) (s : σ) :
    (code >>= next).run.run s =
      match code.run.run s with
      | (.ok x, t) => (next x).run.run t
      | (.error e, t) => (.error e, t) := by
  simp only [ExceptT.run_bind, StateT.run_bind]
  rcases code.run.run s with ⟨e | x, t⟩ <;> rfl

/-- From related states two pieces of code answer the same, and they leave related states. -/
def Twin (R : σ → τ → Prop) (code : ExceptT ε (StateM σ) β) (code' : ExceptT ε (StateM τ) β) : Prop :=
  ∀ s t, R s t → (code.run.run s).1 = (code'.run.run t).1 ∧ R (code.run.run s).2 (code'.run.run t).2

namespace Twin

variable {R : σ → τ → Prop}

theorem pure (x : β) :
    Twin R (Pure.pure x : ExceptT ε (StateM σ) β) (Pure.pure x : ExceptT ε (StateM τ) β) :=
  fun _ _ related => ⟨rfl, related⟩

theorem throw (e : ε) :
    Twin R (MonadExcept.throw e : ExceptT ε (StateM σ) β)
      (MonadExcept.throw e : ExceptT ε (StateM τ) β) :=
  fun _ _ related => ⟨rfl, related⟩

theorem bind {code : ExceptT ε (StateM σ) β} {code' : ExceptT ε (StateM τ) β}
    {next : β → ExceptT ε (StateM σ) γ} {next' : β → ExceptT ε (StateM τ) γ} (first : Twin R code code')
    (second : ∀ x, Twin R (next x) (next' x)) : Twin R (code >>= next) (code' >>= next') := by
  intro s t related
  obtain ⟨answers, states⟩ := first s t related
  rw [run_bind, run_bind]
  rcases hs : code.run.run s with ⟨answer, s'⟩
  rcases ht : code'.run.run t with ⟨answer', t'⟩
  rw [hs, ht] at answers states
  obtain rfl : answer = answer' := answers
  cases answer with
  | error e => exact ⟨rfl, states⟩
  | ok x => exact second x s' t' states

theorem adapt {code : ExceptT ε (StateM σ) β} {code' : ExceptT ε (StateM τ) β} (h : Twin R code code')
    (f : ε → δ) : Twin R (code.adapt f) (code'.adapt f) := fun s t related =>
  ⟨congrArg (Except.mapError f) (h s t related).1, (h s t related).2⟩

/-- Twin code for each of finitely many places is twin code from the first place to the last. -/
theorem ofFnM {n : Nat} {code : Fin n → ExceptT ε (StateM σ) β} {code' : Fin n → ExceptT ε (StateM τ) β}
    (h : ∀ i, Twin R (code i) (code' i)) : Twin R (Vector.ofFnM code) (Vector.ofFnM code') := by
  induction n with
  | zero =>
    rw [Vector.ofFnM_zero, Vector.ofFnM_zero]
    exact pure _
  | succ n ih =>
    rw [Vector.ofFnM_succ, Vector.ofFnM_succ]
    exact (ih fun i => h i.castSucc).bind fun xs => (h (Fin.last n)).bind fun x => pure _

theorem gradient [Scalar α] {f : Dense α → ExceptT Raised (StateM σ) α}
    {f' : Dense α → ExceptT Raised (StateM τ) α} (h : ∀ x, Twin R (f x) (f' x)) (x : Dense α) (eps : α) :
    Twin R (Differences.gradient f x eps) (Differences.gradient f' x eps) := by
  have quotient (i : Nat) :
      Twin R (Differences.quotient f x eps i) (Differences.quotient f' x eps i) :=
    ((h _).adapt _).bind fun upper => ((h _).adapt _).bind fun lower => pure _
  unfold Differences.gradient
  split
  · exact throw _
  · split
    · exact (ofFnM fun i => quotient i).bind fun _ => pure _
    · split
      · exact pure _
      · exact (ofFnM fun i => quotient i).bind fun _ => throw _

end Twin

/-- A relation of ledgers that know the same family and hold related states, which evaluations keep. -/
structure Ledger.Matching (R : σ → τ → Prop) (L : Ledger σ → Ledger τ → Prop) : Prop where
  family : ∀ l m, L l m → l.family? = m.family?
  state : ∀ l m, L l m → R l.state m.state
  choose : ∀ l m f, L l m → l.family? = none →
    L { l with family? := some f } { m with family? := some f }
  countCost : ∀ l m n, L l m → L (l.countCost n) (m.countCost n)
  countGradient : ∀ l m, L l m → L l.countGradient m.countGradient
  consult : ∀ l m s t, L l m → R s t → L { l with state := s } { m with state := t }

namespace Evaluation

/-- A family that is not known is that of the point, and it is known from then on. -/
theorem outcome_family (x : Tensor α) (l : Ledger σ) :
    (family x : Evaluation α σ Family).outcome l =
      match l.family? with
      | some f => (.ok f, l)
      | none =>
        match Family.ofTensor x with
        | .ok f => (.ok f, { l with family? := some f })
        | .error fault => (.error fault, l) := by
  simp only [family, outcome_bind, outcome_get]
  rcases l.family? with _ | f
  · simp only [outcome_bind, outcome_ofExcept]
    rcases Family.ofTensor x with fault | f <;> rfl
  · rfl

theorem outcome_consult (code : ExceptT ε (StateM σ) β) (l : Ledger σ) :
    (consult code : Evaluation α σ (Except ε β)).outcome l =
      (.ok (code.run.run l.state).1, { l with state := (code.run.run l.state).2 }) := rfl

variable {R : σ → τ → Prop} {L : Ledger σ → Ledger τ → Prop} (h : Ledger.Matching R L)

include h

theorem consult_twin {F : Fault α → Fault α → Prop} {code : ExceptT ε (StateM σ) β}
    {code' : ExceptT ε (StateM τ) β} (codes : Twin R code code') :
    (consult code : Evaluation α σ (Except ε β)).Corresponds L (Agree Eq Eq) F (consult code') := by
  intro l m related
  obtain ⟨answers, states⟩ := codes l.state m.state (h.state l m related)
  exact ⟨h.consult l m _ _ related states, .ok (.of_eq answers)⟩

theorem family_twin (x : Tensor α) :
    (family x : Evaluation α σ Family).Simulates L Eq (family x : Evaluation α τ Family) := by
  intro l m related
  have same := h.family l m related
  rw [outcome_family, outcome_family, ← same]
  rcases own : l.family? with _ | f
  · dsimp only
    rcases Family.ofTensor x with fault | f
    · exact ⟨related, rfl⟩
    · exact ⟨h.choose l m f related own, rfl⟩
  · exact ⟨related, rfl⟩

end Evaluation

/-! ### Evaluations side by side -/

namespace Evaluation

/-- What a problem reports is no failed search. -/
theorem reported_ne_search (report : Raised) (otherwise : String → EvaluationFault α)
    (cause : SearchFault α) : reported report otherwise ≠ .search cause := by
  unfold reported
  split <;> nofun

end Evaluation

namespace Problem

open Evaluation

variable [Scalar α] {L : Ledger σ → Ledger τ → Prop} {F : Fault α → Fault α → Prop} {p : Problem α σ}
  {q : Problem α τ} {x x' : Tensor α} (plain : ∀ e : Fault α, (∀ cause, e ≠ .search cause) → F e e)

include plain

/-- Two counted costs correspond if the answers of the two problems do. -/
theorem evaluateCost_corresponds {G : Family → Family → Prop} {C : α → α → Prop}
    (families : (family x : Evaluation α σ Family).Corresponds L G F (family x'))
    (counted : (modify (Ledger.countCost · 1) : Evaluation α σ PUnit).Corresponds L Eq F
      (modify (Ledger.countCost · 1)))
    (asked : (consult (p.cost x) : Evaluation α σ _).Corresponds L (Agree C Eq) F
      (consult (q.cost x')))
    (finite : ∀ c c', C c c' → Scalar.isFinite c' = Scalar.isFinite c)
    (refused : ∀ c c', C c c' → Scalar.isFinite c = false →
      F (.evaluation (.costNotFinite c)) (.evaluation (.costNotFinite c'))) :
    (p.evaluateCost x).Corresponds L C F (q.evaluateCost x') := by
  refine families.bind fun _ _ _ => counted.bind fun _ _ _ => ?_
  refine asked.bind fun answer answer' answers => ?_
  cases answers with
  | error same =>
    subst same
    exact .throw (plain _ (reported_ne_search _ _))
  | @ok c c' related =>
    dsimp only
    rw [finite c c' related]
    by_cases hc : Scalar.isFinite c = true
    · simp only [hc, if_true]
      exact .pure related
    · simp only [hc, Bool.false_eq_true, if_false]
      exact .throw (refused c c' related (by simpa using hc))

/-- Two difference quotients correspond if those of the two costs do. -/
theorem differentiate_corresponds {f f' : Family} {G : Dense α → Dense α → Prop}
    (counted : (modify (Ledger.countCost · (Differences.evaluations x.values)) :
      Evaluation α σ PUnit).Corresponds L Eq F
      (modify (Ledger.countCost · (Differences.evaluations x'.values))))
    (asked : (consult (Differences.gradient (fun z => p.cost (f.adopt z x)) x.values
        Differences.standardStep) : Evaluation α σ _).Corresponds L (Agree G Eq) F
      (consult (Differences.gradient (fun z => q.cost (f'.adopt z x')) x'.values
        Differences.standardStep))) :
    (p.differentiate f x).Corresponds L
      (fun t t' => ∃ g g', G g g' ∧ t = f.adopt g x ∧ t' = f'.adopt g' x') F
      (q.differentiate f' x') := by
  refine asked.bind fun answer answer' answers => ?_
  cases answers with
  | error same =>
    subst same
    rename_i fault
    cases fault with
    | raised report => exact .throw (plain _ (reported_ne_search _ _))
    | _ => exact .throw (plain _ fun _ => nofun)
  | ok related => exact counted.bind fun _ _ _ => .pure ⟨_, _, related, rfl, rfl⟩

/-- Two gradients of the problems' own correspond if the answers of their code do. -/
theorem askGradient_corresponds {f f' : Family} {Q : Reply α → Reply α → Prop}
    {code : Tensor α → ExceptT Raised (StateM σ) (Reply α)}
    {code' : Tensor α → ExceptT Raised (StateM τ) (Reply α)} (own : p.gradient? = some code)
    (own' : q.gradient? = some code')
    (counted : (modify Ledger.countGradient : Evaluation α σ PUnit).Corresponds L Eq F
      (modify Ledger.countGradient))
    (asked : (consult (code x) : Evaluation α σ _).Corresponds L (Agree Q Eq) F (consult (code' x'))) :
    (p.askGradient f x).Corresponds L Q F (q.askGradient f' x') := by
  unfold askGradient
  rw [own, own']
  refine counted.bind fun _ _ _ => asked.bind fun answer answer' answers => ?_
  cases answers with
  | ok related => exact .pure related
  | error same =>
    subst same
    exact .throw (plain _ (reported_ne_search _ _))

end Problem

/-- Two problems with twin code: both have a gradient of their own or neither has. -/
structure Problem.Twins (R : σ → τ → Prop) (p : Problem α σ) (q : Problem α τ) : Prop where
  cost : ∀ x, Twin R (p.cost x) (q.cost x)
  gradient : Option.Rel (fun code code' => ∀ x, Twin R (code x) (code' x)) p.gradient? q.gradient?

/-- A problem and the same problem with all its code wrapped are twins if the wrapped code takes the same course. -/
theorem Problem.Twins.of_wrapped {R : σ → τ → Prop} {p : Problem α τ}
    {cost : Tensor α → ExceptT Raised (StateM σ) α}
    {gradient : (Tensor α → ExceptT Raised (StateM τ) (Reply α)) →
      Tensor α → ExceptT Raised (StateM σ) (Reply α)}
    (costs : ∀ x, Twin R (cost x) (p.cost x)) (gradients : ∀ code x, Twin R (gradient code x) (code x)) :
    Problem.Twins R ⟨cost, p.gradient?.map gradient⟩ p where
  cost := costs
  gradient := by
    rcases own : p.gradient? with _ | code
    · rw [Option.map_none]
      exact .none
    · rw [Option.map_some]
      exact .some (gradients code)

namespace Problem

open Evaluation

variable [Scalar α]

theorem checkGradient_twin {L : Ledger σ → Ledger τ → Prop} (f : Family) (x : Tensor α)
    (reply : Reply α) :
    (checkGradient f x reply : Evaluation α σ (Tensor α)).Simulates L Eq
      (checkGradient f x reply : Evaluation α τ (Tensor α)) := by
  cases reply with
  | number => exact .throw _
  | tensor t =>
    refine (Simulates.ofOperands _).bind fun found _ same => ?_
    subst same
    refine (Simulates.ofOperands _).bind fun expected _ same => ?_
    subst same
    by_cases fits : found = expected
    · simp only [fits, ne_eq, not_true_eq_false, if_false]
      refine (Simulates.ofOperands _).bind fun finite _ same => ?_
      subst same
      by_cases hf : finite = true
      · simp only [hf, if_true]
        exact .pure rfl
      · simp only [hf]
        exact .throw _
    · simp only [fits, ne_eq, not_false_eq_true, if_true, throw_bind]
      exact .throw _

/-- What is checked has been counted before. -/
theorem outcome_checkGradient (f : Family) (x : Tensor α) (reply : Reply α) {l : Ledger σ} :
    ((checkGradient f x reply).outcome l).2 = l := by
  have kept : (checkGradient f x reply : Evaluation α σ (Tensor α)).Simulates (fun s (_ : Ledger σ) => s = l)
      Eq (checkGradient f x reply : Evaluation α σ (Tensor α)) := checkGradient_twin f x reply
  exact (kept l l rfl).1

variable {R : σ → τ → Prop} {L : Ledger σ → Ledger τ → Prop} {p : Problem α σ} {q : Problem α τ}

namespace Twins

variable (twins : p.Twins R q) (h : Ledger.Matching R L)

include twins h

/-- From matching ledgers twins answer the same costs. -/
theorem evaluateCost (x : Tensor α) : (p.evaluateCost x).Simulates L Eq (q.evaluateCost x) := by
  refine simulates_iff_corresponds.mpr (evaluateCost_corresponds (fun _ _ => rfl)
    (simulates_iff_corresponds.mp (family_twin h x)) ?_ (consult_twin h (twins.cost x)) ?_ ?_)
  · exact .change fun l m related => h.countCost l m 1 related
  · rintro c _ rfl
    rfl
  · rintro c _ rfl -
    rfl

/-- From matching ledgers twins answer the same difference quotients. -/
theorem differentiate (f : Family) (x : Tensor α) :
    (p.differentiate f x).Simulates L Eq (q.differentiate f x) := by
  have counted : Corresponds L Eq Eq
      (modify (Ledger.countCost · (Differences.evaluations x.values)) : Evaluation α σ PUnit)
      (modify (Ledger.countCost · (Differences.evaluations x.values))) :=
    .change fun l m related => h.countCost l m _ related
  refine simulates_iff_corresponds.mpr ((differentiate_corresponds (fun _ _ => rfl) counted
    (consult_twin h (.gradient (fun z => twins.cost _) _ _))).mono (fun t t' answers => ?_)
      fun _ _ => id)
  obtain ⟨g, _, rfl, rfl, rfl⟩ := answers
  rfl

theorem askGradient (f : Family) (x : Tensor α) :
    (p.askGradient f x).Simulates L Eq (q.askGradient f x) := by
  have codes := twins.gradient
  rcases own : p.gradient? with _ | code <;> rcases own' : q.gradient? with _ | code' <;>
    rw [own, own'] at codes <;> cases codes
  · unfold Problem.askGradient
    rw [own, own']
    refine (twins.differentiate h f x).bind fun gradient _ same => ?_
    subst same
    exact .pure rfl
  · rename_i same
    exact simulates_iff_corresponds.mpr (askGradient_corresponds (fun _ _ => rfl) own own'
      (.change fun l m related => h.countGradient l m related) (consult_twin h (same x)))

/-- **From matching ledgers twins answer the same gradients.** -/
theorem evaluateGradient (x : Tensor α) :
    (p.evaluateGradient x).Simulates L Eq (q.evaluateGradient x) := by
  refine (family_twin h x).bind fun family _ same => ?_
  subst same
  refine (twins.askGradient h family x).bind fun reply _ same => ?_
  subst same
  exact checkGradient_twin _ x reply

end Twins

end Problem

end QuasiNewton
