import QuasiNewton.Setting
import QuasiNewton.Solver

/-!
# Outcomes of attempts

Three ways to reason about attempts, each with one lemma for every way to put attempts together. A
result is taken back to the parts it came from. `Attempt.Ensures` says what holds of the result or of
the fault and of the state after it, and is proved from the first part of an attempt to the last;
`Attempt.FailsOnly` is what it says of faults from every state.
`Attempt.Corresponds` puts two attempts side by side: from related states they both succeed with related
results or both fail with related faults, and they leave related states. `Attempt.Simulates` is the case
of equal faults.
-/

set_option autoImplicit false

namespace QuasiNewton

/-! ### Computations that may fail -/

/-- What follows a computation has succeeded only after the computation. -/
theorem except_bind_ok {ε β γ : Type} {x : Except ε β} {next : β → Except ε γ} {y : γ} :
    x >>= next = .ok y ↔ ∃ a, x = .ok a ∧ next a = .ok y := by
  cases x with
  | error e => simp [bind, Except.bind]
  | ok a => simp [bind, Except.bind]

theorem mapError_of_ok {ε δ β : Type} (y : β) (f : ε → δ) :
    (Except.ok y : Except ε β).mapError f = .ok y := rfl

theorem mapError_ok {ε δ β : Type} {x : Except ε β} {f : ε → δ} {y : β} :
    x.mapError f = .ok y ↔ x = .ok y := by
  cases x with
  | error e => exact ⟨nofun, nofun⟩
  | ok z => simp [mapError_of_ok]

theorem require_ok {α : Type} {holds : Bool} {otherwise : SettingFault} {u : Unit} :
    (require holds otherwise : Except (Fault α) Unit) = .ok u ↔ holds = true := by
  cases holds <;> simp [require]

/-- Two computations agree: both succeed with results related by `Q`, or both fail with faults related by
`F`. -/
inductive Agree {ε δ β γ : Type} (Q : β → γ → Prop) (F : ε → δ → Prop) :
    Except ε β → Except δ γ → Prop
  | ok {x : β} {y : γ} (related : Q x y) : Agree Q F (.ok x) (.ok y)
  | error {e : ε} {f : δ} (related : F e f) : Agree Q F (.error e) (.error f)

namespace Agree

variable {ε δ β γ β' γ' : Type} {Q : β → γ → Prop} {F : ε → δ → Prop} {x : Except ε β}
  {y : Except δ γ}

theorem mono (h : Agree Q F x y) {Q' : β → γ → Prop} {F' : ε → δ → Prop}
    (success : ∀ a b, Q a b → Q' a b) (failure : ∀ e f, F e f → F' e f) : Agree Q' F' x y := by
  cases h with
  | ok related => exact .ok (success _ _ related)
  | error related => exact .error (failure _ _ related)

theorem bind (h : Agree Q F x y) {Q' : β' → γ' → Prop} {f : β → Except ε β'} {g : γ → Except δ γ'}
    (next : ∀ a b, Q a b → Agree Q' F (f a) (g b)) : Agree Q' F (x >>= f) (y >>= g) := by
  cases h with
  | ok related => exact next _ _ related
  | error related => exact .error related

/-- Two computations that agree do so with what is known of the result of the first one. -/
theorem and (h : Agree Q F x y) {P : β → Prop} (known : ∀ a, x = .ok a → P a) :
    Agree (fun a b => Q a b ∧ P a) F x y := by
  cases h with
  | ok related => exact .ok ⟨related, known _ rfl⟩
  | error related => exact .error related

theorem trans {ζ θ : Type} {G : γ → θ → Prop} {K : δ → ζ → Prop} {z : Except ζ θ} (h : Agree Q F x y)
    (k : Agree G K y z) : Agree (fun a c => ∃ b, Q a b ∧ G b c) (fun e g => ∃ f, F e f ∧ K f g) x z := by
  cases h with
  | ok related =>
    cases k with
    | ok further => exact .ok ⟨_, related, further⟩
  | error related =>
    cases k with
    | error further => exact .error ⟨_, related, further⟩

theorem of_eq {x y : Except ε β} (h : x = y) : Agree Eq Eq x y := by
  subst h
  cases x with
  | ok a => exact .ok rfl
  | error e => exact .error rfl

theorem eq {x y : Except ε β} (h : Agree Eq Eq x y) : x = y := by
  cases h with
  | ok related => rw [related]
  | error related => rw [related]

theorem eq_map {f : β → γ} {x : Except ε β} {y : Except ε γ}
    (h : Agree (fun a b => b = f a) (fun e e' => e' = e) x y) : y = x.map f := by
  cases h with
  | ok related => rw [related, Except.map]
  | error related => rw [related, Except.map]

end Agree

namespace Attempt

variable {α σ τ β γ δ : Type}

theorem ofOperands_of_ok (x : β) : (ofOperands (.ok x) : Attempt α σ β) = pure x := rfl

theorem ofExcept_of_ok (x : β) : (ofExcept (.ok x) : Attempt α σ β) = pure x := rfl

theorem throw_bind (fault : Fault α) (next : β → Attempt α σ γ) :
    (throw fault >>= next) = throw fault := rfl

/-! ### Success -/

theorem bind_ok {a : Attempt α σ β} {next : β → Attempt α σ γ} {s s' : σ} {y : γ} :
    (a >>= next).outcome s = (.ok y, s') ↔
      ∃ x t, a.outcome s = (.ok x, t) ∧ (next x).outcome t = (.ok y, s') := by
  rw [outcome_bind]
  rcases a.outcome s with ⟨result, t⟩
  cases result with
  | error fault => simp
  | ok x => simp [and_assoc]

theorem bind_error {a : Attempt α σ β} {next : β → Attempt α σ γ} {s s' : σ} {e : Fault α} :
    (a >>= next).outcome s = (.error e, s') ↔
      a.outcome s = (.error e, s') ∨
        ∃ x t, a.outcome s = (.ok x, t) ∧ (next x).outcome t = (.error e, s') := by
  rw [outcome_bind]
  rcases a.outcome s with ⟨result, t⟩
  cases result with
  | error fault => simp
  | ok x => simp [and_assoc]

theorem pure_ok {x y : β} {s s' : σ} :
    (pure x : Attempt α σ β).outcome s = (.ok y, s') ↔ x = y ∧ s = s' := by
  simp

theorem get_ok {x s s' : σ} :
    (get : Attempt α σ σ).outcome s = (.ok x, s') ↔ s = x ∧ s = s' := by
  simp

theorem modify_ok {f : σ → σ} {u : PUnit} {s s' : σ} :
    (modify f : Attempt α σ PUnit).outcome s = (.ok u, s') ↔ f s = s' := by
  simp

theorem throw_ok {fault : Fault α} {y : β} {s s' : σ} :
    ¬ (throw fault : Attempt α σ β).outcome s = (.ok y, s') := by
  simp

theorem ofOperands_ok {r : Except Mismatch β} {y : β} {s s' : σ} :
    (ofOperands r : Attempt α σ β).outcome s = (.ok y, s') ↔ r = .ok y ∧ s = s' := by
  cases r <;> simp

theorem ofExcept_ok {r : Except (Fault α) β} {y : β} {s s' : σ} :
    (ofExcept r : Attempt α σ β).outcome s = (.ok y, s') ↔ r = .ok y ∧ s = s' := by
  simp

/-- Where no handler succeeds, only what is tried can have succeeded. -/
theorem tryCatch_ok {a : Attempt α σ β} {handler : Fault α → Attempt α σ β} {s s' : σ} {y : β}
    (passed : ∀ fault t, ¬ (handler fault).outcome t = (.ok y, s'))
    (h : (tryCatch a handler).outcome s = (.ok y, s')) : a.outcome s = (.ok y, s') := by
  rw [outcome_tryCatch] at h
  rcases tried : a.outcome s with ⟨fault | x, t⟩ <;> rw [tried] at h
  · exact absurd h (passed fault t)
  · exact h

/-- An attempt on a part of the state has succeeded where the attempt on that part has. -/
theorem onPart_ok {read : σ → τ} {write : τ → σ → σ} {a : Attempt α τ β} {y : β} {s s' : σ} :
    (onPart read write a : Attempt α σ β).outcome s = (.ok y, s') ↔
      ∃ t, a.outcome (read s) = (.ok y, t) ∧ write t s = s' := by
  rw [outcome_onPart]
  rcases a.outcome (read s) with ⟨result, t⟩
  constructor
  · intro h
    obtain ⟨rfl, rfl⟩ := Prod.mk.inj h
    exact ⟨t, rfl, rfl⟩
  · rintro ⟨t', h, rfl⟩
    obtain ⟨rfl, rfl⟩ := Prod.mk.inj h
    rfl

/-! ### Guarantees -/

/-- From the state `s` an attempt either succeeds with a result and a state that satisfy `P`, or fails
with a fault and a state that satisfy `E`. -/
def Ensures (a : Attempt α σ β) (s : σ) (P : β → σ → Prop) (E : Fault α → σ → Prop) : Prop :=
  match a.outcome s with
  | (.ok x, t) => P x t
  | (.error fault, t) => E fault t

section Ensures

variable {s : σ} {P Q : β → σ → Prop} {E F : Fault α → σ → Prop}

theorem ensures_get {P : σ → σ → Prop} : (get : Attempt α σ σ).Ensures s P E ↔ P s s := Iff.rfl

theorem ensures_pure {x : β} : (pure x : Attempt α σ β).Ensures s P E ↔ P x s := Iff.rfl

theorem ensures_modify {f : σ → σ} {P : PUnit → σ → Prop} :
    (modify f : Attempt α σ PUnit).Ensures s P E ↔ P ⟨⟩ (f s) := Iff.rfl

/-- What follows an attempt has to ensure the guarantee from what the attempt leaves. -/
theorem ensures_bind {a : Attempt α σ β} {next : β → Attempt α σ γ} {P : γ → σ → Prop} :
    (a >>= next).Ensures s P E ↔ a.Ensures s (fun x t => (next x).Ensures t P E) E := by
  simp only [Ensures, outcome_bind]
  rcases a.outcome s with ⟨result, t⟩
  cases result <;> rfl

theorem ensures_onPart {read : σ → τ} {write : τ → σ → σ} {a : Attempt α τ β} :
    (onPart read write a : Attempt α σ β).Ensures s P E ↔
      a.Ensures (read s) (fun x t => P x (write t s)) (fun fault t => E fault (write t s)) := by
  simp only [Ensures, outcome_onPart]
  rcases a.outcome (read s) with ⟨result, t⟩
  cases result <;> rfl

theorem Ensures.mono {a : Attempt α σ β} (h : a.Ensures s P E) (success : ∀ x t, P x t → Q x t)
    (failure : ∀ fault t, E fault t → F fault t) : a.Ensures s Q F := by
  unfold Ensures at h ⊢
  split <;> simp_all

theorem Ensures.and {a : Attempt α σ β} (h : a.Ensures s P E) (k : a.Ensures s Q F) :
    a.Ensures s (fun x t => P x t ∧ Q x t) fun fault t => E fault t ∧ F fault t := by
  unfold Ensures at h k ⊢
  split <;> simp_all

theorem Ensures.mono_state {a : Attempt α σ β} {P Q : σ → Prop} (h : a.Ensures s (fun _ => P) fun _ => P)
    (leads : ∀ t, P t → Q t) : a.Ensures s (fun _ => Q) fun _ => Q :=
  h.mono (fun _ => leads) fun _ => leads

/-- What is ensured of the state however an attempt ends. -/
theorem Ensures.state {a : Attempt α σ β} {P : σ → Prop} (h : a.Ensures s (fun _ => P) fun _ => P) :
    P (a.outcome s).2 := by
  unfold Ensures at h
  rcases run : a.outcome s with ⟨fault | x, t⟩ <;> rw [run] at h <;> exact h

/-- What is shown of a result may use the run it comes from. -/
theorem ensures_outcome (a : Attempt α σ β) (s : σ) :
    a.Ensures s (fun x t => a.outcome s = (.ok x, t)) fun e t => a.outcome s = (.error e, t) := by
  unfold Ensures
  split
  · assumption
  · assumption

/-- A handler has to ensure the guarantee from what the failure leaves. -/
theorem Ensures.tryCatch {a : Attempt α σ β} {handler : Fault α → Attempt α σ β} (h : a.Ensures s P E)
    (k : ∀ e t, E e t → (handler e).Ensures t P F) : (MonadExcept.tryCatch a handler).Ensures s P F := by
  unfold Ensures at h k ⊢
  rw [outcome_tryCatch]
  rcases run : a.outcome s with ⟨e | x, t⟩ <;> rw [run] at h
  · exact k e t h
  · exact h

theorem Ensures.of_ok {a : Attempt α σ β} (h : a.Ensures s P E) {x : β} {t : σ}
    (run : a.outcome s = (.ok x, t)) : P x t := by
  simpa [Ensures, run] using h

/-- What does not fail succeeds. -/
theorem Ensures.exists_ok {a : Attempt α σ β} (h : a.Ensures s P fun _ _ => False) :
    ∃ x t, a.outcome s = (.ok x, t) ∧ P x t := by
  unfold Ensures at h
  rcases run : a.outcome s with ⟨fault | x, t⟩ <;> rw [run] at h
  · exact h.elim
  · exact ⟨x, t, rfl, h⟩

/-- What cannot succeed fails. -/
theorem Ensures.exists_error {a : Attempt α σ β} (h : a.Ensures s (fun _ _ => False) E) :
    ∃ fault t, a.outcome s = (.error fault, t) ∧ E fault t := by
  unfold Ensures at h
  rcases run : a.outcome s with ⟨fault | x, t⟩ <;> rw [run] at h
  · exact ⟨fault, t, rfl, h⟩
  · exact h.elim

theorem Ensures.of_error {a : Attempt α σ β} (h : a.Ensures s P E) {fault : Fault α} {t : σ}
    (run : a.outcome s = (.error fault, t)) : E fault t := by
  simpa [Ensures, run] using h

theorem ensures_of_ok {a : Attempt α σ β} {x : β} {t : σ} (run : a.outcome s = (.ok x, t)) (h : P x t) :
    a.Ensures s P E := by
  simpa [Ensures, run] using h

end Ensures

/-- Whatever state it starts from, an attempt fails by faults with a property only. -/
def FailsOnly (E : Fault α → Prop) (a : Attempt α σ β) : Prop :=
  ∀ s, a.Ensures s (fun _ _ => True) fun fault _ => E fault

namespace FailsOnly

variable {E F : Fault α → Prop} {a : Attempt α σ β}

theorem pure (x : β) : (Pure.pure x : Attempt α σ β).FailsOnly E := fun _ => trivial

theorem throw {fault : Fault α} (h : E fault) :
    (MonadExcept.throw fault : Attempt α σ β).FailsOnly E := fun _ => h

theorem states : (get : Attempt α σ σ).FailsOnly E := fun _ => trivial

theorem change (f : σ → σ) : (modify f : Attempt α σ PUnit).FailsOnly E := fun _ => trivial

theorem ofOperands (r : Except Mismatch β) (mismatch : ∀ cause, E (.mismatch cause)) :
    (Attempt.ofOperands r : Attempt α σ β).FailsOnly E := by
  cases r with
  | ok x => exact pure x
  | error cause => exact throw (mismatch cause)

theorem ofExcept {r : Except (Fault α) β} (h : ∀ fault, r = .error fault → E fault) :
    (Attempt.ofExcept r : Attempt α σ β).FailsOnly E := by
  cases r with
  | ok x => exact pure x
  | error fault => exact throw (h fault rfl)

theorem bind {next : β → Attempt α σ γ} (first : a.FailsOnly E) (rest : ∀ x, (next x).FailsOnly E) :
    (a >>= next).FailsOnly E :=
  fun s => ensures_bind.mpr ((first s).mono (fun x t _ => rest x t) fun _ _ => id)

theorem onPart {read : σ → τ} {write : τ → σ → σ} {a : Attempt α τ β} (h : a.FailsOnly E) :
    (Attempt.onPart read write a : Attempt α σ β).FailsOnly E :=
  fun s => ensures_onPart.mpr (h (read s))

theorem mono (h : a.FailsOnly E) (more : ∀ fault, E fault → F fault) : a.FailsOnly F :=
  fun s => (h s).mono (fun _ _ => id) fun fault _ => more fault

end FailsOnly

/-! ### Correspondence -/

/-- Two attempts correspond: from states related by `R` they agree, with results related by `Q` and faults
related by `F`, and the states after them are related by `R` again. -/
def Corresponds (R : σ → τ → Prop) (Q : β → γ → Prop) (F : Fault α → Fault α → Prop)
    (a : Attempt α σ β) (b : Attempt α τ γ) : Prop :=
  ∀ s t, R s t → R (a.outcome s).2 (b.outcome t).2 ∧ Agree Q F (a.outcome s).1 (b.outcome t).1

section Corresponds

variable {σ' τ' β' γ' : Type} {R : σ → τ → Prop} {Q : β → γ → Prop} {F : Fault α → Fault α → Prop}
  {a : Attempt α σ β} {b : Attempt α τ γ}

theorem Corresponds.pure {x : β} {y : γ} (h : Q x y) :
    Corresponds R Q F (Pure.pure x) (Pure.pure y) :=
  fun _ _ related => ⟨related, .ok h⟩

theorem Corresponds.throw {e f : Fault α} (h : F e f) :
    Corresponds R Q F (MonadExcept.throw e) (MonadExcept.throw f) :=
  fun _ _ related => ⟨related, .error h⟩

theorem Corresponds.ofExcept {r : Except (Fault α) β} {r' : Except (Fault α) γ} (h : Agree Q F r r') :
    Corresponds R Q F (Attempt.ofExcept r) (Attempt.ofExcept r') := by
  cases h with
  | ok related => exact .pure related
  | error related => exact .throw related

theorem Corresponds.ofOperands {r : Except Mismatch β} {r' : Except Mismatch γ} (h : Agree Q Eq r r')
    (mismatch : ∀ cause, F (.mismatch cause) (.mismatch cause)) :
    Corresponds R Q F (Attempt.ofOperands r) (Attempt.ofOperands r') := by
  cases h with
  | ok related => exact .pure related
  | error related => exact .throw (related ▸ mismatch _)

/-- What is read of the states is related by what relates the states. -/
theorem Corresponds.states : Corresponds R R F (get : Attempt α σ σ) get :=
  fun _ _ related => ⟨related, .ok related⟩

theorem Corresponds.change {f : σ → σ} {g : τ → τ} (h : ∀ s t, R s t → R (f s) (g t)) :
    Corresponds R Eq F (modify f : Attempt α σ PUnit) (modify g) :=
  fun s t related => ⟨h s t related, .ok rfl⟩

theorem Corresponds.bind {Q' : β' → γ' → Prop} {f : β → Attempt α σ β'} {g : γ → Attempt α τ γ'}
    (first : Corresponds R Q F a b) (next : ∀ x y, Q x y → Corresponds R Q' F (f x) (g y)) :
    Corresponds R Q' F (a >>= f) (b >>= g) := by
  intro s t related
  obtain ⟨after, answers⟩ := first s t related
  rw [outcome_bind, outcome_bind]
  rcases ha : a.outcome s with ⟨result, s'⟩
  rcases hb : b.outcome t with ⟨result', t'⟩
  rw [ha, hb] at after answers
  cases answers with
  | ok same => exact next _ _ same s' t' after
  | error same => exact ⟨after, .error same⟩

theorem Corresponds.mono (h : Corresponds R Q F a b) {Q' : β → γ → Prop} {F' : Fault α → Fault α → Prop}
    (success : ∀ x y, Q x y → Q' x y) (failure : ∀ e f, F e f → F' e f) : Corresponds R Q' F' a b := by
  intro s t related
  obtain ⟨after, answers⟩ := h s t related
  exact ⟨after, answers.mono success failure⟩

/-- Attempts on parts of the states correspond where the parts are related. -/
theorem Corresponds.onPart {P : σ' → τ' → Prop} {read : σ → σ'} {write : σ' → σ → σ} {read' : τ → τ'}
    {write' : τ' → τ → τ} {a : Attempt α σ' β} {b : Attempt α τ' γ} (h : Corresponds P Q F a b)
    (reads : ∀ s t, R s t → P (read s) (read' t))
    (writes : ∀ s t u v, R s t → P u v → R (write u s) (write' v t)) :
    Corresponds R Q F (Attempt.onPart read write a) (Attempt.onPart read' write' b) := by
  intro s t related
  obtain ⟨after, answers⟩ := h _ _ (reads s t related)
  exact ⟨writes s t _ _ related after, answers⟩

theorem Corresponds.tryCatch {E : Fault α → Fault α → Prop} {handler : Fault α → Attempt α σ β}
    {handler' : Fault α → Attempt α τ γ} (body : Corresponds R Q E a b)
    (handled : ∀ e f, E e f → Corresponds R Q F (handler e) (handler' f)) :
    Corresponds R Q F (MonadExcept.tryCatch a handler) (MonadExcept.tryCatch b handler') := by
  intro s t related
  obtain ⟨after, answers⟩ := body s t related
  rw [outcome_tryCatch, outcome_tryCatch]
  rcases ha : a.outcome s with ⟨result, s'⟩
  rcases hb : b.outcome t with ⟨result', t'⟩
  rw [ha, hb] at after answers
  cases answers with
  | ok same => exact ⟨after, .ok same⟩
  | error same => exact handled _ _ same s' t' after

end Corresponds

/-- Every attempt corresponds to itself, with what is known of its result. -/
theorem corresponds_refl {a : Attempt α σ β} {Q : β → Prop}
    (h : ∀ s x t, a.outcome s = (.ok x, t) → Q x) : Corresponds Eq (fun x y => y = x ∧ Q x) Eq a a := by
  rintro s _ rfl
  refine ⟨rfl, ?_⟩
  rcases run : a.outcome s with ⟨fault | x, t⟩
  · exact .error rfl
  · exact .ok ⟨rfl, h s x t run⟩

/-- Attempts that keep a property of the state correspond to themselves, with the faults that they have. -/
theorem corresponds_self {I : σ → Prop} {E : Fault α → Prop} {a : Attempt α σ β}
    (h : ∀ s, I s → a.Ensures s (fun _ t => I t) fun fault t => E fault ∧ I t) :
    Corresponds (fun s t => t = s ∧ I s) (fun x y => y = x) (fun fault _ => E fault) a a := by
  rintro _ s ⟨rfl, hs⟩
  have kept := h _ hs
  unfold Ensures at kept
  rcases run : a.outcome s with ⟨fault | x, t⟩ <;> rw [run] at kept
  · exact ⟨⟨rfl, kept.2⟩, .error kept.1⟩
  · exact ⟨⟨rfl, kept⟩, .ok rfl⟩

/-- What corresponds to itself keeps the property of the state, and its faults are among those that
correspond to themselves. -/
theorem Corresponds.ensures_self {I : σ → Prop} {Q : β → β → Prop} {F : Fault α → Fault α → Prop}
    {a : Attempt α σ β} (h : Corresponds (fun s t => t = s ∧ I s) Q F a a) {s : σ} (hs : I s) :
    a.Ensures s (fun _ t => I t) fun fault t => F fault fault ∧ I t := by
  obtain ⟨⟨-, kept⟩, answers⟩ := h s s ⟨rfl, hs⟩
  unfold Ensures
  rcases run : a.outcome s with ⟨fault | x, t⟩ <;> rw [run] at kept answers
  · cases answers with
    | error related => exact ⟨related, kept⟩
  · exact kept

/-! ### Simulation -/

/-- Two attempts simulate each other: from states related by `R` they fail with one fault or succeed
with results related by `Q`, and the states after them are related by `R` again. -/
def Simulates (R : σ → τ → Prop) (Q : β → γ → Prop) (a : Attempt α σ β) (b : Attempt α τ γ) : Prop :=
  ∀ s t, R s t →
    R (a.outcome s).2 (b.outcome t).2 ∧
      match (a.outcome s).1, (b.outcome t).1 with
      | .ok x, .ok y => Q x y
      | .error e, .error f => e = f
      | _, _ => False

section Simulates

variable {R : σ → τ → Prop} {Q : β → γ → Prop}

/-- To simulate each other is to correspond with equal faults. -/
theorem simulates_iff_corresponds {a : Attempt α σ β} {b : Attempt α τ γ} :
    Simulates R Q a b ↔ Corresponds R Q Eq a b := by
  refine forall₃_congr fun s t _ => and_congr_right fun _ => ?_
  rcases (a.outcome s).1 with e | x <;> rcases (b.outcome t).1 with f | y
  · exact ⟨fun same => .error same, fun | .error same => same⟩
  · exact ⟨nofun, nofun⟩
  · exact ⟨nofun, nofun⟩
  · exact ⟨fun related => .ok related, fun | .ok related => related⟩

theorem Simulates.pure {x : β} {y : γ} (h : Q x y) :
    Simulates (α := α) R Q (Pure.pure x) (Pure.pure y) :=
  simulates_iff_corresponds.mpr (.pure h)

theorem Simulates.throw (fault : Fault α) :
    Simulates R Q (MonadExcept.throw fault : Attempt α σ β) (MonadExcept.throw fault) :=
  simulates_iff_corresponds.mpr (.throw rfl)

theorem Simulates.ofExcept (r : Except (Fault α) β) :
    Simulates R Eq (Attempt.ofExcept r) (Attempt.ofExcept r) :=
  simulates_iff_corresponds.mpr (.ofExcept (.of_eq rfl))

theorem Simulates.ofOperands (r : Except Mismatch β) :
    Simulates (α := α) R Eq (Attempt.ofOperands r) (Attempt.ofOperands r) :=
  simulates_iff_corresponds.mpr (.ofOperands (.of_eq rfl) fun _ => rfl)

theorem Simulates.bind {β' γ' : Type} {Q' : β' → γ' → Prop} {a : Attempt α σ β} {b : Attempt α τ γ}
    {f : β → Attempt α σ β'} {g : γ → Attempt α τ γ'} (first : Simulates R Q a b)
    (next : ∀ x y, Q x y → Simulates R Q' (f x) (g y)) : Simulates R Q' (a >>= f) (b >>= g) :=
  simulates_iff_corresponds.mpr ((simulates_iff_corresponds.mp first).bind fun x y related =>
    simulates_iff_corresponds.mp (next x y related))

theorem Simulates.change {f : σ → σ} {g : τ → τ} (h : ∀ s t, R s t → R (f s) (g t)) :
    Simulates (α := α) R Eq (modify f) (modify g) :=
  simulates_iff_corresponds.mpr (.change h)

/-- What one of two attempts ensures, the other one ensures as well, but for the states. -/
theorem Simulates.ensures {a : Attempt α σ β} {b : Attempt α τ β} (h : Simulates R Eq a b) {s : σ}
    {t : τ} (related : R s t) {P : β → σ → Prop} {E : Fault α → σ → Prop} (ensures : a.Ensures s P E) :
    b.Ensures t (fun x t' => ∃ s', R s' t' ∧ P x s') fun fault t' => ∃ s', R s' t' ∧ E fault s' := by
  obtain ⟨after, answers⟩ := h s t related
  unfold Ensures at ensures ⊢
  rcases ha : a.outcome s with ⟨x | x, s'⟩ <;> rcases hb : b.outcome t with ⟨y | y, t'⟩ <;>
    simp only [ha, hb] at after answers ensures ⊢ <;> subst answers <;> exact ⟨s', after, ensures⟩

/-- Attempts that simulate each other with equal results answer the same. -/
theorem Simulates.answer_eq {a : Attempt α σ β} {b : Attempt α τ β} (h : Simulates R Eq a b) {s : σ}
    {t : τ} (related : R s t) : (a.outcome s).1 = (b.outcome t).1 := by
  have answers := (h s t related).2
  rcases ha : (a.outcome s).1 with x | x <;> rcases hb : (b.outcome t).1 with y | y <;>
    simp_all

/-- An attempt that simulates another one on a part of its state has the outcome of the other one on that part. -/
theorem Simulates.outcome_eq {f : σ → τ} {a : Attempt α σ β} {b : Attempt α τ β}
    (h : Simulates (fun s t => f s = t) Eq a b) (s : σ) :
    b.outcome (f s) = ((a.outcome s).1, f (a.outcome s).2) :=
  Prod.ext (h.answer_eq rfl).symm (h s (f s) rfl).1.symm

end Simulates

end Attempt

end QuasiNewton
