import QuasiNewton.Proofs.Objective.Counting
import QuasiNewton.Proofs.Objective.VectorCode
import QuasiNewton.Proofs.RankOne.Twins

/-!
# What a problem is asked

A noted problem is the same problem with code that keeps, in a part of the state that nothing else reads, a list of
all that it has been asked. Whatever is run on it takes the same course (`LineSearch.run_noted`), so the list of a
run on the noted problem is what the run asks of the problem, in the order in which it asks.
-/

set_option autoImplicit false

namespace QuasiNewton

open Attempt Tensor

variable {α σ ε β γ : Type} {n : ℕ}

/-- The same code, with a query added to the list. -/
def noted (q : Query α) (code : ExceptT ε (StateM σ) β) : ExceptT ε (StateM (σ × List (Query α))) β :=
  fun state =>
    let (answer, after) := code.run.run state.1
    (answer, after, state.2 ++ [q])

/-- The list changes nothing else. -/
theorem noted_twin (q : Query α) (code : ExceptT ε (StateM σ) β) :
    Twin (fun s t => s.1 = t) (noted q code) code := by
  rintro s _ rfl
  exact ⟨rfl, rfl⟩

theorem noted_map (q : Query α) (f : β → γ) (code : ExceptT ε (StateM σ) β) :
    noted q (f <$> code) = f <$> noted q code := by
  funext state
  have mapped {τ : Type} (code : ExceptT ε (StateM τ) β) (s : τ) :
      (f <$> code).run.run s = (f <$> (code.run.run s).1, (code.run.run s).2) := by
    simp only [ExceptT.run_map, StateT.run_map]
    rfl
  have answered := mapped code state.1
  have whole := mapped (noted q code) state
  exact (congrArg (fun r : Except ε γ × σ => (r.1, r.2, state.2 ++ [q])) answered).trans whole.symm

namespace Problem

/-- The same problem, with all that it is asked added to a list. -/
def noted (p : Problem α σ) : Problem α (σ × List (Query α)) where
  cost x := QuasiNewton.noted (.cost x) (p.cost x)
  gradient? := p.gradient?.map fun code x => QuasiNewton.noted (.gradient x) (code x)

theorem noted_twins (p : Problem α σ) : p.noted.Twins (fun s t => s.1 = t) p :=
  .of_wrapped (fun x => noted_twin _ (p.cost x)) fun code x => noted_twin _ (code x)

end Problem

/-- The same ledger with an empty list. -/
def Ledger.noting (α : Type) (l : Ledger σ) : Ledger (σ × List (Query α)) := { l with state := (l.state, []) }

namespace LineSearch

variable [Scalar α]

/-- A search takes the same course whether its queries are noted or not. -/
theorem run_noted (s : LineSearch α) (p : Problem α σ) :
    (s.run p.noted).Simulates (Ledger.SameCounts fun s t => s.1 = t) Eq (s.run p) :=
  run_twin p.noted_twins (Ledger.sameCounts_matching _) s

/-- What a search asks of a problem, in the order in which it asks. -/
def queries (s : LineSearch α) (p : Problem α σ) (l : Ledger σ) : List (Query α) :=
  ((s.run p.noted).outcome (l.noting α)).2.state.2

end LineSearch

/-- Code on vectors, with all that it is asked added to a list. -/
noncomputable def VectorCode.noted (code : VectorCode n σ) (family : Family) :
    VectorCode n (σ × List (Query ℝ)) where
  cost x := QuasiNewton.noted (.cost (ofVector family x)) (code.cost x)
  gradient x := QuasiNewton.noted (.gradient (ofVector family x)) (code.gradient x)

theorem Problem.Follows.noted {p : Problem ℝ σ} {family : Family} {code : VectorCode n σ}
    (follows : p.Follows family code) : p.noted.Follows family (code.noted family) where
  cost x := congrArg (QuasiNewton.noted _) (follows.cost x)
  gradient := by
    obtain ⟨asked, reply, given, replies, asks⟩ := follows.gradient
    refine ⟨fun x => QuasiNewton.noted (.gradient x) (asked x), reply, ?_, replies, fun x => ?_⟩
    · rw [Problem.noted, given, Option.map_some]
    · exact (congrArg (QuasiNewton.noted _) (asks x)).trans (noted_map _ _ _)

end QuasiNewton
