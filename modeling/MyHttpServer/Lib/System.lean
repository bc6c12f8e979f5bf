/-
  Transition systems.

  * `Reachable.induct`: a property of the first states that every step keeps
    holds of all reachable states;
  * `exists_stuck`: if a measure drops at every step, a state without a step
    can be reached.
-/
import Mathlib.Tactic

/-- A system, by its first states and its steps. -/
structure System (S : Type*) where
  init : S → Prop
  step : S → S → Prop

namespace System
variable {S : Type*} {T : System S}

/-- A state that some run leads to. -/
inductive Reachable (T : System S) : S → Prop
  | init {s} : T.init s → Reachable T s
  | step {s t} : Reachable T s → T.step s t → Reachable T t

/-- The system that makes only the steps of `T` that satisfy `P`. -/
def only (T : System S) (P : S → S → Prop) : System S where
  init := T.init
  step s t := T.step s t ∧ P s t

/-- No step is possible. -/
def Stuck (T : System S) (s : S) : Prop := ∀ t, ¬ T.step s t

/-- **Invariants.** -/
theorem Reachable.induct {I : S → Prop} (hinit : ∀ s, T.init s → I s)
    (hstep : ∀ s t, I s → T.step s t → I t) {s : S} (h : T.Reachable s) : I s := by
  induction h with
  | init h => exact hinit _ h
  | step _ h ih => exact hstep _ _ ih h

/-- **Runs come to an end** if a measure drops at every step. -/
theorem exists_stuck {β : Type*} {r : β → β → Prop} (wf : WellFounded r) (μ : S → β)
    (hμ : ∀ s t, T.step s t → r (μ t) (μ s)) {s : S} (h : T.Reachable s) :
    ∃ t, T.Reachable t ∧ T.Stuck t := by
  induction hb : μ s using wf.induction generalizing s with
  | _ b ih =>
    subst hb
    by_cases hs : T.Stuck s
    · exact ⟨s, h, hs⟩
    · simp only [Stuck, not_forall, not_not] at hs
      obtain ⟨t, ht⟩ := hs
      exact ih _ (hμ _ _ ht) (h.step ht) rfl

end System
