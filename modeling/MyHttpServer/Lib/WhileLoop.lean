/-
  Loops with a variant.

  A `WhileLoop` is the body of a loop of an imperative program: from a state
  it either goes round once more or leaves the loop with a result, and a
  variant decreases at every further round.  `run` executes the loop.  It
  recurses on a bound for the variant, so that it is total and computes.

  * `run_next`, `run_done`: the loop unrolled once;
  * `run_induct`: induction over the rounds of a run;
  * `run_map`: simulation of one loop by another.

  A `Producer` is a loop that collects an item at each round, with the same
  three rules.
-/
import Mathlib.Tactic

/-- A loop body on states `σ` with results `ρ`: `.inl` goes round again,
    `.inr` leaves the loop. -/
structure WhileLoop (σ ρ : Type*) where
  step : σ → σ ⊕ ρ
  variant : σ → ℕ
  variant_lt : ∀ {s t}, step s = .inl t → variant t < variant s

namespace WhileLoop
variable {σ ρ : Type*} (L : WhileLoop σ ρ)

/-- At most `n` rounds, enough if the variant is below `n`. -/
def runFor : (n : ℕ) → (s : σ) → L.variant s < n → ρ
  | n + 1, s, h =>
    match hs : L.step s with
    | .inl t => runFor n t (by have := L.variant_lt hs; omega)
    | .inr r => r

/-- The result of the loop started in `s`. -/
def run (s : σ) : ρ := L.runFor (L.variant s + 1) s (Nat.lt_succ_self _)

variable {L}

theorem runFor_next {n : ℕ} {s t : σ} (hs : L.step s = .inl t) (h : L.variant s < n + 1)
    (h' : L.variant t < n) : L.runFor (n + 1) s h = L.runFor n t h' := by
  rw [runFor]
  split
  · rename_i t' ht
    rw [hs] at ht; cases ht; rfl
  · rename_i r hr
    rw [hs] at hr; cases hr

theorem runFor_done {n : ℕ} {s : σ} {r : ρ} (hs : L.step s = .inr r) (h : L.variant s < n + 1) :
    L.runFor (n + 1) s h = r := by
  rw [runFor]
  split
  · rename_i t ht
    rw [hs] at ht; cases ht
  · rename_i r' hr
    rw [hs] at hr; cases hr; rfl

/-- The bound on the number of rounds does not matter. -/
theorem runFor_congr : ∀ {n m : ℕ} {s : σ} (hn : L.variant s < n) (hm : L.variant s < m),
    L.runFor n s hn = L.runFor m s hm
  | n + 1, m + 1, s, hn, hm => by
    cases hs : L.step s with
    | inl t =>
      have ht := L.variant_lt hs
      rw [runFor_next hs hn (by omega), runFor_next hs hm (by omega)]
      exact runFor_congr _ _
    | inr r => rw [runFor_done hs, runFor_done hs]

theorem run_next {s t : σ} (hs : L.step s = .inl t) : L.run s = L.run t := by
  have ht := L.variant_lt hs
  rw [run, runFor_next hs _ ht]
  exact runFor_congr _ _

theorem run_done {s : σ} {r : ρ} (hs : L.step s = .inr r) : L.run s = r :=
  runFor_done hs _

/-- **Induction over the rounds of a run.** -/
theorem run_induct {P : σ → ρ → Prop} (done : ∀ s r, L.step s = .inr r → P s r)
    (next : ∀ s t, L.step s = .inl t → P t (L.run t) → P s (L.run t)) (s : σ) :
    P s (L.run s) := by
  induction hn : L.variant s using Nat.strong_induction_on generalizing s with
  | _ n ih =>
    subst hn
    cases hs : L.step s with
    | inl t =>
      rw [run_next hs]
      exact next s t hs (ih _ (L.variant_lt hs) t rfl)
    | inr r =>
      rw [run_done hs]
      exact done s r hs

/-- **A loop that simulates another one**, step by step, has the same result. -/
theorem run_map {σ' ρ' : Type*} {L' : WhileLoop σ' ρ'} {f : σ → σ'} {g : ρ → ρ'}
    (h : ∀ s, L'.step (f s) = (L.step s).map f g) (s : σ) : L'.run (f s) = g (L.run s) := by
  refine run_induct (P := fun s r => L'.run (f s) = g r) ?_ ?_ s
  · intro s r hs
    exact run_done (by rw [h, hs]; rfl)
  · intro s t hs ih
    rw [← ih]
    exact run_next (by rw [h, hs]; rfl)

end WhileLoop

/-! ## Loops that collect -/

/-- A loop body that at each round delivers an item, `.inl`, or ends the loop,
    `.inr`. -/
structure Producer (σ α : Type*) where
  step : σ → α × σ ⊕ σ
  variant : σ → ℕ
  variant_lt : ∀ {s a t}, step s = .inl (a, t) → variant t < variant s

namespace Producer
variable {σ α : Type*} (G : Producer σ α)

/-- The loop, with the items delivered so far. -/
def loop : WhileLoop (List α × σ) (List α × σ) where
  step st := match G.step st.2 with
    | .inl (a, t) => .inl (st.1 ++ [a], t)
    | .inr t => .inr (st.1, t)
  variant st := G.variant st.2
  variant_lt {st st'} h := by
    split at h <;> cases h
    exact G.variant_lt ‹_›

/-- The items of the loop started in `s`, and the state it ends in. -/
def run (s : σ) : List α × σ := G.loop.run ([], s)

variable {G}

theorem loop_next {s t : σ} {a : α} (h : G.step s = .inl (a, t)) (acc : List α) :
    G.loop.run (acc, s) = G.loop.run (acc ++ [a], t) :=
  WhileLoop.run_next (by simp [loop, h])

theorem loop_done {s t : σ} (h : G.step s = .inr t) (acc : List α) :
    G.loop.run (acc, s) = (acc, t) :=
  WhileLoop.run_done (by simp [loop, h])

/-- Items delivered before stay in front. -/
theorem loop_acc (s : σ) : ∀ acc, G.loop.run (acc, s) = (acc ++ (G.run s).1, (G.run s).2) := by
  induction hn : G.variant s using Nat.strong_induction_on generalizing s with
  | _ n ih =>
    subst hn
    intro acc
    cases hs : G.step s with
    | inl at' =>
      obtain ⟨a, t⟩ := at'
      have hrun := ih _ (G.variant_lt hs) t rfl
      rw [loop_next hs, run, loop_next hs, hrun, hrun]
      simp
    | inr t => rw [loop_done hs, run, loop_done hs]; simp

theorem run_next {s t : σ} {a : α} (h : G.step s = .inl (a, t)) :
    G.run s = (a :: (G.run t).1, (G.run t).2) := by
  rw [run, loop_next h, loop_acc]; rfl

theorem run_done {s t : σ} (h : G.step s = .inr t) : G.run s = ([], t) := loop_done h []

/-- **Induction over the items.** -/
theorem run_induct {P : σ → List α × σ → Prop} (done : ∀ s t, G.step s = .inr t → P s ([], t))
    (next : ∀ s a t, G.step s = .inl (a, t) → P t (G.run t) →
      P s (a :: (G.run t).1, (G.run t).2)) (s : σ) : P s (G.run s) := by
  induction hn : G.variant s using Nat.strong_induction_on generalizing s with
  | _ n ih =>
    subst hn
    cases hs : G.step s with
    | inl at' =>
      obtain ⟨a, t⟩ := at'
      rw [run_next hs]
      exact next s a t hs (ih _ (G.variant_lt hs) t rfl)
    | inr t =>
      rw [run_done hs]
      exact done s t hs

end Producer
