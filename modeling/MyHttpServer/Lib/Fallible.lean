/-
  Computations that may fail, and loops made of them.

  A `FallibleLoop` is `while (cond) body`, where the body fails, breaks out of
  the loop or goes on with a new state.  A variant decreases at every further
  round, so that it is run by `WhileLoop`.

  * `bind_eq_ok`: a sequence succeeds if both of its parts do;
  * `Ensures`: what holds of the result, and how a computation may fail, with its
    rules for sequences (`Ensures.bind`) and loops (`run_ensures`);
  * `run_spec`: an invariant that each round keeps without failing gives the
    result of the loop, which ends without failing;
  * `run_within`: a loop whose rounds are those of another one where they
    succeed.
-/
import MyHttpServer.Lib.WhileLoop

namespace Except
universe u v
variable {ε : Type u} {α β : Type v}

theorem bind_eq_ok {x : Except ε α} {f : α → Except ε β} {b : β} :
    x >>= f = .ok b ↔ ∃ a, x = .ok a ∧ f a = .ok b := by
  cases x with
  | error e => exact ⟨nofun, fun ⟨_, h, _⟩ => nomatch h⟩
  | ok a => exact ⟨fun h => ⟨a, rfl, h⟩, fun ⟨_, rfl, h⟩ => h⟩

@[simp] theorem ok_bind (a : α) (f : α → Except ε β) : Except.ok a >>= f = f a := rfl

@[simp] theorem error_bind (e : ε) (f : α → Except ε β) : Except.error e >>= f = .error e := rfl

@[simp] theorem pure_eq_ok (a : α) : (pure a : Except ε α) = .ok a := rfl

/-- A result satisfies `Q`, and a failure is one of `A`. -/
def Ensures (A : ε → Prop) (Q : α → Prop) : Except ε α → Prop
  | .ok a => Q a
  | .error e => A e

namespace Ensures
variable {A : ε → Prop} {P Q : α → Prop} {R : β → Prop} {x : Except ε α}

/-- **The rule for sequences.** -/
theorem bind {f : α → Except ε β} (hx : x.Ensures A P) (hf : ∀ a, P a → (f a).Ensures A R) :
    (x >>= f).Ensures A R := by
  cases x with
  | error e => exact hx
  | ok a => exact hf a hx

theorem mono (hx : x.Ensures A P) (h : ∀ a, P a → Q a) : x.Ensures A Q := by
  cases x with
  | error e => exact hx
  | ok a => exact h a hx

theorem foldlM {σ : Type v} {I : σ → Prop} {f : σ → α → Except ε σ} {l : List α} {s : σ}
    (hs : I s) (h : ∀ s, I s → ∀ a ∈ l, (f s a).Ensures A I) : (l.foldlM f s).Ensures A I := by
  induction l generalizing s with
  | nil => exact hs
  | cons a l ih =>
    rw [List.foldlM_cons]
    refine (h s hs a List.mem_cons_self).bind fun t ht => ih ht ?_
    intro s hs b hb
    exact h s hs b (List.mem_cons_of_mem a hb)

theorem self (x : Except ε α) : x.Ensures (fun _ => True) (x = .ok ·) := by
  cases x with
  | error e => trivial
  | ok a => rfl

theorem of_ok {a : α} (hx : x.Ensures A P) (h : x = .ok a) : P a := by
  subst h
  exact hx

end Ensures

/-- `y` has the result of `x`, if `x` has one. -/
def Within (x y : Except ε α) : Prop := ∀ a, x = .ok a → y = .ok a

namespace Within
variable {x y : Except ε α}

theorem refl (x : Except ε α) : x.Within x := fun _ h => h

theorem bind {f g : α → Except ε β} (hx : x.Within y) (hf : ∀ a, (f a).Within (g a)) :
    (x >>= f).Within (y >>= g) := by
  intro b h
  obtain ⟨a, ha, hb⟩ := bind_eq_ok.1 h
  exact bind_eq_ok.2 ⟨a, hx a ha, hf a b hb⟩

theorem ite {c : Prop} [Decidable c] {x' y' : Except ε α} (hx : x.Within y) (hx' : x'.Within y') :
    (if c then x else x').Within (if c then y else y') := by
  split
  · exact hx
  · exact hx'

theorem foldlM {σ : Type v} {f g : σ → α → Except ε σ} (h : ∀ s a, (f s a).Within (g s a))
    (l : List α) (s : σ) : (l.foldlM f s).Within (l.foldlM g s) := by
  induction l generalizing s with
  | nil => exact refl _
  | cons a l ih =>
    rw [List.foldlM_cons, List.foldlM_cons]
    exact (h s a).bind ih

end Within

end Except

/-- `while (cond) body` on states `σ`.  The body gives `none` for a `break`. -/
structure FallibleLoop (ε σ : Type*) where
  cond : σ → Bool
  body : σ → Except ε (Option σ)
  variant : σ → ℕ
  variant_lt : ∀ {s t}, cond s = true → body s = .ok (some t) → variant t < variant s

namespace FallibleLoop
variable {ε σ : Type*} (L : FallibleLoop ε σ)

def step (s : σ) : σ ⊕ Except ε σ :=
  if L.cond s then
    match L.body s with
    | .ok (some t) => .inl t
    | .ok none => .inr (.ok s)
    | .error e => .inr (.error e)
  else .inr (.ok s)

def toWhileLoop : WhileLoop σ (Except ε σ) where
  step := L.step
  variant := L.variant
  variant_lt {s t} h := by
    unfold step at h
    split at h
    · split at h <;> cases h
      exact L.variant_lt ‹_› ‹_›
    · cases h

/-- The state in which the loop is left, unless it fails. -/
def run (s : σ) : Except ε σ := L.toWhileLoop.run s

variable {L}

theorem run_exit {s : σ} (h : L.cond s = false) : L.run s = .ok s :=
  WhileLoop.run_done (by simp [toWhileLoop, step, h])

theorem run_break {s : σ} (h : L.cond s = true) (hb : L.body s = .ok none) : L.run s = .ok s :=
  WhileLoop.run_done (by simp [toWhileLoop, step, h, hb])

theorem run_next {s t : σ} (h : L.cond s = true) (hb : L.body s = .ok (some t)) :
    L.run s = L.run t :=
  WhileLoop.run_next (by simp [toWhileLoop, step, h, hb])

theorem run_error {s : σ} {e : ε} (h : L.cond s = true) (hb : L.body s = .error e) :
    L.run s = .error e :=
  WhileLoop.run_done (by simp [toWhileLoop, step, h, hb])

/-- **The rule for loops**: the invariant `I` holds at the head of every round,
    and `Q` when the loop is left. -/
theorem run_ensures {A : ε → Prop} {I Q : σ → Prop} (hexit : ∀ s, I s → L.cond s = false → Q s)
    (hround : ∀ s, I s → L.cond s = true →
      (L.body s).Ensures A fun next => next.elim (Q s) I)
    {s : σ} (h : I s) : (L.run s).Ensures A Q := by
  induction hn : L.variant s using Nat.strong_induction_on generalizing s with
  | _ n ih =>
    subst hn
    cases hc : L.cond s with
    | false =>
      rw [run_exit hc]
      exact hexit s h hc
    | true =>
      have hb := hround s h hc
      rcases hbody : L.body s with e | _ | t <;> rw [hbody] at hb
      · rw [run_error hc hbody]
        exact hb
      · rw [run_break hc hbody]
        exact hb
      · rw [run_next hc hbody]
        exact ih _ (L.variant_lt hc hbody) hb rfl

/-- A loop whose rounds do not fail. -/
theorem run_spec {I Q : σ → Prop} (hexit : ∀ s, I s → L.cond s = false → Q s)
    (hround : ∀ s, I s → L.cond s = true →
      (L.body s = .ok none ∧ Q s) ∨ ∃ t, L.body s = .ok (some t) ∧ I t)
    {s : σ} (h : I s) : ∃ t, L.run s = .ok t ∧ Q t := by
  have hrun : (L.run s).Ensures (fun _ => False) Q := by
    refine run_ensures hexit ?_ h
    intro s hs hc
    rcases hround s hs hc with ⟨hb, hq⟩ | ⟨t, hb, ht⟩ <;> rw [hb]
    · exact hq
    · exact ht
  rcases he : L.run s with e | t <;> rw [he] at hrun
  · exact hrun.elim
  · exact ⟨t, rfl, hrun⟩

/-- A loop that does what `L'` does, as long as it does not fail. -/
theorem run_within {L' : FallibleLoop ε σ} (hc : ∀ s, L'.cond s = L.cond s)
    (hb : ∀ s, (L.body s).Within (L'.body s)) (s : σ) : (L.run s).Within (L'.run s) := by
  have hrun : (L.run s).Ensures (fun _ => True) (L'.run s = .ok ·) := by
    refine run_ensures (I := fun t => L'.run s = L'.run t) ?_ ?_ rfl
    · intro t ht hct
      rw [ht]
      exact run_exit (by rw [hc, hct])
    · intro t ht hct
      rcases hbody : L.body t with e | _ | u
      · trivial
      · show L'.run s = .ok t
        rw [ht, run_break (by rw [hc, hct]) (hb t _ hbody)]
      · show L'.run s = L'.run u
        rw [ht, run_next (by rw [hc, hct]) (hb t _ hbody)]
  exact fun t ht => hrun.of_ok ht

end FallibleLoop
