/-
  Programs that make calls, and threads that run them side by side.

  A `Routine` makes calls, goes on with the answer of each, and ends with a
  result.  It fixes no meaning for its calls: `run` answers them by a function of
  a state, and a `Host` by a relation on a state that all threads share.

  A `Contract` is about what one thread has for itself: what it may call, and
  what an answer tells it.

  * `meets_bind`: the rule for sequences;
  * `Upholds.reachable`: if a host answers every call as the contract says, with
    the states of the threads kept apart, then every thread goes on meeting the
    contract, whatever the others do.
-/
import MyHttpServer.Lib.System
import Mathlib.Data.DFinsupp.WellFounded

universe u v

/-- A program that makes calls `c`, each with an answer in `R c`. -/
inductive Routine {C : Type u} (R : C → Type u) (α : Type u) where
  | done (a : α)
  | call (c : C) (next : R c → Routine R α)

namespace Routine
variable {C : Type u} {R : C → Type u} {α β : Type u}

def bind : Routine R α → (α → Routine R β) → Routine R β
  | .done a, f => f a
  | .call c next, f => .call c fun r => (next r).bind f

instance : Monad (Routine R) where
  pure := .done
  bind := bind

/-- One call. -/
def ask (c : C) : Routine R (R c) := .call c .done

@[simp] theorem pure_eq (a : α) : (pure a : Routine R α) = .done a := rfl
@[simp] theorem done_bind (a : α) (f : α → Routine R β) : .done a >>= f = f a := rfl
@[simp] theorem call_bind (c : C) (next : R c → Routine R α) (f : α → Routine R β) :
    .call c next >>= f = .call c fun r => next r >>= f := rfl

/-! ## On its own -/

section
variable {S : Type v} (answer : (c : C) → S → R c × S)

/-- The result of a routine whose calls are answered by `answer`. -/
def run : Routine R α → S → α × S
  | .done a, s => (a, s)
  | .call c next, s => (next (answer c s).1).run (answer c s).2

@[simp] theorem run_done (a : α) (s : S) : (done a : Routine R α).run answer s = (a, s) := rfl

@[simp] theorem run_call (c : C) (next : R c → Routine R α) (s : S) :
    (call c next).run answer s = (next (answer c s).1).run answer (answer c s).2 := rfl

@[simp] theorem run_ask (c : C) (s : S) : (ask c : Routine R (R c)).run answer s = answer c s := rfl

@[simp] theorem run_bind (p : Routine R α) (f : α → Routine R β) (s : S) :
    (p >>= f).run answer s = (f (p.run answer s).1).run answer (p.run answer s).2 := by
  induction p generalizing s with
  | done a => rfl
  | call c next ih => exact ih _ _

end

end Routine

/-- What a thread that has `g` may call, and what it has behind an answer. -/
structure Contract {C : Type u} (R : C → Type u) (G : Type v) where
  pre : G → C → Prop
  post : G → (c : C) → R c → G → Prop

namespace Routine
variable {C : Type u} {R : C → Type u} {α β : Type u} {G : Type v} {K : Contract R G}

/-- The routine makes only calls that it may make, and `Q` holds at its end. -/
def Meets (K : Contract R G) : Routine R α → G → (α → G → Prop) → Prop
  | .done a, g, Q => Q a g
  | .call c next, g, Q => K.pre g c ∧ ∀ r g', K.post g c r g' → (next r).Meets K g' Q

theorem Meets.mono {p : Routine R α} {g : G} {P Q : α → G → Prop} (h : p.Meets K g P)
    (hPQ : ∀ a g, P a g → Q a g) : p.Meets K g Q := by
  induction p generalizing g with
  | done a => exact hPQ a g h
  | call c next ih => exact ⟨h.1, fun r g' hr => ih r (h.2 r g' hr)⟩

/-- **The rule for sequences.** -/
theorem meets_bind {p : Routine R α} {f : α → Routine R β} {g : G} {Q : β → G → Prop} :
    (p >>= f).Meets K g Q ↔ p.Meets K g fun a g' => (f a).Meets K g' Q := by
  induction p generalizing g with
  | done a => rfl
  | call c next ih => exact and_congr_right fun _ => forall₃_congr fun r g' _ => ih r

end Routine

/-! ## Ends -/

namespace Routine
variable {C : Type u} {R : C → Type u} {α : Type u}

/-- What is left of a routine after a call. -/
inductive After : Option (Routine R α) → Option (Routine R α) → Prop
  | call (c : C) (next : R c → Routine R α) (r : R c) : After (some (next r)) (some (.call c next))

theorem acc_after (p : Routine R α) : Acc After (some p) := by
  induction p with
  | done a =>
    refine ⟨_, fun q hq => ?_⟩
    cases hq
  | call c next ih =>
    refine ⟨_, fun q hq => ?_⟩
    cases hq with
    | call c next r => exact ih r

/-- **A routine makes finitely many calls**, whatever the answers are. -/
theorem wf_after : WellFounded (After (R := R) (α := α)) := by
  refine ⟨fun p => ?_⟩
  cases p with
  | none =>
    refine ⟨_, fun q hq => ?_⟩
    cases hq
  | some p => exact acc_after p

end Routine

/-- **Finitely many values**, of which one at a time drops. -/
theorem WellFounded.update {W : Type v} [Finite W] [DecidableEq W] {β : Type u}
    {r : β → β → Prop} (hr : WellFounded r) :
    WellFounded fun f g : W → β => ∃ w b, r b (g w) ∧ f = Function.update g w b := by
  have hlex := Pi.Lex.wellFounded (ι := W) (r := WellOrderingRel) fun _ : W => hr
  refine Subrelation.wf ?_ hlex
  rintro f g ⟨w, b, hb, rfl⟩
  refine ⟨w, fun v hv => ?_, by simpa using hb⟩
  refine Function.update_of_ne ?_ ..
  rintro rfl
  exact irrefl v hv

/-! ## Side by side -/

/-- How threads `W` that share a state `S` get their routines and their answers. -/
structure Host {C : Type u} (R : C → Type u) (S W : Type v) (α : Type u) where
  init : S → Prop
  /-- what happens apart from the routines -/
  env : S → S → Prop
  start : W → S → Routine R α → S → Prop
  call : W → S → (c : C) → R c → S → Prop
  finish : W → S → α → S → Prop

/-- A state, with what is left of the routine of each thread. -/
structure Running {C : Type u} (R : C → Type u) (S W : Type v) (α : Type u) where
  shared : S
  routine : W → Option (Routine R α)

namespace Host
variable {C : Type u} {R : C → Type u} {S W : Type v} {α : Type u} [DecidableEq W]
variable (H : Host R S W α)

inductive Step : Running R S W α → Running R S W α → Prop
  | env {s t} : H.env s.shared t → Step s { s with shared := t }
  | start {s w p t} : s.routine w = none → H.start w s.shared p t →
      Step s ⟨t, Function.update s.routine w (some p)⟩
  | call {s w c next r t} : s.routine w = some (.call c next) → H.call w s.shared c r t →
      Step s ⟨t, Function.update s.routine w (some (next r))⟩
  | finish {s w a t} : s.routine w = some (.done a) → H.finish w s.shared a t →
      Step s ⟨t, Function.update s.routine w none⟩

/-- The runs of the threads. -/
def system : System (Running R S W α) where
  init s := H.init s.shared ∧ ∀ w, s.routine w = none
  step := H.Step

/-- The host answers as `K` says, where `Owns s g` says that the threads have `g`
    for themselves. -/
structure Upholds {G : Type v} (K : Contract R G) (Q : α → G → Prop)
    (Owns : S → (W → Option G) → Prop) : Prop where
  init : ∀ s, H.init s → Owns s fun _ => none
  env : ∀ s t g, Owns s g → H.env s t → Owns t g
  start : ∀ s t g w p, Owns s g → g w = none → H.start w s p t →
    ∃ a, Owns t (Function.update g w (some a)) ∧ p.Meets K a Q
  call : ∀ s t g w a c r, Owns s g → g w = some a → K.pre a c → H.call w s c r t →
    ∃ b, K.post a c r b ∧ Owns t (Function.update g w (some b))
  finish : ∀ s t g w a b, Owns s g → g w = some a → Q b a → H.finish w s b t →
    Owns t (Function.update g w none)

/-- What is left of a routine meets the contract. -/
def Kept {G : Type v} (K : Contract R G) (Q : α → G → Prop) :
    Option (Routine R α) → Option G → Prop
  | none, none => True
  | some p, some a => p.Meets K a Q
  | none, some _ | some _, none => False

variable {H} {G : Type v} {K : Contract R G} {Q : α → G → Prop}
  {Owns : S → (W → Option G) → Prop} {p : Option (Routine R α)} {a : Option G}

theorem Kept.eq_none (h : Kept K Q p a) (hp : p = none) : a = none := by
  subst hp
  cases a with
  | none => rfl
  | some a => exact h.elim

theorem Kept.exists_some {q : Routine R α} (h : Kept K Q p a) (hp : p = some q) :
    ∃ b, a = some b ∧ q.Meets K b Q := by
  subst hp
  cases a with
  | none => exact h.elim
  | some b => exact ⟨b, rfl, h⟩

theorem kept_update {routine : W → Option (Routine R α)} {g : W → Option G}
    (h : ∀ w, Kept K Q (routine w) (g w)) (w : W) (hw : Kept K Q p a) (v : W) :
    Kept K Q (Function.update routine w p v) (Function.update g w a v) := by
  by_cases hv : v = w
  · subst hv
    simpa using hw
  · simpa [hv] using h v

/-- **Every thread goes on meeting the contract**, in any run of all of them. -/
theorem Upholds.reachable (hH : H.Upholds K Q Owns) {s : Running R S W α}
    (h : H.system.Reachable s) :
    ∃ g, Owns s.shared g ∧ ∀ w, Kept K Q (s.routine w) (g w) := by
  refine System.Reachable.induct
    (I := fun s => ∃ g, Owns s.shared g ∧ ∀ w, Kept K Q (s.routine w) (g w)) ?_ ?_ h
  · rintro s ⟨hs, hr⟩
    refine ⟨fun _ => none, hH.init _ hs, fun w => ?_⟩
    rw [hr]
    trivial
  · rintro s t ⟨g, ho, hk⟩ hst
    cases hst with
    | env he => exact ⟨g, hH.env _ _ _ ho he, hk⟩
    | @start w p t hr hs =>
      obtain ⟨a, ha, hp⟩ := hH.start _ _ _ w _ ho ((hk w).eq_none hr) hs
      exact ⟨_, ha, kept_update hk w hp⟩
    | @call w c next r t hr hc =>
      obtain ⟨a, ha, hpre, hnext⟩ := (hk w).exists_some hr
      obtain ⟨b, hb, hob⟩ := hH.call _ _ _ w a c r ho ha hpre hc
      exact ⟨_, hob, kept_update hk w (hnext r b hb)⟩
    | @finish w a t hr hf =>
      obtain ⟨b, hb, hq⟩ := (hk w).exists_some hr
      exact ⟨_, hH.finish _ _ _ w b a ho hb hq hf, kept_update hk w trivial⟩

/-- The thread `w` can come to the end of a routine with the result `a`, while the
    others wait. -/
inductive Completes (H : Host R S W α) (w : W) {β : Type u} : S → Routine R β → S → β → Prop
  | done (s : S) (a : β) : Completes H w s (.done a) s a
  | call {s t u : S} {c : C} {r : R c} {next : R c → Routine R β} {a : β} :
      H.call w s c r t → Completes H w t (next r) u a → Completes H w s (.call c next) u a

/-- The thread goes on with what follows. -/
theorem Completes.reachable {β : Type u} {w : W} {s t : S} {p : Routine R β} {a : β}
    {f : β → Routine R α} (hp : Completes H w s p t a) {routine : W → Option (Routine R α)}
    (h : H.system.Reachable ⟨s, routine⟩) (hw : routine w = some (p >>= f)) :
    H.system.Reachable ⟨t, Function.update routine w (some (f a))⟩ := by
  induction hp generalizing routine with
  | done s a =>
    rw [show some (f a) = routine w from hw.symm, Function.update_eq_self]
    exact h
  | call hc _ ih =>
    have := ih (h.step (.call hw hc)) (Function.update_self ..)
    rwa [Function.update_idem] at this

end Host
