/-
  Double-checked locking, with the pointer stored before the initialisation.

  * `Inv.step`: what the thread that holds the mutex finds, at each of its steps;
  * `Inv.single`: one instance at most is made, and initialised once;
  * `Served.step`: which instances are returned, as long as every thread that
    finds the pointer set finds the initialisation complete;
  * `completed_of_waits`: when every instance that is returned is initialised.
-/
import MyHttpServer.Model.Startup

namespace MyHttpServer

/-- With the mutex held. -/
def StartupPc.critical : StartupPc → Bool
  | .secondCheck | .construct | .store _ | .call | .init _ _ | .unlock => true
  | _ => false

namespace Startup
variable {W : Type} {s t : Startup W} {calls : ℕ} {w : W} {x : StartupPc}

/-! ## The invariant -/

/-- Nothing has been made. -/
def Fresh (s : Startup W) : Prop :=
  s.pointer = none ∧ s.constructed = 0 ∧ s.done 0 = 0

/-- The instance is there, and its initialisation complete. -/
def Ready (calls : ℕ) (s : Startup W) : Prop :=
  s.pointer = some 0 ∧ s.constructed = 1 ∧ s.done 0 = calls

/-- What the thread with the mutex finds where it is. -/
def Holding (calls : ℕ) (s : Startup W) : StartupPc → Prop
  | .secondCheck => s.Fresh ∨ s.Ready calls
  | .construct => s.Fresh
  | .store i => i = 0 ∧ s.pointer = none ∧ s.constructed = 1 ∧ s.done 0 = 0
  | .call => s.pointer = some 0 ∧ s.constructed = 1 ∧ s.done 0 = 0
  | .init i left => i = 0 ∧ s.pointer = some 0 ∧ s.constructed = 1 ∧ s.done 0 + left = calls
  | .unlock => s.Ready calls
  | _ => False

theorem Holding.critical (h : s.Holding calls x) : x.critical = true := by
  cases x <;> first | rfl | exact h.elim

/-- The invariant of all threads. -/
structure Inv (calls : ℕ) (s : Startup W) : Prop where
  critical : ∀ w, (s.pc w).critical = true → s.mutex = some w
  free : s.mutex = none → s.Fresh ∨ s.Ready calls
  held : ∀ w, s.mutex = some w → s.Holding calls (s.pc w)
  others : ∀ i, i ≠ 0 → s.done i = 0

theorem inv_start [DecidableEq W] : Inv calls (start : Startup W) where
  critical w h := by cases h
  free _ := .inl ⟨rfl, rfl, rfl⟩
  held w h := by cases h
  others i _ := rfl

/-- A thread with the mutex is the only one behind the lock. -/
theorem Inv.alone (h : Inv calls s) (hm : s.mutex = none ∨ s.mutex = some w) {w' : W}
    (hne : w' ≠ w) : (s.pc w').critical = false := by
  by_contra hc
  have hmutex := h.critical w' (Bool.not_eq_false _ ▸ hc)
  rcases hm with hm | hm
  · rw [hm] at hmutex
    cases hmutex
  · rw [hm] at hmutex
    exact hne (Option.some_inj.1 hmutex).symm

/-- What a thread behind the lock finds. -/
theorem Inv.holding (h : Inv calls s) (hpc : s.pc w = x) (hx : x.critical = true) :
    s.mutex = some w ∧ s.Holding calls x := by
  subst hpc
  have hm := h.critical w hx
  exact ⟨hm, h.held w hm⟩

variable [DecidableEq W]

/-- A step without the mutex changes nothing but the place of its thread. -/
theorem Inv.outside (h : Inv calls s) (hpc : (s.pc w).critical = false)
    (hx : x.critical = false) : Inv calls (s.setPc w x) where
  critical w' hc := by
    by_cases heq : w' = w
    · subst heq
      simp only [setPc, Function.update_self, hx] at hc
      cases hc
    · simp only [setPc, Function.update_of_ne heq] at hc
      exact h.critical w' hc
  free hm := h.free hm
  held w' hm := by
    have hhold := h.held w' hm
    have heq : w' ≠ w := by
      rintro rfl
      rw [hhold.critical] at hpc
      cases hpc
    show s.Holding calls (Function.update s.pc w x w')
    rwa [Function.update_of_ne heq]
  others := h.others

/-- After a step with the mutex, its thread is still the only one behind the lock. -/
theorem Inv.inside (h : Inv calls s) (hm : s.mutex = none ∨ s.mutex = some w)
    (hpc : t.pc = Function.update s.pc w x) (hmutex : t.mutex = some w)
    (hhold : t.Holding calls x) (hothers : ∀ i, i ≠ 0 → t.done i = 0) : Inv calls t where
  critical w' hc := by
    by_cases heq : w' = w
    · rw [heq, hmutex]
    · rw [hpc, Function.update_of_ne heq, h.alone hm heq] at hc
      cases hc
  free hfree := by
    rw [hmutex] at hfree
    cases hfree
  held w' hw' := by
    rw [hmutex, Option.some_inj] at hw'
    subst hw'
    rwa [hpc, Function.update_self]
  others := hothers

theorem Inv.unlock (h : Inv calls s) (hpc : s.pc w = .unlock) :
    Inv calls { s.setPc w .read with mutex := none } where
  critical w' hc := by
    obtain ⟨hm, -⟩ := h.holding hpc rfl
    by_cases heq : w' = w
    · subst heq
      simp only [setPc, Function.update_self] at hc
      cases hc
    · simp only [setPc, Function.update_of_ne heq, h.alone (.inr hm) heq] at hc
      cases hc
  free _ := .inr (h.holding hpc rfl).2
  held w' hm := by cases hm
  others := h.others

/-- **The steps under the mutex.** -/
theorem Inv.step (h : Inv calls s) (hst : Step calls s t) : Inv calls t := by
  cases hst with
  | enter hpc =>
    refine h.outside ?_ rfl
    rcases hpc with hpc | ⟨p, hpc⟩
    all_goals
      rw [hpc]
      rfl
  | firstCheck_null hpc | firstCheck hpc | read hpc => exact h.outside (by rw [hpc]; rfl) rfl
  | lock hpc hm => exact h.inside (.inl hm) rfl rfl (h.free hm) h.others
  | secondCheck_null hpc hnull =>
    obtain ⟨hm, hhold⟩ := h.holding hpc rfl
    refine h.inside (.inr hm) rfl hm ?_ h.others
    rcases hhold with hfresh | hready
    · exact hfresh
    · rw [hready.1] at hnull
      cases hnull
  | secondCheck hpc hset =>
    obtain ⟨hm, hhold⟩ := h.holding hpc rfl
    refine h.inside (.inr hm) rfl hm ?_ h.others
    rcases hhold with hfresh | hready
    · exact absurd hfresh.1 hset
    · exact hready
  | construct hpc =>
    obtain ⟨hm, hnull, hzero, hdone⟩ := h.holding hpc rfl
    exact h.inside (.inr hm) rfl hm ⟨hzero, hnull, congrArg (· + 1) hzero, hdone⟩ h.others
  | store hpc =>
    obtain ⟨hm, rfl, -, hone, hdone⟩ := h.holding hpc rfl
    exact h.inside (.inr hm) rfl hm ⟨rfl, hone, hdone⟩ h.others
  | call hpc hpointer =>
    obtain ⟨hm, hzero, hone, hdone⟩ := h.holding hpc rfl
    cases hpointer.symm.trans hzero
    exact h.inside (.inr hm) rfl hm ⟨rfl, hzero, hone, by simp [setPc, hdone]⟩ h.others
  | @init w i left hpc =>
    obtain ⟨hm, rfl, hpointer, hone, hleft⟩ := h.holding hpc rfl
    refine h.inside (.inr hm) rfl hm ⟨rfl, hpointer, hone, ?_⟩ ?_
    · show Function.update s.done 0 (s.done 0 + 1) 0 + left = calls
      rw [Function.update_self]
      omega
    · intro i hi
      exact (Function.update_of_ne hi _ _).trans (h.others i hi)
  | init_end hpc =>
    obtain ⟨hm, rfl, hpointer, hone, hleft⟩ := h.holding hpc rfl
    exact h.inside (.inr hm) rfl hm ⟨hpointer, hone, hleft⟩ h.others
  | unlock hpc => exact h.unlock hpc

theorem Inv.of_reachable (h : (system W calls).Reachable s) : Inv calls s := by
  refine System.Reachable.induct ?_ ?_ h
  · rintro s rfl
    exact inv_start
  · rintro s t hs hst
    exact hs.step hst

/-! ## What is returned -/

/-- One instance at most, initialised at most once. -/
def Single (calls : ℕ) (s : Startup W) : Prop :=
  s.constructed ≤ 1 ∧ ∀ i, s.done i ≤ calls

/-- Every pointer that has been returned is to an initialised instance. -/
def Completed (calls : ℕ) (s : Startup W) : Prop :=
  ∀ w p, s.pc w = .returned p → ∃ i, p = some i ∧ s.done i = calls

/-- A thread whose first check finds the pointer set finds the initialisation of
    the instance complete. -/
def Waits (calls : ℕ) (s t : Startup W) : Prop :=
  ∀ w i, s.pc w = .firstCheck → t.pc w = .read → s.pointer = some i → s.done i = calls

/-- One instance at most has been made, and the pointer is null or to this one. -/
def Phase (calls : ℕ) (s : Startup W) : Prop :=
  (s.pointer = none ∧ s.constructed ≤ 1 ∧ s.done 0 = 0) ∨
    (s.pointer = some 0 ∧ s.constructed = 1 ∧ s.done 0 ≤ calls)

omit [DecidableEq W] in
theorem phase_of_fresh_or_ready (h : s.Fresh ∨ s.Ready calls) : s.Phase calls := by
  rcases h with ⟨hnull, hzero, hdone⟩ | ⟨hpointer, hone, hdone⟩
  · exact .inl ⟨hnull, by omega, hdone⟩
  · exact .inr ⟨hpointer, hone, hdone.le⟩

omit [DecidableEq W] in
theorem Inv.phase (h : Inv calls s) : s.Phase calls := by
  cases hm : s.mutex with
  | none => exact phase_of_fresh_or_ready (h.free hm)
  | some w =>
    have hhold := h.held w hm
    cases hpc : s.pc w with
    | secondCheck =>
      rw [hpc] at hhold
      exact phase_of_fresh_or_ready hhold
    | construct =>
      rw [hpc] at hhold
      exact phase_of_fresh_or_ready (.inl hhold)
    | store i =>
      rw [hpc] at hhold
      obtain ⟨-, hnull, hone, hdone⟩ := hhold
      exact .inl ⟨hnull, hone.le, hdone⟩
    | call =>
      rw [hpc] at hhold
      obtain ⟨hpointer, hone, hdone⟩ := hhold
      exact .inr ⟨hpointer, hone, by omega⟩
    | init i left =>
      rw [hpc] at hhold
      obtain ⟨-, hpointer, hone, hleft⟩ := hhold
      exact .inr ⟨hpointer, hone, by omega⟩
    | unlock =>
      rw [hpc] at hhold
      exact phase_of_fresh_or_ready (.inr hhold)
    | _ =>
      rw [hpc] at hhold
      exact hhold.elim

omit [DecidableEq W] in
/-- **At most one instance** is made and initialised. -/
theorem Inv.single (h : Inv calls s) : s.Single calls := by
  have hdone : ∀ i, s.done 0 ≤ calls → s.done i ≤ calls := by
    intro i hzero
    by_cases hi : i = 0
    · rwa [hi]
    · rw [h.others i hi]
      exact Nat.zero_le _
  rcases h.phase with ⟨-, hle, hzero⟩ | ⟨-, hone, hle⟩
  · exact ⟨hle, fun i => hdone i (by omega)⟩
  · exact ⟨hone.le, fun i => hdone i hle⟩

/-- A complete instance stays so. -/
theorem Ready.step (h : s.Ready calls) (hi : Inv calls s) (hst : Step calls s t) :
    t.Ready calls := by
  obtain ⟨hpointer, hone, hdone⟩ := h
  cases hst with
  | construct hpc =>
    obtain ⟨-, hfresh⟩ := hi.holding hpc rfl
    cases hpointer.symm.trans hfresh.1
  | store hpc =>
    obtain ⟨-, hhold⟩ := hi.holding hpc rfl
    cases hpointer.symm.trans hhold.2.1
  | init hpc =>
    obtain ⟨-, hhold⟩ := hi.holding hpc rfl
    have := hhold.2.2.2
    omega
  | _ => exact ⟨hpointer, hone, hdone⟩

/-- The threads that are about to return, or have returned, have the instance, and
    it is complete. -/
def Served (calls : ℕ) (s : Startup W) : Prop :=
  ∀ w, (s.pc w = .read → s.Ready calls) ∧
    ∀ p, s.pc w = .returned p → p = some 0 ∧ s.Ready calls

/-- Only the thread that makes the step has to be looked at. -/
theorem Served.update (h : s.Served calls) (hi : Inv calls s) (hst : Step calls s t)
    (hpc : t.pc = Function.update s.pc w x) (hread : x = .read → s.Ready calls)
    (hreturned : ∀ p, x = .returned p → p = some 0 ∧ s.Ready calls) : t.Served calls := by
  intro w'
  rw [hpc]
  by_cases heq : w' = w
  · rw [heq, Function.update_self]
    exact ⟨fun hx => (hread hx).step hi hst,
      fun p hx => ⟨(hreturned p hx).1, (hreturned p hx).2.step hi hst⟩⟩
  · rw [Function.update_of_ne heq]
    exact ⟨fun hx => ((h w').1 hx).step hi hst,
      fun p hx => ⟨((h w').2 p hx).1, ((h w').2 p hx).2.step hi hst⟩⟩

/-- **What is returned is complete**, as long as the first checks wait. -/
theorem Served.step (h : s.Served calls) (hi : Inv calls s) (hst : Step calls s t)
    (hw : Waits calls s t) : t.Served calls := by
  have hstep := hst
  cases hst with
  | @firstCheck w hpc hset =>
    refine h.update hi hstep rfl (fun _ => ?_) nofun
    obtain ⟨i, hpointer⟩ := Option.ne_none_iff_exists'.1 hset
    have hdone := hw w i hpc (Function.update_self ..) hpointer
    rcases hi.phase with ⟨hnull, -⟩ | ⟨hzero, hone, -⟩
    · exact absurd hnull hset
    · cases hpointer.symm.trans hzero
      exact ⟨hpointer, hone, hdone⟩
  | unlock hpc =>
    exact h.update hi hstep rfl (fun _ => (hi.holding hpc rfl).2) nofun
  | @read w hpc =>
    refine h.update hi hstep rfl nofun ?_
    rintro p ⟨⟩
    have hready := (h w).1 hpc
    exact ⟨hready.1, hready⟩
  | _ => exact h.update hi hstep rfl nofun nofun

theorem Served.of_reachable (h : ((system W calls).only (Waits calls)).Reachable s) :
    Inv calls s ∧ s.Served calls := by
  refine h.induct (I := fun s => Inv calls s ∧ s.Served calls) ?_ ?_
  · rintro s rfl
    exact ⟨inv_start, fun w => ⟨nofun, nofun⟩⟩
  · rintro s t ⟨hi, hs⟩ ⟨hst, hw⟩
    exact ⟨hi.step hst, hs.step hi hst hw⟩

/-- A thread gets from its first check to the end by one step. -/
theorem Step.eq_read (h : Step calls s t) (hs : s.pc w = .firstCheck) (ht : t.pc w = .read) :
    t = s.setPc w .read := by
  -- a step of another thread leaves it where it is
  have hmoved : ∀ {w' x}, t.pc = Function.update s.pc w' x → w' = w ∧ x = .read := by
    intro w' x hpc
    rw [hpc, Function.update_apply] at ht
    split_ifs at ht with heq
    · exact ⟨heq.symm, ht⟩
    · cases hs.symm.trans ht
  cases h with
  | firstCheck hpc hset =>
    obtain ⟨rfl, -⟩ := hmoved rfl
    rfl
  | unlock hpc =>
    obtain ⟨rfl, -⟩ := hmoved rfl
    cases hs.symm.trans hpc
  | _ =>
    obtain ⟨-, hx⟩ := hmoved rfl
    cases hx

/-- **Double-checked locking**: in every run, one instance at most is made and
    initialised.  If the first checks wait for the initialisation, what is returned
    is initialised; and every first check that does not wait can lead to a return
    of an instance that is not. -/
theorem completed_of_waits (W : Type) [DecidableEq W] (calls : ℕ) :
    (∀ s : Startup W, (system W calls).Reachable s → s.Single calls) ∧
    (∀ s : Startup W, ((system W calls).only (Waits calls)).Reachable s → s.Completed calls) ∧
    ∀ s t : Startup W, (system W calls).Reachable s → Step calls s t → ¬ Waits calls s t →
      ∃ u, Step calls t u ∧ ¬ u.Completed calls := by
  refine ⟨fun s hs => (Inv.of_reachable hs).single, ?_, ?_⟩
  · intro s hs w p hp
    obtain ⟨rfl, -, -, hdone⟩ := ((Served.of_reachable hs).2 w).2 p hp
    exact ⟨0, rfl, hdone⟩
  · intro s t _ hst hw
    simp only [Waits, not_forall] at hw
    obtain ⟨w, i, hs, ht, hpointer, hdone⟩ := hw
    cases hst.eq_read hs ht
    refine ⟨_, .read (Function.update_self ..), ?_⟩
    intro hc
    obtain ⟨j, hj, hcomplete⟩ := hc w _ (Function.update_self ..)
    cases hj.symm.trans hpointer
    exact hdone hcomplete

/-- Only a first check that succeeds has to wait. -/
theorem waits_of_update (w : W) (x : StartupPc) (hpc : t.pc = Function.update s.pc w x)
    (hx : x ≠ .read ∨ s.pc w ≠ .firstCheck) : Waits calls s t := by
  intro w' i hs ht
  rw [hpc, Function.update_apply] at ht
  split_ifs at ht with heq
  · subst heq
    rcases hx with hx | hx
    · exact absurd ht hx
    · exact absurd hs hx
  · cases hs.symm.trans ht

omit [DecidableEq W] in
/-- Behind the initialisation nobody has to wait. -/
theorem waits_of_done {i : ℕ} (hp : s.pointer = some i) (hd : s.done i = calls) :
    Waits calls s t := by
  intro w j _ _ hj
  cases hp.symm.trans hj
  exact hd

/-- One thread makes the instance, and another one finds it. -/
theorem completed_of_waits_two :
    ∃ s : Startup Bool, s.pc false = .returned (some 0) ∧ s.pc true = .returned (some 0) ∧
      s.Completed NUM := by
  have h0 : ((getThreadPool Bool).only (Waits NUM)).Reachable start := .init rfl
  have h1 := h0.step ⟨@Step.enter _ _ _ _ false (.inl rfl),
    waits_of_update false .firstCheck rfl (.inl nofun)⟩
  have h2 := h1.step ⟨@Step.firstCheck_null _ _ _ _ false rfl rfl,
    waits_of_update false .lock rfl (.inl nofun)⟩
  have h3 := h2.step ⟨@Step.lock _ _ _ _ false rfl rfl,
    waits_of_update false .secondCheck rfl (.inl nofun)⟩
  have h4 := h3.step ⟨@Step.secondCheck_null _ _ _ _ false rfl rfl,
    waits_of_update false .construct rfl (.inl nofun)⟩
  have h5 := h4.step ⟨@Step.construct _ _ _ _ false rfl,
    waits_of_update false (.store 0) rfl (.inl nofun)⟩
  have h6 := h5.step ⟨@Step.store _ _ _ _ false _ rfl, waits_of_update false .call rfl (.inl nofun)⟩
  have h7 := h6.step ⟨@Step.call _ _ _ _ false _ rfl rfl,
    waits_of_update false (.init 0 3) rfl (.inl nofun)⟩
  have h8 := h7.step ⟨@Step.init _ _ _ _ false _ _ rfl,
    waits_of_update false (.init 0 2) rfl (.inl nofun)⟩
  have h9 := h8.step ⟨@Step.init _ _ _ _ false _ _ rfl,
    waits_of_update false (.init 0 1) rfl (.inl nofun)⟩
  have h10 := h9.step ⟨@Step.init _ _ _ _ false _ _ rfl,
    waits_of_update false (.init 0 0) rfl (.inl nofun)⟩
  have h11 := h10.step ⟨@Step.init_end _ _ _ _ false _ rfl,
    waits_of_update false .unlock rfl (.inl nofun)⟩
  have h12 := h11.step ⟨@Step.unlock _ _ _ _ false rfl,
    waits_of_update false .read rfl (.inr nofun)⟩
  have h13 := h12.step ⟨@Step.read _ _ _ _ false rfl,
    waits_of_update false (.returned (some 0)) rfl (.inl nofun)⟩
  have h14 := h13.step ⟨@Step.enter _ _ _ _ true (.inl rfl),
    waits_of_update true .firstCheck rfl (.inl nofun)⟩
  have h15 := h14.step ⟨@Step.firstCheck _ _ _ _ true rfl nofun,
    waits_of_done rfl rfl⟩
  have h16 := h15.step ⟨@Step.read _ _ _ _ true rfl,
    waits_of_update true (.returned (some 0)) rfl (.inl nofun)⟩
  exact ⟨_, rfl, rfl, (completed_of_waits Bool NUM).2.1 _ h16⟩

/-- The pointer is returned to one thread while another one, in `InitServer`, has
    called `Socket` and neither `Bind` nor `Listen`. -/
theorem unbound_returned :
    ∃ s : Startup Bool, (getTcpServer Bool).Reachable s ∧ s.pc true = .returned (some 0) ∧
      s.pc false = .init 0 2 ∧ ¬ s.Completed 3 := by
  have h0 : (getTcpServer Bool).Reachable start := .init rfl
  have h1 := h0.step (@Step.enter _ _ _ _ false (.inl rfl))
  have h2 := h1.step (@Step.firstCheck_null _ _ _ _ false rfl rfl)
  have h3 := h2.step (@Step.lock _ _ _ _ false rfl rfl)
  have h4 := h3.step (@Step.secondCheck_null _ _ _ _ false rfl rfl)
  have h5 := h4.step (@Step.construct _ _ _ _ false rfl)
  have h6 := h5.step (@Step.store _ _ _ _ false _ rfl)
  have h7 := h6.step (@Step.call _ _ _ _ false _ rfl rfl)
  have h8 := h7.step (@Step.init _ _ _ _ false _ _ rfl)
  have h9 := h8.step (@Step.enter _ _ _ _ true (.inl rfl))
  have h10 := h9.step (@Step.firstCheck _ _ _ _ true rfl nofun)
  have h11 := h10.step (@Step.read _ _ _ _ true rfl)
  refine ⟨_, h11, rfl, rfl, ?_⟩
  intro hc
  obtain ⟨i, hi, hdone⟩ := hc true _ rfl
  cases hi
  exact absurd hdone (by decide)

end Startup

end MyHttpServer
