/-
  Where every connection is: pending, open, answered or refused.

  A `Ledger` counts the places of each connection that has come in, which are
  one in all, and says what is on its wire.  Every step of the server is one of
  a few entries in it.
-/
import MyHttpServer.Proof.Contract
import MyHttpServer.Proof.Reserve

namespace MyHttpServer

open Classical

namespace OpenFiles

/-- How many connections `c` are open: 1 or 0. -/
noncomputable def opened (t : OpenFiles) (c : ℕ) : ℕ := if ∃ fd, t fd = some (.conn c) then 1 else 0

/-- Each connection has one descriptor at most. -/
def Single (t : OpenFiles) : Prop :=
  ∀ fd fd' c, t fd = some (.conn c) → t fd' = some (.conn c) → fd = fd'

/-- The same connections have the same descriptors. -/
def SameConns (t u : OpenFiles) : Prop := ∀ fd c, u fd = some (.conn c) ↔ t fd = some (.conn c)

variable {t u : OpenFiles} {fd c : ℕ}

theorem opened_eq_one (h : t fd = some (.conn c)) : t.opened c = 1 := if_pos ⟨fd, h⟩

theorem not_conn_of_opened (h : t.opened c = 0) : ∀ fd, t fd ≠ some (.conn c) := by
  intro fd hfd
  rw [opened_eq_one hfd] at h
  cases h

theorem SameConns.opened (h : SameConns t u) : u.opened = t.opened := by
  funext c
  simp only [OpenFiles.opened, h _ c]

theorem SameConns.single (h : SameConns t u) (ht : t.Single) : u.Single :=
  fun fd fd' c hc hc' => ht fd fd' c ((h fd c).1 hc) ((h fd' c).1 hc')

/-- A descriptor that is no connection becomes something else that is none. -/
theorem sameConns_update {x : Option OpenFile} (h : ∀ c, t fd ≠ some (.conn c))
    (hx : ∀ c, x ≠ some (.conn c)) : SameConns t (Function.update t fd x) := by
  intro fd' c
  by_cases hfd : fd' = fd
  · subst hfd
    rw [Function.update_self]
    exact iff_of_false (hx c) (h c)
  · rw [Function.update_of_ne hfd]

/-- A connection gets a descriptor. -/
theorem opened_accept (hfree : t fd = none) (hc : t.opened c = 0) (d : ℕ) :
    OpenFiles.opened (Function.update t fd (some (.conn c))) d =
      t.opened d + if d = c then 1 else 0 := by
  by_cases hd : d = c
  · subst hd
    rw [opened_eq_one (Function.update_self ..), hc, if_pos rfl]
  · have hsame : ∀ fd', Function.update t fd (some (.conn c)) fd' = some (.conn d) ↔
        t fd' = some (.conn d) := by
      intro fd'
      by_cases hfd : fd' = fd
      · subst hfd
        rw [Function.update_self, hfree]
        simp [Ne.symm hd]
      · rw [Function.update_of_ne hfd]
    simp only [OpenFiles.opened, hsame, hd, if_false, Nat.add_zero]

theorem single_accept (hc : t.opened c = 0) (ht : t.Single) :
    Single (Function.update t fd (some (.conn c))) := by
  have hno := not_conn_of_opened hc
  intro fd₁ fd₂ d h₁ h₂
  rw [Function.update_apply] at h₁ h₂
  split_ifs at h₁ h₂ with e₁ e₂ e₂
  · rw [e₁, e₂]
  · cases h₁
    exact absurd h₂ (hno fd₂)
  · cases h₂
    exact absurd h₁ (hno fd₁)
  · exact ht fd₁ fd₂ d h₁ h₂

/-- A connection is closed. -/
theorem opened_close (hfd : t fd = some (.conn c)) (ht : t.Single) (d : ℕ) :
    t.opened d = (t.close (some fd)).opened d + if d = c then 1 else 0 := by
  by_cases hd : d = c
  · subst hd
    have hno : ¬ ∃ fd', t.close (some fd) fd' = some (.conn d) := by
      rintro ⟨fd', h⟩
      obtain ⟨hne, h⟩ := close_some h
      exact hne (congrArg some (ht fd fd' d hfd h))
    rw [opened_eq_one hfd, OpenFiles.opened, if_neg hno, if_pos rfl]
  · have hsame : ∀ fd', t.close (some fd) fd' = some (.conn d) ↔ t fd' = some (.conn d) := by
      intro fd'
      rw [close]
      by_cases he : fd' = fd
      · subst he
        rw [Function.update_self, hfd]
        simp [Ne.symm hd]
      · rw [Function.update_of_ne he]
    simp only [OpenFiles.opened, hsame, hd, if_false, Nat.add_zero]

theorem Single.close (ht : t.Single) (fd : Option ℕ) : (t.close fd).Single :=
  fun fd₁ fd₂ c h₁ h₂ => ht fd₁ fd₂ c (close_some h₁).2 (close_some h₂).2

end OpenFiles

/-- The connections that the loop has accepted and closed at once. -/
def LoopState.refused (s : LoopState) : List ℕ :=
  s.handled.filterMap Treatment.conn ++
    match s.pc with
    | .openNull _ conn => conn.toList
    | _ => []

/-- Each connection that has come in is in one place, and only those that a
    worker has been given are touched. -/
structure Ledger {σ : Type} (e : Setting σ) (t : OpenFiles) (queue : List ℕ) (k : ℕ)
    (answered : List (ℕ × Serving)) (refused : List ℕ) (rx : ℕ → RecvSide)
    (tx : ℕ → SendSide) : Prop where
  single : t.Single
  place : ∀ c, queue.count c + t.opened c + (answered.map Prod.fst).count c + refused.count c =
    if c < k then 1 else 0
  fresh : ∀ c, k ≤ c ∨ c ∈ queue → (rx c, tx c) = e.client c
  done : ∀ x ∈ answered, (e.handledAlone x.1 x.2).rx = rx x.1 ∧ (e.handledAlone x.1 x.2).tx = tx x.1

namespace Ledger
variable {σ : Type} {e : Setting σ} {t u : OpenFiles} {queue : List ℕ} {k c fd : ℕ}
  {answered : List (ℕ × Serving)} {refused : List ℕ} {rx rx' : ℕ → RecvSide}
  {tx tx' : ℕ → SendSide}

/-- A connection that is open is nowhere else. -/
theorem open_only (h : Ledger e t queue k answered refused rx tx) (hc : t fd = some (.conn c)) :
    c < k ∧ c ∉ queue ∧ c ∉ answered.map Prod.fst ∧ c ∉ refused := by
  have := h.place c
  rw [OpenFiles.opened_eq_one hc] at this
  have hk : c < k := by
    by_contra hk
    rw [if_neg hk] at this
    omega
  rw [if_pos hk] at this
  refine ⟨hk, ?_, ?_, ?_⟩ <;> rw [← List.count_eq_zero] <;> omega

/-- A connection that is pending is not open. -/
theorem pending_only (h : Ledger e t (c :: queue) k answered refused rx tx) :
    t.opened c = 0 := by
  have hp := h.place c
  rw [List.count_cons_self] at hp
  have : (if c < k then 1 else 0) ≤ 1 := by split <;> omega
  omega

theorem files (h : Ledger e t queue k answered refused rx tx) (hu : t.SameConns u) :
    Ledger e u queue k answered refused rx tx :=
  ⟨hu.single h.single, by rw [hu.opened]; exact h.place, h.fresh, h.done⟩

/-- What is done to an open connection. -/
theorem touch (h : Ledger e t queue k answered refused rx tx) (hc : t fd = some (.conn c))
    (hne : ∀ d, d ≠ c → rx' d = rx d ∧ tx' d = tx d) :
    Ledger e t queue k answered refused rx' tx' := by
  obtain ⟨hk, hq, ha, -⟩ := h.open_only hc
  refine ⟨h.single, h.place, ?_, ?_⟩
  · intro d hd
    have hdc : d ≠ c := by
      rintro rfl
      rcases hd with hd | hd
      · omega
      · exact hq hd
    rw [(hne d hdc).1, (hne d hdc).2]
    exact h.fresh d hd
  · intro x hx
    have hxc : x.1 ≠ c := fun he => ha (he ▸ List.mem_map_of_mem hx)
    rw [(hne x.1 hxc).1, (hne x.1 hxc).2]
    exact h.done x hx

theorem accept (h : Ledger e t (c :: queue) k answered refused rx tx) (hfree : t fd = none) :
    Ledger e (Function.update t fd (some (.conn c))) queue k answered refused rx tx := by
  have ho := h.pending_only
  refine ⟨OpenFiles.single_accept ho h.single, fun d => ?_, fun d hd => ?_, h.done⟩
  · have hp := h.place d
    rw [OpenFiles.opened_accept hfree ho]
    rw [List.count_cons] at hp
    simp only [beq_iff_eq, eq_comm (a := c)] at hp
    omega
  · exact h.fresh d (hd.imp_right (List.mem_cons_of_mem c))

theorem connect (h : Ledger e t queue k answered refused rx tx) :
    Ledger e t (queue ++ [k]) (k + 1) answered refused rx tx := by
  refine ⟨h.single, fun d => ?_, fun d hd => ?_, h.done⟩
  · have hp := h.place d
    rw [List.count_append, List.count_singleton]
    by_cases hd : d = k
    · subst hd
      rw [if_neg (lt_irrefl d)] at hp
      simp only [beq_self_eq_true, if_true, Nat.lt_succ_self]
      omega
    · have hlt : d < k + 1 ↔ d < k := by omega
      simp only [beq_iff_eq, Ne.symm hd, if_false, hlt]
      omega
  · rcases hd with hd | hd
    · exact h.fresh d (.inl (by omega))
    · rcases List.mem_append.1 hd with hd | hd
      · exact h.fresh d (.inr hd)
      · exact h.fresh d (.inl (List.mem_singleton.1 hd).ge)

theorem answer (h : Ledger e t queue k answered refused rx tx) (hc : t fd = some (.conn c))
    {r : Serving} (hr : (e.handledAlone c r).rx = rx c ∧ (e.handledAlone c r).tx = tx c) :
    Ledger e (t.close (some fd)) queue k (answered ++ [(c, r)]) refused rx tx := by
  refine ⟨h.single.close _, fun d => ?_, h.fresh, ?_⟩
  · have hp := h.place d
    rw [OpenFiles.opened_close hc h.single] at hp
    rw [List.map_append, List.count_append, List.map_singleton, List.count_singleton]
    simp only [beq_iff_eq, eq_comm (a := c)]
    omega
  · intro x hx
    rcases List.mem_append.1 hx with hx | hx
    · exact h.done x hx
    · rw [List.mem_singleton.1 hx]
      exact hr

theorem refuse (h : Ledger e t queue k answered refused rx tx) (hc : t fd = some (.conn c)) :
    Ledger e (t.close (some fd)) queue k answered (refused ++ [c]) rx tx := by
  refine ⟨h.single.close _, fun d => ?_, h.fresh, h.done⟩
  have hp := h.place d
  rw [OpenFiles.opened_close hc h.single] at hp
  rw [List.count_append, List.count_singleton]
  simp only [beq_iff_eq, eq_comm (a := c)]
  omega

end Ledger

end MyHttpServer
