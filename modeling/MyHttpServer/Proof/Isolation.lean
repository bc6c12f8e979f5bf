/-
  Which processes hold the write end of a request's output pipe.

  Between `pipe(output)` and `close(output[1])` of one worker, the server has
  this end in its table, and a child that another worker forks gets a copy of
  it, which `execl` keeps.

  * `Inv.step`: where the ends are, as long as no worker forks while another
    has its `output[1]` open;
  * `Owned.step`: what the workers have open, in every run;
  * `exists_leak`: what can follow if a copy of the end has got to another child;
  * `isolated_of_alone`: when the requests are isolated from each other.
-/
import MyHttpServer.Model.Process

namespace MyHttpServer

/-! ## Descriptor tables -/

theorem Fds.close_some {t : Fds} {fd fd' : ℕ} {e : PipeEnd} (h : t.close fd fd' = some e) :
    fd' ≠ fd ∧ t fd' = some e := by
  rw [Fds.close, Function.update_apply] at h
  split_ifs at h with heq
  exact ⟨heq, h⟩

theorem Fds.pipe_some {t : Fds} {p : Pipe} {fd : ℕ} {e : PipeEnd} (h : t.pipe p fd = some e) :
    (fd = p.fd1 ∧ e = p.writeEnd) ∨ (fd = p.fd0 ∧ e = p.readEnd) ∨ t fd = some e := by
  rw [Fds.pipe, Function.update_apply, Function.update_apply] at h
  split_ifs at h with h1 h0
  · exact .inl ⟨h1, (Option.some_inj.1 h).symm⟩
  · exact .inr (.inl ⟨h0, (Option.some_inj.1 h).symm⟩)
  · exact .inr (.inr h)

/-- A child gets no end that it has not had from the beginning. -/
theorem Child.Step.fds_some {c c' : Child} (h : c.Step c') {fd : ℕ} {e : PipeEnd}
    (he : c'.fds fd = some e) : ∃ fd', c.fds fd' = some e := by
  cases h with
  | closeInput1 | closeOutput0 => exact ⟨fd, (Fds.close_some he).2⟩
  | dupInput | dupOutput =>
    simp only [Fds.dup2, Function.update_apply] at he
    split_ifs at he
    · exact ⟨_, he⟩
    · exact ⟨_, he⟩
  | execl => exact ⟨fd, he⟩
  | program _ hsub => exact hsub fd e he
  | exit => cases he

/-- When it exits, it gives all of them back. -/
theorem Child.Step.exited {c c' : Child} (h : c.Step c') (he : c'.pc = .exited) (fd : ℕ) :
    c'.fds fd = none := by
  cases h with
  | exit => rfl
  | program hp => rw [show c.pc = _ from he] at hp; cases hp
  | _ => cases he

/-! ## The invariant -/

/-- The output pipe whose write end the worker has yet to close. -/
def CgiPc.unclosed : CgiPc → Option Pipe
  | .fork _ output | .closeInput0 _ output _ | .closeOutput1 _ output _ => some output
  | _ => none

/-- The child that it has forked meanwhile. -/
def CgiPc.forked : CgiPc → Option ℕ
  | .closeInput0 _ _ pid | .closeOutput1 _ _ pid => some pid
  | _ => none

namespace Processes
variable {W : Type} {s t : Processes W}

/-- No child but this one has a descriptor for the end. -/
def Private (s : Processes W) (e : PipeEnd) (child : Option ℕ) : Prop :=
  ∀ pid c, s.children pid = some c → ∀ fd, c.fds fd = some e → child = some pid

/-- While a worker has its `output[1]` open, this is the only write end of the
    pipe in the table of the server, and its child has the only other ones. -/
def Sealed (s : Processes W) (pc : CgiPc) : Prop :=
  ∀ p, pc.unclosed = some p → p.pipe < s.pipes ∧
    (∀ fd, s.fds fd = some p.writeEnd → fd = p.fd1) ∧ s.Private p.writeEnd pc.forked

/-- Behind that, its child has the only write ends of the pipe. -/
def Shut (s : Processes W) (r : ℕ × ℕ) : Prop :=
  r.1 < s.pipes ∧ (∀ fd, s.fds fd ≠ some ⟨r.1, true⟩) ∧ s.Private ⟨r.1, true⟩ (some r.2)

/-- Where the write ends of the output pipes are: before the parent has closed
    its own, there and in its child; behind that, in the child alone. -/
structure Inv (s : Processes W) : Prop where
  held : ∀ e, s.Held e → e.pipe < s.pipes
  unclosed : ∀ w, s.Sealed (s.worker w)
  closed : ∀ r ∈ s.closed, s.Shut r
  exited : ∀ pid c, s.children pid = some c → c.pc = .exited → ∀ fd, c.fds fd = none

theorem inv_start : Inv (start : Processes W) where
  held e he := by
    rcases he with ⟨fd, h⟩ | ⟨pid, c, fd, h, -⟩ <;> cases h
  unclosed w p h := by cases h
  closed r h := by cases h
  exited pid c h := by cases h

/-- Once its child has exited and its parent has closed `output[1]`, nobody can
    write into the output pipe of a request. -/
def Isolated (s : Processes W) : Prop :=
  ∀ r ∈ s.closed, s.Exited r.2 → ¬ s.Held ⟨r.1, true⟩

/-- **Isolation** is read off the invariant. -/
theorem Inv.isolated (h : Inv s) : s.Isolated := by
  rintro r hr ⟨c, hc, he⟩ (⟨fd, hfd⟩ | ⟨pid, c', fd, hc', hfd⟩)
  · exact (h.closed r hr).2.1 fd hfd
  · have hpid := (h.closed r hr).2.2 pid c' hc' fd hfd
    rw [← Option.some_inj.1 hpid, hc, Option.some_inj] at hc'
    subst hc'
    rw [h.exited _ _ hc he fd] at hfd
    cases hfd

/-! ## Steps that spread nothing -/

/-- The ends that there are in the one state are nowhere in the other where they
    have not been before. -/
structure Keeps (s t : Processes W) : Prop where
  pipes : s.pipes ≤ t.pipes
  fds : ∀ fd e, e.pipe < s.pipes → t.fds fd = some e → s.fds fd = some e
  children : ∀ pid c, t.children pid = some c → ∀ fd e, c.fds fd = some e →
    ∃ c' fd', s.children pid = some c' ∧ c'.fds fd' = some e

theorem Keeps.of_children (hpipes : s.pipes ≤ t.pipes)
    (hfds : ∀ fd e, e.pipe < s.pipes → t.fds fd = some e → s.fds fd = some e)
    (hchildren : t.children = s.children) : Keeps s t := by
  refine ⟨hpipes, hfds, ?_⟩
  rw [hchildren]
  intro pid c hc fd e he
  exact ⟨c, fd, hc, he⟩

theorem Keeps.private (h : Keeps s t) {e : PipeEnd} {child : Option ℕ} (hp : s.Private e child) :
    t.Private e child := by
  intro pid c hc fd hfd
  obtain ⟨c', fd', hc', hfd'⟩ := h.children pid c hc fd e hfd
  exact hp pid c' hc' fd' hfd'

theorem Keeps.sealed (h : Keeps s t) {pc : CgiPc} (hs : s.Sealed pc) : t.Sealed pc := by
  intro p hp
  obtain ⟨hlt, hfd1, hpriv⟩ := hs p hp
  exact ⟨hlt.trans_le h.pipes, fun fd hfd => hfd1 fd (h.fds fd _ hlt hfd), h.private hpriv⟩

theorem Keeps.shut (h : Keeps s t) {r : ℕ × ℕ} (hr : s.Shut r) : t.Shut r := by
  obtain ⟨hlt, hno, hpriv⟩ := hr
  exact ⟨hlt.trans_le h.pipes, fun fd hfd => hno fd (h.fds fd _ hlt hfd), h.private hpriv⟩

/-- **The invariant is kept** if nothing spreads and what is new is in order. -/
theorem Inv.of_keeps (h : Inv s) (hk : Keeps s t)
    (hfds : ∀ fd e, t.fds fd = some e → s.fds fd = some e ∨ e.pipe < t.pipes)
    (hworker : ∀ w, s.Sealed (t.worker w) ∨ t.Sealed (t.worker w))
    (hclosed : ∀ r ∈ t.closed, r ∈ s.closed ∨ t.Shut r)
    (hexited : ∀ pid c, t.children pid = some c → c.pc = .exited → ∀ fd, c.fds fd = none) :
    Inv t where
  held e he := by
    rcases he with ⟨fd, hfd⟩ | ⟨pid, c, fd, hc, hfd⟩
    · rcases hfds fd e hfd with hold | hlt
      · exact (h.held e (.inl ⟨fd, hold⟩)).trans_le hk.pipes
      · exact hlt
    · obtain ⟨c', fd', hc', hfd'⟩ := hk.children pid c hc fd e hfd
      exact (h.held e (.inr ⟨pid, c', fd', hc', hfd'⟩)).trans_le hk.pipes
  unclosed w := (hworker w).elim hk.sealed id
  closed r hr := (hclosed r hr).elim (fun hold => hk.shut (h.closed r hold)) id
  exited := hexited

theorem children_update {children : ℕ → Option Child} {k pid : ℕ} {d c : Child}
    (h : Function.update children k (some d) pid = some c) :
    (pid = k ∧ c = d) ∨ children pid = some c := by
  rw [Function.update_apply] at h
  split_ifs at h with hk
  · exact .inl ⟨hk, (Option.some_inj.1 h).symm⟩
  · exact .inr h

/-- A child does one step. -/
theorem Inv.child (h : Inv s) {pid : ℕ} {c c' : Child} (hc : s.children pid = some c)
    (hs : c.Step c') :
    Inv { s with children := Function.update s.children pid (some c') } := by
  refine h.of_keeps ⟨le_rfl, fun fd e _ he => he, ?_⟩ (fun fd e he => .inl he)
    (fun w => .inl (h.unclosed w)) (fun r hr => .inl hr) ?_
  · intro k d hd fd e he
    rcases children_update hd with ⟨rfl, rfl⟩ | hd
    · obtain ⟨fd', hfd'⟩ := hs.fds_some he
      exact ⟨c, fd', hc, hfd'⟩
    · exact ⟨d, fd, hd, he⟩
  · intro k d hd he fd
    rcases children_update hd with ⟨rfl, rfl⟩ | hd
    · exact hs.exited he fd
    · exact h.exited k d hd he fd

section
variable [DecidableEq W] {w : W} {pc : CgiPc}

/-- A worker closes a descriptor, or none. -/
theorem Inv.shrink (h : Inv s) {fds : Fds} {closed : List (ℕ × ℕ)}
    (hfds : ∀ fd e, fds fd = some e → s.fds fd = some e) (hpc : s.Sealed pc)
    (hclosed : ∀ r ∈ closed, r ∈ s.closed ∨ Shut { s with fds } r) :
    Inv { s.setWorker w pc with fds, closed } := by
  refine h.of_keeps (.of_children le_rfl ?_ rfl) ?_ ?_ hclosed h.exited
  · intro fd e _ he
    exact hfds fd e he
  · intro fd e he
    exact .inl (hfds fd e he)
  · intro w'
    refine .inl ((Function.forall_update_iff s.worker fun _ pc => s.Sealed pc).2 ⟨hpc, ?_⟩ w')
    intro w' _
    exact h.unclosed w'

/-- A worker makes a pipe. -/
theorem Inv.pipe (h : Inv s) {p : Pipe} (hfree : s.fds.Free s.pipes p)
    (hpc : pc.unclosed = none ∨ pc.unclosed = some p) :
    Inv { s.setWorker w pc with fds := s.fds.pipe p, pipes := s.pipes + 1 } := by
  have hnew : ∀ e, s.Held e → e.pipe ≠ p.pipe := by
    intro e he
    rw [hfree.1]
    exact (h.held e he).ne
  refine h.of_keeps (.of_children (Nat.le_succ _) ?_ rfl) ?_ ?_ (fun r hr => .inl hr) h.exited
  · intro fd e hlt he
    rcases Fds.pipe_some he with ⟨-, rfl⟩ | ⟨-, rfl⟩ | hold
    · exact absurd hfree.1 hlt.ne
    · exact absurd hfree.1 hlt.ne
    · exact hold
  · intro fd e he
    rcases Fds.pipe_some he with ⟨-, rfl⟩ | ⟨-, rfl⟩ | hold
    · exact .inr (Nat.lt_succ_of_le hfree.1.le)
    · exact .inr (Nat.lt_succ_of_le hfree.1.le)
    · exact .inl hold
  · intro w'
    refine (Function.forall_update_iff s.worker fun _ pc => s.Sealed pc ∨ Sealed _ pc).2
      ⟨.inr ?_, fun w' _ => .inl (h.unclosed w')⟩ w'
    intro q hq
    obtain rfl : q = p := by
      rcases hpc with hpc | hpc <;> rw [hpc] at hq <;> cases hq
      rfl
    refine ⟨Nat.lt_succ_of_le hfree.1.le, ?_, ?_⟩
    · intro fd hfd
      rcases Fds.pipe_some hfd with ⟨hfd1, -⟩ | ⟨-, he⟩ | hold
      · exact hfd1
      · cases he
      · exact absurd rfl (hnew _ (.inl ⟨fd, hold⟩))
    · intro pid c hc fd hfd
      exact absurd rfl (hnew _ (.inr ⟨pid, c, fd, hc, hfd⟩))

/-- A worker forks, while no other has its `output[1]` open. -/
theorem Inv.fork (h : Inv s) {input output : Pipe} (hw : s.worker w = .fork input output)
    (halone : ∀ w', w' ≠ w → (s.worker w').unclosed = none) :
    Inv (s.fork w input output) := by
  have hsealed := h.unclosed w
  rw [hw] at hsealed
  obtain ⟨hlt, hfd1, hpriv⟩ := hsealed output rfl
  constructor
  · rintro e (⟨fd, hfd⟩ | ⟨pid, c, fd, hc, hfd⟩)
    · exact h.held e (.inl ⟨fd, hfd⟩)
    · rcases children_update hc with ⟨-, rfl⟩ | hc
      · exact h.held e (.inl ⟨fd, hfd⟩)
      · exact h.held e (.inr ⟨pid, c, fd, hc, hfd⟩)
  · refine (Function.forall_update_iff s.worker fun _ pc => Sealed _ pc).2 ⟨?_, ?_⟩
    · rintro _ ⟨⟩
      refine ⟨hlt, hfd1, ?_⟩
      intro pid c hc fd hfd
      rcases children_update hc with ⟨rfl, -⟩ | hc
      · rfl
      · cases hpriv pid c hc fd hfd
    · intro w' hne p hp
      rw [halone w' hne] at hp
      cases hp
  · -- the table that is copied has none of the ends of earlier requests
    intro r hr
    obtain ⟨hlt, hno, hpriv⟩ := h.closed r hr
    refine ⟨hlt, hno, ?_⟩
    intro pid c hc fd hfd
    rcases children_update hc with ⟨-, rfl⟩ | hc
    · exact absurd hfd (hno fd)
    · exact hpriv pid c hc fd hfd
  · intro pid c hc he fd
    rcases children_update hc with ⟨-, rfl⟩ | hc
    · cases he
    · exact h.exited pid c hc he fd

/-- A worker closes its `output[1]`. -/
theorem Inv.closeOutput1 (h : Inv s) {input output : Pipe} {pid : ℕ}
    (hw : s.worker w = .closeOutput1 input output pid) :
    Inv { s.setWorker w (.read input output pid) with
      fds := s.fds.close output.fd1, closed := (output.pipe, pid) :: s.closed } := by
  have hsealed := h.unclosed w
  rw [hw] at hsealed
  obtain ⟨hlt, hfd1, hpriv⟩ := hsealed output rfl
  refine h.shrink (fun fd e he => (Fds.close_some he).2) (fun p hp => by cases hp) ?_
  intro r hr
  rcases List.mem_cons.1 hr with rfl | hr
  · refine .inr ⟨hlt, ?_, hpriv⟩
    intro fd hfd
    exact (Fds.close_some hfd).1 (hfd1 fd (Fds.close_some hfd).2)
  · exact .inl hr

/-- If a worker forks in this step, no other has its `output[1]` open. -/
def Alone (s t : Processes W) : Prop :=
  ∀ w input output, s.worker w = .fork input output → t = s.fork w input output →
    ∀ w', w' ≠ w → (s.worker w').unclosed = none

/-- **The invariant is kept** by every step in which no worker forks while another
    has its `output[1]` open. -/
theorem Inv.step (h : Inv s) (hs : s.Step t) (ha : Alone s t) : Inv t := by
  have hidle : ∀ {pc : CgiPc}, pc.unclosed = none → s.Sealed pc := by
    intro pc hpc p hp
    rw [hpc] at hp
    cases hp
  cases hs with
  | pipeInput hw hfree => exact h.pipe hfree (.inl rfl)
  | pipeOutput hw hfree => exact h.pipe hfree (.inr rfl)
  | @fork w input output hw =>
    exact h.fork hw (ha w input output hw rfl)
  | @closeInput0 w input output pid hw =>
    have hsealed := h.unclosed w
    rw [hw] at hsealed
    exact h.shrink (fun fd e he => (Fds.close_some he).2) hsealed fun r hr => .inl hr
  | closeOutput1 hw => exact h.closeOutput1 hw
  | pipeOutput_error | fork_error | read_end | waitpid =>
    exact h.shrink (fun fd e he => he) (hidle rfl) fun r hr => .inl hr
  | closeOutput0 | closeInput1 =>
    exact h.shrink (fun fd e he => (Fds.close_some he).2) (hidle rfl) fun r hr => .inl hr
  | child hc hstep => exact h.child hc hstep

end

/-! ## What a worker has -/

/-- The descriptors of the pipes that a worker has yet to close, in the order in
    which it does. -/
def owned : CgiPc → List (ℕ × PipeEnd)
  | .pipeInput => []
  | .pipeOutput input => [(input.fd0, input.readEnd), (input.fd1, input.writeEnd)]
  | .fork input output | .closeInput0 input output _ =>
    [(input.fd0, input.readEnd), (output.fd1, output.writeEnd), (output.fd0, output.readEnd),
      (input.fd1, input.writeEnd)]
  | .closeOutput1 input output _ =>
    [(output.fd1, output.writeEnd), (output.fd0, output.readEnd), (input.fd1, input.writeEnd)]
  | .read input output _ | .waitpid input output _ | .closeOutput0 input output =>
    [(output.fd0, output.readEnd), (input.fd1, input.writeEnd)]
  | .closeInput1 input => [(input.fd1, input.writeEnd)]

theorem mem_owned_of_unclosed {pc : CgiPc} {p : Pipe} (h : pc.unclosed = some p) :
    (p.fd1, p.writeEnd) ∈ owned pc := by
  cases pc with
  | fork | closeInput0 | closeOutput1 =>
    cases h
    simp [owned]
  | _ => cases h

/-- The workers do not get into each other's way. -/
structure Owned (s : Processes W) : Prop where
  has : ∀ w, ∀ x ∈ owned (s.worker w), s.fds x.1 = some x.2
  nodup : ∀ w, ((owned (s.worker w)).map Prod.fst).Nodup
  apart : ∀ w w', w ≠ w' → ∀ x ∈ owned (s.worker w), ∀ y ∈ owned (s.worker w'), x.1 ≠ y.1
  forked : ∀ w pid, (s.worker w).forked = some pid → pid < s.pids ∧ (s.children pid).isSome

theorem owned_start : Owned (start : Processes W) where
  has w x hx := by cases hx
  nodup w := List.nodup_nil
  apart w w' _ x hx := by cases hx
  forked w pid h := by cases h

theorem Owned.children (h : Owned s) {children : ℕ → Option Child} {pids : ℕ}
    (hch : ∀ pid, (s.children pid).isSome → (children pid).isSome) (hpids : s.pids ≤ pids) :
    Owned { s with children, pids } where
  has := h.has
  nodup := h.nodup
  apart := h.apart
  forked w pid hpid := ⟨(h.forked w pid hpid).1.trans_le hpids, hch pid (h.forked w pid hpid).2⟩

theorem isSome_update {children : ℕ → Option Child} {k pid : ℕ} {c : Child}
    (h : (children pid).isSome) : (Function.update children k (some c) pid).isSome := by
  rw [Function.update_apply]
  split_ifs
  · rfl
  · exact h

section
variable [DecidableEq W] {w : W} {pc : CgiPc}

/-- A worker gives descriptors back, or none. -/
theorem Owned.release (h : Owned s) {fds : Fds} {closed : List (ℕ × ℕ)}
    (hsub : (owned pc).Sublist (owned (s.worker w)))
    (hkeep : ∀ x, s.fds x.1 = some x.2 →
      (x ∈ owned pc ∨ ∃ w', w ≠ w' ∧ x ∈ owned (s.worker w')) → fds x.1 = some x.2)
    (hforked : ∀ pid, pc.forked = some pid → pid < s.pids ∧ (s.children pid).isSome) :
    Owned { s.setWorker w pc with fds, closed } where
  has := (Function.forall_update_iff s.worker fun _ pc => ∀ x ∈ owned pc, fds x.1 = some x.2).2
    ⟨fun x hx => hkeep x (h.has w x (hsub.subset hx)) (.inl hx),
      fun w' hne x hx => hkeep x (h.has w' x hx) (.inr ⟨w', hne.symm, hx⟩)⟩
  nodup := (Function.forall_update_iff s.worker fun _ pc => ((owned pc).map Prod.fst).Nodup).2
    ⟨(h.nodup w).sublist (hsub.map Prod.fst), fun w' _ => h.nodup w'⟩
  apart := by
    have hold : ∀ w', ∀ x ∈ owned ((s.setWorker w pc).worker w'), x ∈ owned (s.worker w') :=
      (Function.forall_update_iff s.worker fun w' pc => ∀ x ∈ owned pc, x ∈ owned (s.worker w')).2
        ⟨fun x hx => hsub.subset hx, fun w' _ x hx => hx⟩
    intro w₁ w₂ hne x hx y hy
    exact h.apart w₁ w₂ hne x (hold w₁ x hx) y (hold w₂ y hy)
  forked := (Function.forall_update_iff s.worker fun _ pc => ∀ pid, pc.forked = some pid →
    pid < s.pids ∧ (s.children pid).isSome).2 ⟨hforked, fun w' _ => h.forked w'⟩

/-- A worker closes the first descriptor that it has. -/
theorem Owned.close (h : Owned s) {fd : ℕ} {e : PipeEnd} {closed : List (ℕ × ℕ)}
    (hw : owned (s.worker w) = (fd, e) :: owned pc)
    (hforked : pc.forked = none ∨ pc.forked = (s.worker w).forked) :
    Owned { s.setWorker w pc with fds := s.fds.close fd, closed } := by
  have hnodup := h.nodup w
  rw [hw, List.map_cons, List.nodup_cons] at hnodup
  refine h.release (hw ▸ List.sublist_cons_self _ _) (fun x hx hin => ?_) fun pid hpid => ?_
  · rw [Fds.close, Function.update_of_ne _]
    · exact hx
    · rcases hin with hin | ⟨w', hne, hin⟩
      · rintro rfl
        exact hnodup.1 (List.mem_map.2 ⟨x, hin, rfl⟩)
      · exact (h.apart w w' hne (fd, e) (hw ▸ List.mem_cons_self) x hin).symm
  · rcases hforked with hnone | hsame
    · rw [hnone] at hpid
      cases hpid
    · rw [hsame] at hpid
      exact h.forked w pid hpid

/-- A worker makes a pipe. -/
theorem Owned.pipe (h : Owned s) {p : Pipe} (hfree : s.fds.Free s.pipes p)
    (hin : ∀ x ∈ owned pc,
      x = (p.fd0, p.readEnd) ∨ x = (p.fd1, p.writeEnd) ∨ x ∈ owned (s.worker w))
    (hnodup : ((owned pc).map Prod.fst).Nodup) (hforked : pc.forked = none) :
    Owned { s.setWorker w pc with fds := s.fds.pipe p, pipes := s.pipes + 1 } := by
  obtain ⟨-, hne, h0, h1⟩ := hfree
  have hold : ∀ w', ∀ x ∈ owned (s.worker w'), x.1 ≠ p.fd0 ∧ x.1 ≠ p.fd1 := by
    intro w' x hx
    have hsome := h.has w' x hx
    constructor
    · intro heq
      rw [heq, h0] at hsome
      cases hsome
    · intro heq
      rw [heq, h1] at hsome
      cases hsome
  have hkeep : ∀ w', ∀ x ∈ owned (s.worker w'), s.fds.pipe p x.1 = some x.2 := by
    intro w' x hx
    rw [Fds.pipe, Function.update_of_ne (hold w' x hx).2, Function.update_of_ne (hold w' x hx).1]
    exact h.has w' x hx
  have hcases : ∀ w', ∀ x ∈ owned ((s.setWorker w pc).worker w'),
      (w' = w ∧ (x.1 = p.fd0 ∨ x.1 = p.fd1)) ∨ x ∈ owned (s.worker w') := by
    refine (Function.forall_update_iff s.worker fun w' pc => ∀ x ∈ owned pc,
      (w' = w ∧ (x.1 = p.fd0 ∨ x.1 = p.fd1)) ∨ x ∈ owned (s.worker w')).2
      ⟨fun x hx => ?_, fun w' _ x hx => .inr hx⟩
    rcases hin x hx with rfl | rfl | hx
    · exact .inl ⟨rfl, .inl rfl⟩
    · exact .inl ⟨rfl, .inr rfl⟩
    · exact .inr hx
  refine ⟨?_, ?_, fun w₁ w₂ hw x hx y hy heq => ?_, ?_⟩
  · refine (Function.forall_update_iff s.worker fun _ pc =>
      ∀ x ∈ owned pc, s.fds.pipe p x.1 = some x.2).2 ⟨fun x hx => ?_, fun w' _ => hkeep w'⟩
    rcases hin x hx with rfl | rfl | hx
    · rw [Fds.pipe, Function.update_of_ne hne, Function.update_self]
    · rw [Fds.pipe, Function.update_self]
    · exact hkeep w x hx
  · exact (Function.forall_update_iff s.worker fun _ pc => ((owned pc).map Prod.fst).Nodup).2
      ⟨hnodup, fun w' _ => h.nodup w'⟩
  · rcases hcases w₁ x hx with ⟨rfl, hx'⟩ | hx' <;>
      rcases hcases w₂ y hy with ⟨rfl, hy'⟩ | hy'
    · exact hw rfl
    · rw [heq] at hx'
      exact hx'.elim (hold w₂ y hy').1 (hold w₂ y hy').2
    · rw [← heq] at hy'
      exact hy'.elim (hold w₁ x hx').1 (hold w₁ x hx').2
    · exact h.apart w₁ w₂ hw x hx' y hy' heq
  · exact (Function.forall_update_iff s.worker fun _ pc => ∀ pid, pc.forked = some pid →
      pid < s.pids ∧ (s.children pid).isSome).2
      ⟨fun pid hpid => (by rw [hforked] at hpid; cases hpid), fun w' _ => h.forked w'⟩

theorem Owned.step (h : Owned s) (hs : s.Step t) : Owned t := by
  have hsame : ∀ {w : W} {pc : CgiPc}, owned pc = owned (s.worker w) → pc.forked = none →
      Owned (s.setWorker w pc) := fun hpc hf =>
    h.release (hpc ▸ List.Sublist.refl _) (fun x hx _ => hx)
      fun pid hpid => (by rw [hf] at hpid; cases hpid)
  have hnone : ∀ {w : W}, Owned (s.setWorker w .pipeInput) :=
    h.release (List.nil_sublist _) (fun x hx _ => hx) fun pid hpid => (by cases hpid)
  cases hs with
  | @pipeInput w input hw hfree =>
    refine h.pipe hfree (fun x hx => ?_) ?_ rfl
    · simp only [owned, List.mem_cons, List.not_mem_nil, or_false] at hx
      exact hx.imp_right .inl
    · simpa [owned] using hfree.2.1
  | @pipeOutput w input output hw hfree =>
    refine h.pipe hfree (fun x hx => ?_) ?_ rfl
    · rw [hw]
      simp only [owned, List.mem_cons, List.not_mem_nil, or_false] at hx ⊢
      tauto
    · have hhas := h.has w
      have hnodup := h.nodup w
      rw [hw] at hhas hnodup
      simp only [owned, List.mem_cons, List.not_mem_nil, or_false, forall_eq_or_imp,
        forall_eq] at hhas
      obtain ⟨-, hne, h0, h1⟩ := hfree
      have hdiff : ∀ {fd fd' : ℕ} {e : PipeEnd}, s.fds fd = some e → s.fds fd' = none →
          fd ≠ fd' := by
        rintro fd _ e hsome hnone rfl
        rw [hnone] at hsome
        cases hsome
      simp only [owned, List.map_cons, List.map_nil, List.nodup_cons, List.mem_cons,
        List.not_mem_nil, or_false, not_or, not_false_eq_true, List.nodup_nil, and_true] at hnodup ⊢
      exact ⟨⟨hdiff hhas.1 h1, hdiff hhas.1 h0, hnodup⟩, ⟨hne.symm, (hdiff hhas.2 h1).symm⟩,
        (hdiff hhas.2 h0).symm⟩
  | pipeOutput_error | fork_error => exact hnone
  | @fork w input output hw =>
    refine (h.children (fun pid => isSome_update) (Nat.le_succ _)).release ?_ (fun x hx _ => hx) ?_
    · show List.Sublist _ (owned (s.worker w))
      rw [hw]
      exact List.Sublist.refl _
    · rintro _ ⟨⟩
      exact ⟨Nat.lt_succ_self _, by simp⟩
  | closeInput0 hw => exact h.close (by rw [hw]; rfl) (.inr (by rw [hw]; rfl))
  | closeOutput1 hw | closeOutput0 hw | closeInput1 hw =>
    exact h.close (by rw [hw]; rfl) (.inl rfl)
  | read_end hw | waitpid hw => exact hsame (by rw [hw]; rfl) rfl
  | child hc hstep => exact h.children (fun pid => isSome_update) le_rfl

/-! ## The other way -/

/-- A child has the write end of a pipe whose parent has yet to close its own, and
    is not the child of this parent. -/
def Strayed (s : Processes W) (w : W) (k : ℕ) : Prop :=
  k < s.pids ∧ (∀ pid, (s.worker w).forked = some pid → pid ≠ k ∧ (s.children pid).isSome) ∧
    ∃ p c fd, (s.worker w).unclosed = some p ∧ s.children k = some c ∧ c.fds fd = some p.writeEnd

/-- The parent closes its end, and its own child exits before the other one. -/
theorem exists_leak_closeOutput1 {k pid : ℕ} {input output : Pipe}
    (hw : s.worker w = .closeOutput1 input output pid) (h : s.Strayed w k) :
    ∃ t, Relation.ReflTransGen Step s t ∧ ¬ t.Isolated := by
  obtain ⟨-, hforked, p, c, fd, hp, hk, hfd⟩ := h
  rw [hw] at hforked hp
  cases hp
  obtain ⟨hne, hsome⟩ := hforked pid rfl
  obtain ⟨d, hd⟩ := Option.isSome_iff_exists.1 hsome
  have hclose := Relation.ReflTransGen.single (Step.closeOutput1 hw)
  by_cases he : d.pc = .exited
  · refine ⟨_, hclose, fun hi => ?_⟩
    exact hi (output.pipe, pid) List.mem_cons_self ⟨d, hd, he⟩ (.inr ⟨k, c, fd, hk, hfd⟩)
  · refine ⟨_, hclose.tail (.child hd (.exit he)), fun hi => ?_⟩
    refine hi (output.pipe, pid) List.mem_cons_self ⟨_, Function.update_self .., rfl⟩
      (.inr ⟨k, c, fd, ?_, hfd⟩)
    rw [← hk]
    exact Function.update_of_ne hne.symm ..

theorem exists_leak_closeInput0 {k pid : ℕ} {input output : Pipe}
    (hw : s.worker w = .closeInput0 input output pid) (h : s.Strayed w k) :
    ∃ t, Relation.ReflTransGen Step s t ∧ ¬ t.Isolated := by
  obtain ⟨hlt, hforked, p, c, fd, hp, hk, hfd⟩ := h
  rw [hw] at hforked hp
  have hself : Function.update s.worker w (.closeOutput1 input output pid) w =
      .closeOutput1 input output pid := Function.update_self ..
  have hstray : Strayed { s.setWorker w (.closeOutput1 input output pid) with
      fds := s.fds.close input.fd0 } w k := by
    refine ⟨hlt, fun pid' hpid => hforked pid' ?_, p, c, fd, ?_, hk, hfd⟩
    · rw [← hpid]
      exact (congrArg CgiPc.forked hself).symm
    · exact (congrArg CgiPc.unclosed hself).trans hp
  obtain ⟨t, ht, hi⟩ := exists_leak_closeOutput1 hself hstray
  exact ⟨t, .head (.closeInput0 hw) ht, hi⟩

theorem fork_child (s : Processes W) (w : W) (input output : Pipe) :
    (s.fork w input output).children s.pids = some ⟨s.fds, .closeInput1, input, output⟩ :=
  Function.update_self ..

/-- **An end that has strayed can stay behind.** -/
theorem exists_leak {k : ℕ} (h : s.Strayed w k) :
    ∃ t, Relation.ReflTransGen Step s t ∧ ¬ t.Isolated := by
  obtain ⟨hlt, -, p, c, fd, hp, hk, hfd⟩ := id h
  cases hw : s.worker w with
  | closeInput0 input output pid => exact exists_leak_closeInput0 hw h
  | closeOutput1 input output pid => exact exists_leak_closeOutput1 hw h
  | fork input output =>
    rw [hw] at hp
    have hself : Function.update s.worker w (.closeInput0 input output s.pids) w =
        .closeInput0 input output s.pids := Function.update_self ..
    have hstray : (s.fork w input output).Strayed w k := by
      refine ⟨Nat.lt_succ_of_lt hlt, fun pid hpid => ?_, p, c, fd, ?_, ?_, hfd⟩
      · obtain rfl : s.pids = pid :=
          Option.some_inj.1 ((congrArg CgiPc.forked hself).symm.trans hpid)
        exact ⟨hlt.ne', by rw [fork_child]; rfl⟩
      · exact (congrArg CgiPc.unclosed hself).trans hp
      · rw [← hk]
        exact Function.update_of_ne hlt.ne ..
    obtain ⟨t, ht, hi⟩ := exists_leak_closeInput0 hself hstray
    exact ⟨t, .head (.fork hw) ht, hi⟩
  | _ =>
    rw [hw] at hp
    cases hp

/-- A fork while another worker has its `output[1]` open. -/
theorem strayed_of_not_alone (h : Owned s) (ha : ¬ Alone s t) : ∃ w, t.Strayed w s.pids := by
  simp only [Alone, not_forall] at ha
  obtain ⟨w, input, output, hw, rfl, w', hne, hu⟩ := ha
  obtain ⟨p, hp⟩ := Option.ne_none_iff_exists'.1 hu
  have hother : (s.fork w input output).worker w' = s.worker w' := Function.update_of_ne hne ..
  refine ⟨w', Nat.lt_succ_self _, fun pid hpid => ?_, p, _, p.fd1, ?_, fork_child .., ?_⟩
  · rw [hother] at hpid
    obtain ⟨hlt, hsome⟩ := h.forked w' pid hpid
    exact ⟨hlt.ne, isSome_update hsome⟩
  · rw [hother]
    exact hp
  · exact h.has w' (p.fd1, p.writeEnd) (mem_owned_of_unclosed hp)

/-! ## Runs -/

/-- Every worker that reads has been recorded. -/
def Recorded (s : Processes W) : Prop :=
  ∀ w input output pid, s.worker w = .read input output pid → (output.pipe, pid) ∈ s.closed

theorem Recorded.step (h : Recorded s) (hs : s.Step t) : Recorded t := by
  have hmove : ∀ {w : W} {pc : CgiPc} {closed : List (ℕ × ℕ)},
      (∀ r ∈ s.closed, r ∈ closed) →
      (∀ input output pid, pc = .read input output pid → (output.pipe, pid) ∈ closed) →
      ∀ w' input output pid, Function.update s.worker w pc w' = .read input output pid →
        (output.pipe, pid) ∈ closed := by
    intro w pc closed hsub hpc
    exact (Function.forall_update_iff s.worker fun _ pc => ∀ input output pid,
      pc = .read input output pid → (output.pipe, pid) ∈ closed).2
      ⟨hpc, fun w' _ input output pid hw => hsub _ (h w' input output pid hw)⟩
  cases hs with
  | closeOutput1 hw =>
    refine hmove (fun r hr => List.mem_cons_of_mem _ hr) ?_
    rintro _ _ _ ⟨⟩
    exact List.mem_cons_self
  | child => exact h
  | _ =>
    refine hmove (fun r hr => hr) ?_
    rintro _ _ _ ⟨⟩

theorem reachable_alone (h : ((system W).only Alone).Reachable s) : Inv s ∧ Recorded s := by
  refine h.induct (I := fun s => Inv s ∧ Recorded s) ?_ ?_
  · rintro _ rfl
    exact ⟨inv_start, fun _ _ _ _ h => (by cases h)⟩
  · rintro s t ⟨hinv, hrec⟩ ⟨hst, ha⟩
    exact ⟨hinv.step hst ha, hrec.step hst⟩

theorem reachable_owned (h : (system W).Reachable s) : Owned s := by
  refine h.induct (I := Owned) ?_ fun s t h hst => h.step hst
  rintro _ rfl
  exact owned_start

/-- **Requests are isolated** in every run in which no worker forks while another
    has its `output[1]` open: nobody but a request's own child can write into its
    output pipe, and its read loop ends once this child has exited.  Every other
    fork can lead to a state in which a request is not isolated. -/
theorem isolated_of_alone (W : Type) [DecidableEq W] :
    (∀ s : Processes W, ((system W).only Alone).Reachable s → s.Isolated ∧
      ∀ w input output pid, s.worker w = .read input output pid → s.Exited pid →
        ∃ t, s.Step t ∧ t.worker w = .waitpid input output pid) ∧
    ∀ s t : Processes W, (system W).Reachable s → s.Step t → ¬ Alone s t →
      ∃ u, Relation.ReflTransGen Step t u ∧ ¬ u.Isolated := by
  constructor
  · intro s hs
    obtain ⟨hinv, hrec⟩ := reachable_alone hs
    refine ⟨hinv.isolated, fun w input output pid hw he => ?_⟩
    have hfree := hinv.isolated _ (hrec w input output pid hw) he
    exact ⟨_, .read_end hw hfree, Function.update_self ..⟩
  · intro s t hs _ ha
    obtain ⟨w, hstray⟩ := strayed_of_not_alone (reachable_owned hs) ha
    exact exists_leak hstray

end

/-- One worker can fork when all others have their `output[1]` closed. -/
theorem alone_of_others {W : Type} [DecidableEq W] {s t : Processes W} (w : W)
    (h : ∀ w', w' ≠ w → (s.worker w').unclosed = none) : Alone s t := by
  intro v input output hv _ w' hne
  by_cases hw : w' = w
  · have hunclosed := h v (hw ▸ hne.symm)
    rw [hv] at hunclosed
    cases hunclosed
  · exact h w' hw

/-- The child of the second worker lives on, when the child of the first one has
    exited. -/
theorem isolated_of_alone_two :
    ∃ s : Processes Bool, s.closed = [(3, 1), (1, 0)] ∧ s.Exited 0 ∧ ¬ s.Exited 1 ∧
      ¬ s.Held ⟨1, true⟩ := by
  have h0 : ((system Bool).only Alone).Reachable start := .init rfl
  have h1 := h0.step ⟨@Step.pipeInput _ _ _ true ⟨0, 3, 4⟩ rfl ⟨rfl, by decide, rfl, rfl⟩,
    alone_of_others true (by decide)⟩
  have h2 := h1.step ⟨@Step.pipeOutput _ _ _ true _ ⟨1, 5, 6⟩ rfl ⟨rfl, by decide, rfl, rfl⟩,
    alone_of_others true (by decide)⟩
  have h3 := h2.step ⟨@Step.fork _ _ _ true _ _ rfl, alone_of_others true (by decide)⟩
  have h4 := h3.step ⟨@Step.closeInput0 _ _ _ true _ _ _ rfl, alone_of_others true (by decide)⟩
  have h5 := h4.step ⟨@Step.closeOutput1 _ _ _ true _ _ _ rfl, alone_of_others true (by decide)⟩
  have h6 := h5.step ⟨@Step.pipeInput _ _ _ false ⟨2, 3, 6⟩ rfl ⟨rfl, by decide, rfl, rfl⟩,
    alone_of_others false (by decide)⟩
  have h7 := h6.step ⟨@Step.pipeOutput _ _ _ false _ ⟨3, 7, 8⟩ rfl ⟨rfl, by decide, rfl, rfl⟩,
    alone_of_others false (by decide)⟩
  have h8 := h7.step ⟨@Step.fork _ _ _ false _ _ rfl, alone_of_others false (by decide)⟩
  have h9 := h8.step ⟨@Step.closeInput0 _ _ _ false _ _ _ rfl,
    alone_of_others false (by decide)⟩
  have h10 := h9.step ⟨@Step.closeOutput1 _ _ _ false _ _ _ rfl,
    alone_of_others false (by decide)⟩
  have h11 := h10.step ⟨@Step.child _ _ _ 0 _ _ rfl (.exit (by decide)),
    alone_of_others false (by decide)⟩
  refine ⟨_, rfl, ⟨_, rfl, rfl⟩, ?_,
    ((isolated_of_alone Bool).1 _ h11).1 (1, 0) (by decide) ⟨_, rfl, rfl⟩⟩
  rintro ⟨c, hc, he⟩
  cases hc
  cases he

/-- The child that the one worker forks between `pipe(output)` and `fork` of the
    other holds the output pipe of the other's request, whose own child has
    exited. -/
theorem other_child_holds :
    ∃ s : Processes Bool, (system Bool).Reachable s ∧ ¬ s.Isolated := by
  have h0 : (system Bool).Reachable start := .init rfl
  have h1 := h0.step (@Step.pipeInput _ _ _ true ⟨0, 3, 4⟩ rfl ⟨rfl, by decide, rfl, rfl⟩)
  have h2 := h1.step (@Step.pipeOutput _ _ _ true _ ⟨1, 5, 6⟩ rfl ⟨rfl, by decide, rfl, rfl⟩)
  have h3 := h2.step (@Step.pipeInput _ _ _ false ⟨2, 7, 8⟩ rfl ⟨rfl, by decide, rfl, rfl⟩)
  have h4 := h3.step (@Step.pipeOutput _ _ _ false _ ⟨3, 9, 10⟩ rfl ⟨rfl, by decide, rfl, rfl⟩)
  have h5 := h4.step (@Step.fork _ _ _ false _ _ rfl)
  have h6 := h5.step (@Step.fork _ _ _ true _ _ rfl)
  have h7 := h6.step (@Step.closeInput0 _ _ _ true _ _ _ rfl)
  have h8 := h7.step (@Step.closeOutput1 _ _ _ true _ _ _ rfl)
  have h9 := h8.step (@Step.child _ _ _ 1 _ _ rfl (.exit (by decide)))
  exact ⟨_, h9, fun hi => hi (1, 1) List.mem_cons_self ⟨_, rfl, rfl⟩ (.inr ⟨0, _, 6, rfl, rfl⟩)⟩

end Processes

end MyHttpServer
