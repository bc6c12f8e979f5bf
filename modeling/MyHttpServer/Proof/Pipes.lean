/-
  The pipes of `CgiProcess`.

  A call of `CgiProcess` returns in one of four situations (`CgiReturn`): without
  a pipe, with one, with two but without a child, and with a child.  Only in the
  last one does it close what it has got.

  * `cgiRun_return`: every call is one of the four;
  * `pipes_balanced_iff`: when a run of calls closes every end of a pipe once, and
    leaves the descriptor table as it was.
-/
import MyHttpServer.Proof.Cgi

namespace MyHttpServer

namespace Os
variable {σ : Type} (os : Os σ)

/-! ## One system call -/

/-- The process after a `pipe` with the result `ends`. -/
def afterPipe (ends : Option (ℕ × ℕ)) : Os σ :=
  { os with
    fds := os.fds ++ ends.elim [] fun e => [(e.1, []), (e.2, [])]
    refusals := os.refusals.tail
    trace := os.trace ++ [.pipe ends] }

/-- The process after a `fork` with the result `pid`. -/
def afterFork (pid : Bool) : Os σ :=
  { os with refusals := os.refusals.tail, trace := os.trace ++ [.fork pid] }

/-- The two ends of a new pipe. -/
structure NewEnds (e : ℕ × ℕ) : Prop where
  read : e.1 ∉ os.used
  write : e.2 ∉ os.used
  ne : e.1 ≠ e.2

theorem pipe_refused (h : os.refusals.headD false = true) :
    os.pipe = (none, os.afterPipe none) := by
  simp only [pipe, refuse, h]
  simp [afterPipe, note]

theorem pipe_granted (h : os.refusals.headD false = false) :
    ∃ e, os.NewEnds e ∧ os.pipe = (some e, os.afterPipe (some e)) := by
  set os₁ : Os σ := { os with refusals := os.refusals.tail }
  have hread := lowestFree_notMem os₁
  have hwrite := lowestFree_notMem (os₁.alloc []).2
  have hused : (os₁.alloc []).2.used = os.used ++ [os₁.lowestFree] := by simp [alloc, used, os₁]
  rw [hused, List.mem_append, List.mem_singleton, not_or] at hwrite
  refine ⟨(os₁.lowestFree, (os₁.alloc []).2.lowestFree), ⟨hread, hwrite.1, Ne.symm hwrite.2⟩, ?_⟩
  simp only [pipe, refuse, h]
  simp [alloc, note, afterPipe, os₁]

theorem fork_refused (h : os.refusals.headD false = true) :
    os.fork = (false, os.afterFork false) := by
  simp only [fork, refuse, h]
  rfl

theorem fork_granted (h : os.refusals.headD false = false) :
    os.fork = (true, os.afterFork true) := by
  simp only [fork, refuse, h]
  rfl

end Os

namespace EndPoint
variable {σ : Type} {M : Machine σ}

/-! ## The four situations -/

/-- The process in which a child starts, with the pipes `i` and `o`. -/
def forked (os : Os σ) (i o : ℕ × ℕ) : Os σ :=
  ((((os.afterPipe (some i)).afterPipe (some o)).afterFork true).close i.1).close o.2

/-- The ways in which a call of `CgiProcess` can return. -/
inductive CgiReturn (M : Machine σ) (path : Bytes) (inp : CgiInput) (os : Os σ) :
    ℤ × Bytes × Os σ → Prop
  | input : os.refusals.headD false = true →
      CgiReturn M path inp os (SERVER_ERROR, [], os.afterPipe none)
  | output {i} : os.refusals.headD false = false → os.refusals.tail.headD false = true →
      os.NewEnds i →
      CgiReturn M path inp os (SERVER_ERROR, [], (os.afterPipe (some i)).afterPipe none)
  | fork {i o} : os.refusals.headD false = false → os.refusals.tail.headD false = false →
      os.refusals.tail.tail.headD false = true →
      os.NewEnds i → (os.afterPipe (some i)).NewEnds o →
      CgiReturn M path inp os
        (NOT_FOUND, [], ((os.afterPipe (some i)).afterPipe (some o)).afterFork false)
  | child {i o c w} : os.refusals.headD false = false → os.refusals.tail.headD false = false →
      os.refusals.tail.tail.headD false = false →
      os.NewEnds i → (os.afterPipe (some i)).NewEnds o →
      (forked os i o).runChild M path inp = c → c.2.waitpid c.1.ending = w →
      CgiReturn M path inp os (cgiCode w.1, c.1.output, (w.2.close o.1).close i.2)

/-- **Every call of `CgiProcess` returns in one of the four situations.** -/
theorem cgiRun_return (path : Bytes) (inp : CgiInput) (os : Os σ) :
    CgiReturn M path inp os (cgiRun M path inp os) := by
  unfold cgiRun
  cases h1 : os.refusals.headD false with
  | true =>
    rw [os.pipe_refused h1]
    exact .input h1
  | false =>
    obtain ⟨i, hi, he⟩ := os.pipe_granted h1
    rw [he]
    cases h2 : os.refusals.tail.headD false with
    | true =>
      simp only [(os.afterPipe (some i)).pipe_refused h2]
      exact .output h1 h2 hi
    | false =>
      obtain ⟨o, ho, he⟩ := (os.afterPipe (some i)).pipe_granted h2
      cases h3 : os.refusals.tail.tail.headD false with
      | true =>
        simp only [he, ((os.afterPipe (some i)).afterPipe (some o)).fork_refused h3]
        exact .fork h1 h2 h3 hi ho
      | false =>
        simp only [he, ((os.afterPipe (some i)).afterPipe (some o)).fork_granted h3]
        exact .child h1 h2 h3 hi ho rfl rfl

end EndPoint

/-! ## Ends that are closed -/

/-- The ends that a call of `pipe` returns. -/
def SysCall.ends : SysCall → List ℕ
  | .pipe (some (r, w)) => [r, w]
  | _ => []

/-- Every end of a pipe is closed once behind the call that returned it. -/
def EndsClosed : List SysCall → Prop
  | [] => True
  | c :: cs => (∀ n ∈ c.ends, cs.count (.close n) = 1) ∧ EndsClosed cs

section
variable {σ : Type} {M : Machine σ} {os os' : Os σ}

/-- `os'` comes from `os` by calls that close once every end they get. -/
def ClosesEnds (os os' : Os σ) : Prop := ∃ cs, os'.trace = os.trace ++ cs ∧ EndsClosed cs

theorem closesEnds_iff {l : List SysCall} (h : os'.trace = os.trace ++ l) :
    ClosesEnds os os' ↔ EndsClosed l := by
  constructor
  · rintro ⟨cs, ht, hc⟩
    rw [h, List.append_cancel_left_eq] at ht
    rwa [ht]
  · intro hc
    exact ⟨l, h, hc⟩

theorem not_endsClosed {c : SysCall} {cs : List SysCall} {n : ℕ} (hn : n ∈ c.ends)
    (h : .close n ∉ cs) : ¬ EndsClosed (c :: cs) := by
  rintro ⟨hc, -⟩
  have := hc n hn
  rw [List.count_eq_zero_of_not_mem h] at this
  cases this

/-- What the kernel is going to do to a call of `CgiProcess`: refuse it its first
    pipe, or neither its second one nor its child. -/
def FreesPipes (refusals : List Bool) : Prop :=
  refusals.headD false = true ∨
    refusals.tail.headD false = false ∧ refusals.tail.tail.headD false = false

namespace EndPoint

theorem runChild_frame (os : Os σ) (path : Bytes) (inp : CgiInput) :
    (os.runChild M path inp).2.fds = os.fds ∧
      ∃ b, (os.runChild M path inp).2.trace = os.trace ++ [.exec (cStr path) b] := by
  unfold Os.runChild
  cases M.program os.disk (cStr path) with
  | some prog => exact ⟨rfl, true, rfl⟩
  | none => exact ⟨rfl, false, rfl⟩

theorem waitpid_frame (os : Os σ) (ending : ChildEnd) :
    (os.waitpid ending).2.fds = os.fds ∧ (os.waitpid ending).2.trace = os.trace ++ [.waitpid] := by
  unfold Os.waitpid
  cases os.sigchld <;> exact ⟨rfl, rfl⟩

/-- The calls for a child with the pipes `i` and `o`. -/
def childCalls (i o : ℕ × ℕ) (path : Bytes) (started : Bool) : List SysCall :=
  [.pipe (some i), .pipe (some o), .fork true, .close i.1, .close o.2, .exec path started, .waitpid,
    .close o.1, .close i.2]

theorem endsClosed_childCalls {i o : ℕ × ℕ} (hi : i.1 ≠ i.2) (ho : o.1 ≠ o.2)
    (hne : i.1 ≠ o.1 ∧ i.2 ≠ o.1 ∧ i.1 ≠ o.2 ∧ i.2 ≠ o.2) (path : Bytes) (started : Bool) :
    EndsClosed (childCalls i o path started) := by
  simp [childCalls, EndsClosed, SysCall.ends, List.count_cons, hi, hi.symm, ho, ho.symm, hne,
    hne.1.symm, hne.2.1.symm, hne.2.2.1.symm, hne.2.2.2.symm]

/-- With a child, the four ends are closed, each once. -/
theorem child_closes {path : Bytes} {inp : CgiInput} {i o : ℕ × ℕ} {ending : ChildEnd}
    (hi : os.NewEnds i) (ho : (os.afterPipe (some i)).NewEnds o) :
    let w := (((forked os i o).runChild M path inp).2.waitpid ending).2
    ((w.close o.1).close i.2).fds = os.fds ∧ ClosesEnds os ((w.close o.1).close i.2) := by
  intro w
  obtain ⟨hfds, b, htrace⟩ := runChild_frame (M := M) (forked os i o) path inp
  obtain ⟨hfds', htrace'⟩ := waitpid_frame ((forked os i o).runChild M path inp).2 ending
  obtain ⟨hi1, hi2, hi⟩ := hi
  obtain ⟨ho1, ho2, ho⟩ := ho
  have hused : (os.afterPipe (some i)).used = os.used ++ [i.1, i.2] := by
    simp [Os.used, Os.afterPipe]
  rw [hused] at ho1 ho2
  simp only [List.mem_append, List.mem_cons, List.not_mem_nil, or_false, not_or] at ho1 ho2
  have hold : ∀ e ∈ os.fds, e.1 ≠ i.1 ∧ e.1 ≠ i.2 ∧ e.1 ≠ o.1 ∧ e.1 ≠ o.2 := by
    intro e he
    have hm : e.1 ∈ os.used := List.mem_map_of_mem he
    exact ⟨fun h => hi1 (h ▸ hm), fun h => hi2 (h ▸ hm), fun h => ho1.1 (h ▸ hm),
      fun h => ho2.1 (h ▸ hm)⟩
  have hne : i.1 ≠ o.1 ∧ i.2 ≠ o.1 ∧ i.1 ≠ o.2 ∧ i.2 ≠ o.2 :=
    ⟨Ne.symm ho1.2.1, Ne.symm ho1.2.2, Ne.symm ho2.2.1, Ne.symm ho2.2.2⟩
  constructor
  · have hf : ((w.close o.1).close i.2).fds = ((w.fds.filter fun e => (e.1 : ℤ) ≠ o.1).filter
        fun e => (e.1 : ℤ) ≠ i.2) := rfl
    rw [hf, hfds', hfds]
    simp only [forked, Os.close, Os.afterFork, Os.afterPipe, Option.elim_some]
    simp only [List.filter_append, List.filter_filter]
    rw [List.filter_eq_self.2 fun e he => by simp [hold e he]]
    simp [hi, ho, hne]
  · have ht : ((w.close o.1).close i.2).trace = os.trace ++ childCalls i o (cStr path) b := by
      simp only [Os.close, w, htrace', htrace]
      simp [forked, Os.close, Os.afterFork, Os.afterPipe, childCalls]
    rw [closesEnds_iff ht]
    exact endsClosed_childCalls hi ho hne _ _

/-- **What a call of `CgiProcess` leaves in the descriptor table**: nothing, exactly
    if it `FreesPipes`, and exactly then it closes once every end that it gets. -/
theorem cgiProcess_pipes (ep : EndPoint) (os : Os σ) :
    ∃ left, (cgiProcess M ep os).2.2.fds = os.fds ++ left ∧
      (left = [] ↔ FreesPipes os.refusals) ∧
      (ClosesEnds os (cgiProcess M ep os).2.2 ↔ FreesPipes os.refusals) := by
  rw [cgiProcess_eq]
  simp only
  have hr := cgiRun_return (M := M) ep.req.path ep.cgiInput os
  generalize cgiRun M ep.req.path ep.cgiInput os = r at hr
  cases hr with
  | input h1 =>
    have hfrees : FreesPipes os.refusals := .inl h1
    refine ⟨[], rfl, by simp [hfrees], ?_⟩
    rw [closesEnds_iff (l := [.pipe none]) rfl]
    simp [EndsClosed, SysCall.ends, hfrees]
  | @output i h1 h2 hi =>
    have hfrees : ¬ FreesPipes os.refusals := by simp only [FreesPipes, h1, h2]; simp
    refine ⟨[(i.1, []), (i.2, [])], by simp [Os.afterPipe], by simp [hfrees], ?_⟩
    rw [closesEnds_iff (l := [.pipe (some i), .pipe none]) (by simp [Os.afterPipe])]
    exact iff_of_false (not_endsClosed (n := i.1) (by simp [SysCall.ends]) (by simp)) hfrees
  | @fork i o h1 h2 h3 hi ho =>
    have hfrees : ¬ FreesPipes os.refusals := by simp only [FreesPipes, h1, h2, h3]; simp
    refine ⟨[(i.1, []), (i.2, []), (o.1, []), (o.2, [])],
      by simp [Os.afterPipe, Os.afterFork], by simp [hfrees], ?_⟩
    rw [closesEnds_iff (l := [.pipe (some i), .pipe (some o), .fork false])
      (by simp [Os.afterPipe, Os.afterFork])]
    exact iff_of_false (not_endsClosed (n := i.1) (by simp [SysCall.ends]) (by simp)) hfrees
  | child h1 h2 h3 hi ho hc hw =>
    subst hc hw
    have hfrees : FreesPipes os.refusals := .inr ⟨h2, h3⟩
    obtain ⟨hfds, hcl⟩ := child_closes hi ho
    exact ⟨[], by rw [hfds, List.append_nil], by simp [hfrees], by simp [hcl, hfrees]⟩

end EndPoint

end

/-! ## Many calls -/

/-- A call of `CgiProcess`, with what has changed around the process since the one
    before it. -/
structure CgiCall (σ : Type) where
  ep : EndPoint
  disk : σ
  refusals : List Bool

section
variable {σ : Type} (M : Machine σ)

/-- The process after the call. -/
def CgiCall.process (c : CgiCall σ) (os : Os σ) : Os σ :=
  (EndPoint.cgiProcess M c.ep { os with disk := c.disk, refusals := c.refusals }).2.2

/-- The process after the calls of `cs`. -/
def cgiCalls (os : Os σ) : List (CgiCall σ) → Os σ
  | [] => os
  | c :: cs => cgiCalls (c.process M os) cs

/-- Every call closes once every end that it gets. -/
def EachClosesEnds : Os σ → List (CgiCall σ) → Prop
  | _, [] => True
  | os, c :: cs => ClosesEnds os (c.process M os) ∧ EachClosesEnds (c.process M os) cs

variable {M}

theorem CgiCall.process_pipes (c : CgiCall σ) (os : Os σ) :
    ∃ left, (c.process M os).fds = os.fds ++ left ∧ (left = [] ↔ FreesPipes c.refusals) ∧
      (ClosesEnds os (c.process M os) ↔ FreesPipes c.refusals) :=
  EndPoint.cgiProcess_pipes c.ep { os with disk := c.disk, refusals := c.refusals }

/-- What calls leave behind stays. -/
theorem cgiCalls_pipes (os : Os σ) (calls : List (CgiCall σ)) :
    ∃ left, (cgiCalls M os calls).fds = os.fds ++ left ∧
      (left = [] ↔ ∀ c ∈ calls, FreesPipes c.refusals) := by
  induction calls generalizing os with
  | nil => exact ⟨[], by simp [cgiCalls], by simp⟩
  | cons c cs ih =>
    obtain ⟨left, hfds, hleft, -⟩ := c.process_pipes (M := M) os
    obtain ⟨more, hfds', hmore⟩ := ih (c.process M os)
    refine ⟨left ++ more, by rw [cgiCalls, hfds', hfds, List.append_assoc], ?_⟩
    rw [List.append_eq_nil_iff, hleft, hmore, List.forall_mem_cons]

/-- **Calls of `CgiProcess` close every end once, and leave the descriptor table as
    it was, exactly if each of them is refused its first pipe or nothing.** -/
theorem pipes_balanced_iff (M : Machine σ) (os : Os σ) (calls : List (CgiCall σ)) :
    (EachClosesEnds M os calls ↔ ∀ c ∈ calls, FreesPipes c.refusals) ∧
      ((cgiCalls M os calls).fds = os.fds ↔ ∀ c ∈ calls, FreesPipes c.refusals) := by
  constructor
  · induction calls generalizing os with
    | nil => simp [EachClosesEnds]
    | cons c cs ih =>
      obtain ⟨left, -, -, hcl⟩ := c.process_pipes (M := M) os
      rw [EachClosesEnds, hcl, ih, List.forall_mem_cons]
  · obtain ⟨left, hfds, hleft⟩ := cgiCalls_pipes (M := M) os calls
    rw [hfds, List.append_right_eq_self, hleft]

end

/-- The second pipe is refused, and both ends of the first one stay open. -/
theorem refused_leaks :
    let c : CgiCall ℕ := ⟨countAsked, 0, [false, true]⟩
    let os := (visit []).os
    (c.process counter os).used = [0, 1, 2, 3, 4] ∧ ¬ ClosesEnds os (c.process counter os) := by
  refine ⟨by decide +kernel, ?_⟩
  rw [closesEnds_iff (l := [.pipe (some (3, 4)), .pipe none]) (by decide +kernel)]
  exact not_endsClosed (n := 3) (by simp [SysCall.ends]) (by simp)

end MyHttpServer
