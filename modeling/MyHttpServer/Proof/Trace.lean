/-
  The calls that building a response makes.

  `Calls P os os'` says that `os'` comes from `os` by calls that all satisfy
  `P`.  What a function of the server may call is stated for every `P` at once;
  `P` is fixed where it is used.

  * `chosen_calls`, `answer_calls`: the paths that are used up to the
    label `END` of `BuildHttpResponse`, and behind it.
-/
import MyHttpServer.Proof.Build

namespace MyHttpServer

/-- The path that a call is given. -/
def SysCall.path : SysCall → Option Bytes
  | .stat p | .open p _ | .exec p _ => some p
  | _ => none

/-- The program that a call starts. -/
def SysCall.started : SysCall → Option Bytes
  | .exec p true => some p
  | _ => none

section
variable {σ : Type} {P Q : SysCall → Prop} {os os' os'' : Os σ}

/-- `os'` comes from `os` by calls that satisfy `P`. -/
def Calls (P : SysCall → Prop) (os os' : Os σ) : Prop :=
  ∃ cs, os'.trace = os.trace ++ cs ∧ ∀ c ∈ cs, P c

/-- `P` holds of the calls that are given no path. -/
def Pathless (P : SysCall → Prop) : Prop := ∀ c, c.path = none → P c

/-- `P` holds of the calls that are given the path `p` and start no program. -/
def Reads (P : SysCall → Prop) (p : Bytes) : Prop :=
  ∀ c, c.path = some p → c.started = none → P c

namespace Calls
variable {M : Machine σ}

theorem refl (os : Os σ) : Calls P os os := ⟨[], by simp, by simp⟩

theorem trans (h : Calls P os os') (h' : Calls P os' os'') : Calls P os os'' := by
  obtain ⟨cs, ht, hc⟩ := h
  obtain ⟨ds, hu, hd⟩ := h'
  refine ⟨cs ++ ds, by rw [hu, ht, List.append_assoc], ?_⟩
  intro c hm
  rcases List.mem_append.1 hm with hm | hm
  · exact hc c hm
  · exact hd c hm

/-- One call. -/
theorem single {c : SysCall} (ht : os'.trace = os.trace ++ [c]) (h : P c) : Calls P os os' := by
  refine ⟨[c], ht, ?_⟩
  rintro d hd
  rw [List.mem_singleton.1 hd]
  exact h

/-- Calls that begin with `c` satisfy `P` only if `c` does. -/
theorem head {c : SysCall} (h : Calls P os os') (h' : Calls Q (os.note c) os') : P c := by
  obtain ⟨cs, ht, hc⟩ := h
  obtain ⟨ds, hu, -⟩ := h'
  have he : os.trace ++ cs = os.trace ++ c :: ds := by
    rw [← ht, hu, Os.note, List.append_assoc, List.singleton_append]
  rw [List.append_cancel_left_eq] at he
  exact hc c (by simp [he])

theorem stat (os : Os σ) {path : Bytes} (h : Reads P (cStr path)) :
    Calls P os (os.note (.stat (cStr path))) := single rfl (h _ rfl rfl)

theorem afterOpen (os : Os σ) {path : Bytes} (h : Reads P (cStr path)) (fd : ℤ)
    (new : List (ℕ × Bytes)) : Calls P os (os.afterOpen path fd new) := single rfl (h _ rfl rfl)

theorem openFile (os : Os σ) {path : Bytes} (h : Reads P (cStr path)) :
    Calls P os (os.openFile M path).2 := by
  rcases os.openFile_cases (M := M) path with ⟨f, -, -, -, he⟩ | ⟨-, he⟩
  · rw [he]; exact afterOpen os h _ _
  · rw [he]; exact afterOpen os h _ _

theorem close (hP : Pathless P) (os : Os σ) (fd : ℤ) : Calls P os (os.close fd) :=
  single rfl (hP _ rfl)

theorem waitpid (hP : Pathless P) (os : Os σ) (ending : ChildEnd) :
    Calls P os (os.waitpid ending).2 := by
  unfold Os.waitpid
  cases os.sigchld <;> exact single rfl (hP _ rfl)

theorem pipe (hP : Pathless P) {r : Option (ℕ × ℕ)} (h : os.pipe = (r, os')) :
    Calls P os os' := by
  unfold Os.pipe Os.refuse at h
  cases hr : os.refusals.headD false <;> rw [hr] at h <;> cases h <;> exact single rfl (hP _ rfl)

theorem fork (hP : Pathless P) {r : Bool} (h : os.fork = (r, os')) : Calls P os os' := by
  unfold Os.fork Os.refuse at h
  cases hr : os.refusals.headD false <;> rw [hr] at h <;> cases h <;> exact single rfl (hP _ rfl)

theorem runChild (os : Os σ) {path : Bytes} (h : ∀ b, P (.exec (cStr path) b)) (inp : CgiInput) :
    Calls P os (os.runChild M path inp).2 := by
  unfold Os.runChild
  cases M.program os.disk (cStr path) with
  | some prog => exact single rfl (h true)
  | none => exact single rfl (h false)

end Calls

namespace EndPoint
variable {M : Machine σ}

/-! ## Up to `END` -/

theorem cgiRun_calls (hP : Pathless P) {path : Bytes} (h : ∀ b, P (.exec (cStr path) b))
    (inp : CgiInput) (os : Os σ) : Calls P os (cgiRun M path inp os).2.2 := by
  unfold cgiRun
  rcases h1 : os.pipe with ⟨_ | input, os1⟩
  · exact Calls.pipe hP h1
  rcases h2 : os1.pipe with ⟨_ | output, os2⟩
  · simp only [h2]
    exact (Calls.pipe hP h1).trans (Calls.pipe hP h2)
  rcases h3 : os2.fork with ⟨started, os3⟩
  have hstart := ((Calls.pipe hP h1).trans (Calls.pipe hP h2)).trans (Calls.fork hP h3)
  cases started with
  | false =>
    simp only [h2, h3]
    exact hstart
  | true =>
    simp only [h2, h3]
    have hclose := (Calls.close hP os3 input.1).trans (Calls.close hP _ output.2)
    refine (hstart.trans (hclose.trans (Calls.runChild (M := M) _ h inp))).trans ?_
    exact (Calls.waitpid hP _ _).trans ((Calls.close hP _ _).trans (Calls.close hP _ _))

theorem dispatch_calls (hP : Pathless P) {ep : EndPoint}
    (h : ∀ c, c.path = some (cStr ep.req.path) → P c) (os : Os σ) :
    Calls P os (dispatch M ep os).2 := by
  cases hc : ep.req.cgi with
  | true =>
    rw [dispatch_cgi M hc]
    exact (cgiRun_calls hP (fun _ => h _ rfl) _ os).trans
      (cgiRun_calls hP (fun _ => h _ rfl) _ _)
  | false =>
    have hr : Reads P (cStr ep.req.path) := fun c hp _ => h c hp
    rw [dispatch_file M hc]
    exact (Calls.openFile os hr).trans (Calls.openFile _ hr)

/-- **Up to `END` two paths are used**: first the one asked for, and then the
    same or that of the home page in the directory of that name. -/
theorem chosen_calls (hP : Pathless P) {ep : EndPoint} (hb : ep.resp.statusCode ≠ BAD_REQUEST)
    (h : ∀ c, c.path = some (cStr (servedPath ep.req.path)) → P c)
    (hh : ∀ c, c.path = some (cStr (homePath (servedPath ep.req.path))) → P c) (os : Os σ) :
    Calls P (os.note (.stat (cStr (servedPath ep.req.path)))) (chosen M ep os).2 := by
  rcases locate_cases M ep os with ⟨hbad, -⟩ | ⟨-, -, he⟩ | ⟨st, -, -, -, he⟩ | ⟨st, -, -, -, he⟩
  · exact absurd hbad hb
  · rw [chosen, he]
    exact Calls.refl _
  · rw [chosen, he]
    exact (Calls.stat _ fun c hp _ => hh c hp).trans (dispatch_calls hP hh _)
  · rw [chosen, he]
    exact dispatch_calls hP h _

/-! ## Behind `END` -/

theorem buildErrorHeader_calls {path : Bytes} (h : Reads P (cStr path)) (ep : EndPoint)
    (os : Os σ) : Calls P os (buildErrorHeader M path ep os).2 := by
  rcases buildErrorHeader_cases M path os with ⟨f, -, -, he⟩ | ⟨-, f, -, he⟩ | ⟨-, he⟩
  · rw [he]
    exact (Calls.afterOpen os h _ _).trans (Calls.stat _ h)
  · rw [he]
    exact Calls.afterOpen os h _ _
  · rw [he]
    exact Calls.afterOpen os h _ _

/-- **Behind `END` the error pages are used**, and no program. -/
theorem buildResponseHelper_calls (h : ∀ p ∈ [PAGE_400, PAGE_404, PAGE_500], Reads P (cStr p))
    (ep : EndPoint) (os : Os σ) : Calls P os (buildResponseHelper M ep os).2 := by
  refine buildResponseHelper_induct M (P := fun _ os' => Calls P os os') (Calls.refl os) ?_
  intro path hp e os' hc
  exact hc.trans (buildErrorHeader_calls (h path hp) e os')

theorem sendHttpResponse_calls (hP : Pathless P) (ep : EndPoint) (os : Os σ) (tx : SendSide) :
    Calls P os (ep.sendHttpResponse os tx).1 := by
  rw [sendHttpResponse]
  cases ep.req.cgi with
  | true => exact Calls.refl os
  | false => exact Calls.close hP os _

end EndPoint

/-- **Behind `END` a request uses the error pages.** -/
theorem answer_calls {M : Machine σ} {sock : ℤ} {u : Unset} {w : World σ}
    (hP : Pathless P) (h : ∀ p ∈ [PAGE_400, PAGE_404, PAGE_500], Reads P (cStr p))
    (hread : ((EndPoint.new sock u).recvHttpRequest w.rx).1.stop = false) :
    Calls P (EndPoint.chosen M ((EndPoint.new sock u).recvHttpRequest w.rx).1 w.os).2
      (handlerRequest M sock u w).2.os := by
  rw [handlerRequest_of_read M hread, EndPoint.buildHttpResponse_eq]
  exact (EndPoint.buildResponseHelper_calls h _ _).trans <|
    (EndPoint.sendHttpResponse_calls hP _ _ _).trans (Calls.close hP _ sock)

end

end MyHttpServer
