/-
  How often a request runs its program.

  A call of `CgiProcess` runs the program once, provided that the kernel grants
  it two pipes and a child (`cgiRun_done`).  `BuildHttpResponse` makes two such
  calls.

  * `runsOnce_iff`: a request runs its program once exactly if one of the two
    calls is refused something.
-/
import MyHttpServer.Proof.Response
import MyHttpServer.Proof.Trace

namespace MyHttpServer

/-! ## Programs in a trace -/

/-- The programs that the calls of `t` start, in order. -/
def programsRun (t : List SysCall) : List Bytes := t.filterMap SysCall.started

@[simp] theorem programsRun_append (t t' : List SysCall) :
    programsRun (t ++ t') = programsRun t ++ programsRun t' := List.filterMap_append

/-- `os'` comes from `os` by calls that start no program. -/
structure Inert {σ : Type} (os os' : Os σ) : Prop where
  disk : os'.disk = os.disk
  calls : Calls (·.started = none) os os'

theorem pathless_inert : Pathless (·.started = none) := by
  rintro (_ | _ | _ | _ | ⟨p, _ | _⟩ | _ | _) h <;> first | rfl | cases h

namespace Inert
variable {σ : Type} {M : Machine σ} {os os' os'' : Os σ}

theorem trans (h : Inert os os') (h' : Inert os' os'') : Inert os os'' :=
  ⟨h'.disk.trans h.disk, h.calls.trans h'.calls⟩

theorem ran (h : Inert os os') : programsRun os'.trace = programsRun os.trace := by
  obtain ⟨cs, ht, hc⟩ := h.calls
  have : programsRun cs = [] := List.filterMap_eq_nil_iff.2 hc
  rw [ht, programsRun_append, this, List.append_nil]

theorem close (os : Os σ) (fd : ℤ) : Inert os (os.close fd) :=
  ⟨rfl, Calls.close pathless_inert os fd⟩

theorem waitpid (os : Os σ) (ending : ChildEnd) : Inert os (os.waitpid ending).2 := by
  refine ⟨?_, Calls.waitpid pathless_inert os ending⟩
  unfold Os.waitpid
  cases os.sigchld <;> rfl

/-- `pipe` asks the kernel once. -/
theorem pipe {r : Option (ℕ × ℕ)} (h : os.pipe = (r, os')) :
    Inert os os' ∧ os'.refusals = os.refusals.tail ∧
      (r = none ↔ os.refusals.headD false = true) := by
  have hc := Calls.pipe pathless_inert h
  unfold Os.pipe Os.refuse at h
  cases hr : os.refusals.headD false with
  | true =>
    rw [hr] at h; cases h
    exact ⟨⟨rfl, hc⟩, rfl, by simp⟩
  | false =>
    rw [hr] at h; cases h
    exact ⟨⟨rfl, hc⟩, rfl, by simp⟩

/-- So does `fork`. -/
theorem fork {r : Bool} (h : os.fork = (r, os')) :
    Inert os os' ∧ os'.refusals = os.refusals.tail ∧ r = !os.refusals.headD false := by
  have hc := Calls.fork pathless_inert h
  unfold Os.fork Os.refuse at h
  cases hr : os.refusals.headD false with
  | true =>
    rw [hr] at h; cases h
    exact ⟨⟨rfl, hc⟩, rfl, rfl⟩
  | false =>
    rw [hr] at h; cases h
    exact ⟨⟨rfl, hc⟩, rfl, rfl⟩

end Inert

namespace EndPoint
variable {σ : Type} {M : Machine σ}

/-! ## One call of `CgiProcess` -/

/-- Does a call of `CgiProcess` get its two pipes and its child, and what the
    kernel is going to do after it. -/
def childStarts (refusals : List Bool) : Bool × List Bool :=
  if refusals.headD false then (false, refusals.tail)
  else if refusals.tail.headD false then (false, refusals.tail.tail)
  else (!refusals.tail.tail.headD false, refusals.tail.tail.tail)

/-- What a child does on the disk `disk`. -/
def childRun (M : Machine σ) (path : Bytes) (inp : CgiInput) (disk : σ) : CgiRun σ :=
  match M.program disk (cStr path) with
  | some prog => prog inp disk
  | none => ⟨str "execl error\n", .exited 1, disk⟩

/-- The programs that it runs. -/
def childPrograms (M : Machine σ) (path : Bytes) (disk : σ) : List Bytes :=
  match M.program disk (cStr path) with
  | some _ => [cStr path]
  | none => []

theorem runChild_spec (path : Bytes) (inp : CgiInput) (os : Os σ) :
    (os.runChild M path inp).1 = childRun M path inp os.disk ∧
      (os.runChild M path inp).2.disk = (childRun M path inp os.disk).disk ∧
      (os.runChild M path inp).2.refusals = os.refusals ∧
      programsRun (os.runChild M path inp).2.trace =
        programsRun os.trace ++ childPrograms M path os.disk := by
  unfold Os.runChild childRun childPrograms
  cases M.program os.disk (cStr path) with
  | some prog => exact ⟨rfl, rfl, rfl, by simp [programsRun, SysCall.started]⟩
  | none => exact ⟨rfl, rfl, rfl, by simp [Os.note, programsRun, SysCall.started]⟩

/-- The two ways a call of `CgiProcess` can go: it is refused a pipe or its
    child, or it has its child run. -/
inductive CgiDone (M : Machine σ) (path : Bytes) (inp : CgiInput) (os : Os σ) :
    Bytes × Os σ → Prop
  | refused {os'} : (childStarts os.refusals).1 = false →
      os'.refusals = (childStarts os.refusals).2 → Inert os os' → CgiDone M path inp os ([], os')
  | ran {os'} : (childStarts os.refusals).1 = true →
      os'.refusals = (childStarts os.refusals).2 →
      os'.disk = (childRun M path inp os.disk).disk →
      programsRun os'.trace = programsRun os.trace ++ childPrograms M path os.disk →
      CgiDone M path inp os ((childRun M path inp os.disk).output, os')

/-- **What a call of `CgiProcess` does.** -/
theorem cgiRun_done (path : Bytes) (inp : CgiInput) (os : Os σ) :
    CgiDone M path inp os (cgiRun M path inp os).2 := by
  unfold cgiRun
  rcases hp1 : os.pipe with ⟨_ | input, os1⟩
  · obtain ⟨hq1, hr1, hn1⟩ := Inert.pipe hp1
    have hs : childStarts os.refusals = (false, os1.refusals) := by
      rw [childStarts, if_pos (hn1.1 rfl), hr1]
    exact .refused (by rw [hs]) (by rw [hs]) hq1
  obtain ⟨hq1, hr1, hn1⟩ := Inert.pipe hp1
  have hf1 : os.refusals.headD false ≠ true := fun h => by cases hn1.2 h
  rcases hp2 : os1.pipe with ⟨_ | output, os2⟩
  · obtain ⟨hq2, hr2, hn2⟩ := Inert.pipe hp2
    have hs : childStarts os.refusals = (false, os2.refusals) := by
      rw [childStarts, if_neg hf1, ← hr1, if_pos (hn2.1 rfl), hr2]
    simp only [hp2]
    exact .refused (by rw [hs]) (by rw [hs]) (hq1.trans hq2)
  obtain ⟨hq2, hr2, hn2⟩ := Inert.pipe hp2
  have hf2 : os1.refusals.headD false ≠ true := fun h => by cases hn2.2 h
  rcases hp3 : os2.fork with ⟨started, os3⟩
  obtain ⟨hq3, hr3, hn3⟩ := Inert.fork hp3
  have hs : childStarts os.refusals = (started, os3.refusals) := by
    rw [childStarts, if_neg hf1, ← hr1, if_neg hf2, ← hr2, hr3, hn3]
  have hq := (hq1.trans hq2).trans hq3
  cases started with
  | false =>
    simp only [hp2, hp3]
    exact .refused (by rw [hs]) (by rw [hs]) hq
  | true =>
    simp only [hp2, hp3]
    -- nothing is run on the way to the child, and nothing behind it
    have hc := hq.trans ((Inert.close os3 input.1).trans (Inert.close _ output.2))
    obtain ⟨hrun, hdisk, href, hran⟩ :=
      runChild_spec (M := M) path inp ((os3.close input.1).close output.2)
    rw [hc.disk] at hrun hdisk hran
    rw [hc.ran] at hran
    rcases he : ((os3.close input.1).close output.2).runChild M path inp with ⟨run, os4⟩
    rw [he] at hrun hdisk href hran
    obtain rfl : run = childRun M path inp os.disk := hrun
    have hw := (Inert.waitpid os4 (childRun M path inp os.disk).ending).trans
      ((Inert.close _ output.1).trans (Inert.close _ input.2))
    refine .ran (by rw [hs]) ?_ (hw.disk.trans hdisk) (hw.ran.trans hran)
    rw [hs]
    have hwr : (os4.waitpid (childRun M path inp os.disk).ending).2.refusals = os4.refusals := by
      unfold Os.waitpid
      cases os4.sigchld <;> rfl
    exact hwr.trans href

/-! ## Around the calls -/

theorem buildErrorHeader_data (path : Bytes) (ep : EndPoint) (os : Os σ) :
    (buildErrorHeader M path ep os).2.disk = os.disk ∧
      (buildErrorHeader M path ep os).1.resp.responseBody = ep.resp.responseBody := by
  rcases buildErrorHeader_cases M path os with ⟨f, -, -, he⟩ | ⟨-, f, -, he⟩ | ⟨-, he⟩ <;>
    rw [he] <;> exact ⟨rfl, rfl⟩

/-- No error page starts a program. -/
theorem buildResponseHelper_inert (ep : EndPoint) (os : Os σ) :
    Inert os (buildResponseHelper M ep os).2 ∧
      (buildResponseHelper M ep os).1.resp.responseBody = ep.resp.responseBody := by
  have hcalls := buildResponseHelper_calls (M := M) (P := (·.started = none))
    (fun p _ c _ hc => hc) ep os
  obtain ⟨hdisk, hbody⟩ : (buildResponseHelper M ep os).2.disk = os.disk ∧
      (buildResponseHelper M ep os).1.resp.responseBody = ep.resp.responseBody := by
    refine buildResponseHelper_induct M (P := fun e os' => os'.disk = os.disk ∧
      e.resp.responseBody = ep.resp.responseBody) ⟨rfl, rfl⟩ ?_
    rintro path - e os' ⟨h1, h2⟩
    obtain ⟨g1, g2⟩ := buildErrorHeader_data (M := M) path e os'
    exact ⟨g1.trans h1, g2.trans h2⟩
  exact ⟨⟨hdisk, hcalls⟩, hbody⟩

/-- The file of a request is looked for with `stat` alone. -/
theorem locate_inert {ep ep' : EndPoint} {os os' : Os σ} (h : locate M ep os = .ok (ep', os')) :
    Inert os os' ∧ os'.refusals = os.refusals ∧
      ep'.resp.responseBody = ep.resp.responseBody := by
  have hs (os : Os σ) (p : Bytes) : Inert os (os.note (.stat (cStr p))) :=
    ⟨rfl, Calls.stat os fun c _ hc => hc⟩
  rcases locate_cases M ep os with ⟨-, he⟩ | ⟨-, -, he⟩ | ⟨st, -, -, -, he⟩ | ⟨st, -, -, -, he⟩
  · rw [he] at h; cases h
  · rw [he] at h; cases h
  · rw [he] at h; cases h
    exact ⟨(hs _ _).trans (hs _ _), rfl, rfl⟩
  · rw [he] at h; cases h
    exact ⟨hs _ _, rfl, rfl⟩

/-- The body that a program has written is sent without the help of a file. -/
theorem sendHttpResponse_cgi {ep : EndPoint} (h : ep.req.cgi = true) (os : Os σ)
    (tx : SendSide) : (ep.sendHttpResponse os tx).1 = os := by
  rw [sendHttpResponse]
  simp only [if_pos h]

end EndPoint

/-! ## A whole request -/

section
variable {σ : Type} {M : Machine σ} {sock : ℤ} {u : Unset} {w : World σ}

/-- `HandlerRequest` has run the program `prog` at `path` with the input `inp`
    once, and keeps the output of that run. -/
structure RunsOnce (path : Bytes) (prog : Program σ) (inp : CgiInput) (w : World σ)
    (r : EndPoint × World σ) : Prop where
  ran : programsRun r.2.os.trace = programsRun w.os.trace ++ [cStr path]
  output : r.1.resp.responseBody = (prog inp w.os.disk).output
  disk : r.2.os.disk = (prog inp w.os.disk).disk

/-- **What a request for a program leaves behind** are the outcomes of two calls
    of `CgiProcess`. -/
theorem handlerRequest_cgi (M : Machine σ) {ep : EndPoint} {os : Os σ}
    (hread : ((EndPoint.new sock u).recvHttpRequest w.rx).1.stop = false)
    (hroute : EndPoint.locate M ((EndPoint.new sock u).recvHttpRequest w.rx).1 w.os = .ok (ep, os))
    (hcgi : ep.req.cgi = true) :
    let r := handlerRequest M sock u w
    ∃ out out' os1 os2, EndPoint.CgiDone M ep.req.path ep.cgiInput os (out, os1) ∧
      EndPoint.CgiDone M ep.req.path ep.cgiInput os1 (out', os2) ∧
      r.1.resp.responseBody = out ++ out' ∧ Inert os2 r.2.os := by
  intro r
  have hr : r = _ := handlerRequest_of_read M hread
  obtain ⟨-, line, he⟩ := recvHttpRequest_parsed hread
  have hbody : ep.resp.responseBody = [] := by
    rw [(EndPoint.locate_inert hroute).2.2, he, EndPoint.parsed_new]
  have hd := EndPoint.dispatch_cgi M hcgi os
  have h1 := EndPoint.cgiRun_done (M := M) ep.req.path ep.cgiInput os
  set c := EndPoint.cgiRun M ep.req.path ep.cgiInput os
  have h2 := EndPoint.cgiRun_done (M := M) ep.req.path ep.cgiInput c.2.2
  set c' := EndPoint.cgiRun M ep.req.path ep.cgiInput c.2.2
  have hb := EndPoint.buildHttpResponse_eq M ((EndPoint.new sock u).recvHttpRequest w.rx).1 w.os
  have hch : EndPoint.chosen M ((EndPoint.new sock u).recvHttpRequest w.rx).1 w.os =
      ({ (ep.addBody c.2.1).addBody c'.2.1 with resp.statusCode := c'.1 }, c'.2.2) := by
    rw [EndPoint.chosen, hroute]
    exact hd
  rw [hch] at hb
  obtain ⟨hq, hout⟩ := EndPoint.buildResponseHelper_inert (M := M)
    { (ep.addBody c.2.1).addBody c'.2.1 with resp.statusCode := c'.1 } c'.2.2
  have hreq := (EndPoint.buildResponseHelper_frame (M := M)
    { (ep.addBody c.2.1).addBody c'.2.1 with resp.statusCode := c'.1 } c'.2.2).1
  rw [← hb] at hq hout hreq
  refine ⟨c.2.1, c'.2.1, c.2.2, c'.2.2, h1, h2, ?_, ?_⟩
  · rw [hr]
    refine hout.trans ?_
    simp [EndPoint.addBody, hbody]
  · rw [hr]
    simp only [EndPoint.sendHttpResponse_cgi ((congrArg _ hreq).trans hcgi)]
    exact hq.trans (Inert.close _ sock)

/-- **A request runs its program once, and keeps what it wrote, exactly if the
    kernel refuses one of the two calls of `CgiProcess`** a pipe or its child.
    If it refuses nothing, the program is run twice. -/
theorem runsOnce_iff {ep : EndPoint} {os : Os σ} {prog : Program σ}
    (hread : ((EndPoint.new sock u).recvHttpRequest w.rx).1.stop = false)
    (hroute : EndPoint.locate M ((EndPoint.new sock u).recvHttpRequest w.rx).1 w.os = .ok (ep, os))
    (hcgi : ep.req.cgi = true) (hprog : M.program w.os.disk (cStr ep.req.path) = some prog) :
    RunsOnce ep.req.path prog ep.cgiInput w (handlerRequest M sock u w) ↔
      (EndPoint.childStarts w.os.refusals).1 ≠
        (EndPoint.childStarts (EndPoint.childStarts w.os.refusals).2).1 := by
  obtain ⟨out, out', os1, os2, h1, h2, hbody, hq⟩ := handlerRequest_cgi M hread hroute hcgi
  obtain ⟨hq0, href, -⟩ := EndPoint.locate_inert hroute
  have hrun : EndPoint.childRun M ep.req.path ep.cgiInput w.os.disk =
      prog ep.cgiInput w.os.disk := by rw [EndPoint.childRun, hprog]
  have hran : EndPoint.childPrograms M ep.req.path w.os.disk = [cStr ep.req.path] := by
    rw [EndPoint.childPrograms, hprog]
  cases h1 with
  | refused hs1 hr1 hq1 =>
    have hd1 := hq0.trans hq1
    rw [← href, hs1, ← hr1]
    cases h2 with
    | refused hs2 hr2 hq2 =>
      have hnone := ((hd1.trans hq2).trans hq).ran
      rw [hs2]
      constructor
      · rintro ⟨hr, -, -⟩
        rw [hnone] at hr
        simp at hr
      · intro h
        exact absurd rfl h
    | ran hs2 hr2 hd2 hp2 =>
      rw [hd1.disk, hrun] at hd2 hbody
      rw [hd1.disk, hd1.ran, hran] at hp2
      rw [hs2]
      exact ⟨fun _ => by simp, fun _ => ⟨hq.ran.trans hp2, by simpa using hbody, hq.disk.trans hd2⟩⟩
  | ran hs1 hr1 hd1 hp1 =>
    rw [hq0.disk, hrun] at hd1 hbody
    rw [hq0.disk, hq0.ran, hran] at hp1
    rw [← href, hs1, ← hr1]
    cases h2 with
    | refused hs2 hr2 hq2 =>
      have hafter := hq2.trans hq
      rw [hs2]
      exact ⟨fun _ => by simp,
        fun _ => ⟨hafter.ran.trans hp1, by simpa using hbody, hafter.disk.trans hd1⟩⟩
    | ran hs2 hr2 hd2 hp2 =>
      rw [hs2]
      refine ⟨?_, fun h => absurd rfl h⟩
      rintro ⟨hr, ho, -⟩
      rw [hq.ran, hp2, hp1] at hr
      rw [hbody] at ho
      -- the second child runs a program again, or says that there is none
      cases hp : M.program os1.disk (cStr ep.req.path) with
      | some prog' => simp [EndPoint.childPrograms, hp] at hr
      | none =>
        have hsay : str "execl error\n" ≠ [] := by decide +kernel
        simp [EndPoint.childRun, hp, hsay] at ho

end

/-- A program that writes how often it has been run before. -/
def count : Program ℕ := fun _ n => ⟨decimal n, .exited 0, n + 1⟩

/-- The file it is kept in. -/
def countFile : Inode :=
  { mode := 0o100755, size := 0, content := [], readable := true, size_eq := fun _ => rfl }

/-- A site of that program alone. -/
def counter : Machine ℕ where
  lookup _ p := if p = str "wwwroot/count" then some countFile else none
  program _ p := if p = str "wwwroot/count" then some count else none

/-- A request for it, to a kernel that is going to do `refusals`. -/
def countVisit (refusals : List Bool) : World ℕ :=
  { visit (str "GET /count HTTP/1.1\r\n\r\n") with
    os := { (visit []).os with refusals } }

/-- The end point that has read it. -/
def countAsked : EndPoint := EndPoint.parsed (.new 4 ⟨false, 0, 0⟩) (str "GET /count HTTP/1.1")

/-- If the second call of `CgiProcess` is refused a pipe, the program is run once. -/
theorem runsOnce_iff_refused :
    RunsOnce (str "wwwroot/count") count ⟨[str "METHOD=GET", str "PARAMETER="], []⟩
      (countVisit [false, false, false, true])
      (handlerRequest counter 4 ⟨false, 0, 0⟩ (countVisit [false, false, false, true])) := by
  set w := countVisit [false, false, false, true]
  have hread : ((EndPoint.new 4 ⟨false, 0, 0⟩).recvHttpRequest w.rx).1 = countAsked := by
    decide +kernel
  have hpath : EndPoint.servedPath countAsked.req.path = str "wwwroot/count" := by decide +kernel
  have hcut : cStr (str "wwwroot/count") = str "wwwroot/count" := by decide +kernel
  have hl : counter.lookup w.os.disk (cStr (EndPoint.servedPath countAsked.req.path)) =
      some countFile := by
    rw [hpath, hcut]
    simp [counter]
  have hroute := @EndPoint.locate_file _ counter countAsked _ (by decide +kernel) _ hl
    (by decide +kernel)
  rw [hpath, ← hread] at hroute
  have hprog : counter.program w.os.disk (cStr (str "wwwroot/count")) = some count := by
    rw [hcut]
    simp [counter]
  have h := @runsOnce_iff ℕ counter 4 ⟨false, 0, 0⟩ w _ _ count (by rw [hread]; rfl) hroute
    (by decide +kernel) hprog
  rw [hread] at h
  exact h.2 (by decide +kernel)

/-- If nothing is refused, it is run twice, and the body holds both outputs. -/
theorem count_twice :
    let r := handlerRequest counter 4 ⟨false, 0, 0⟩ (countVisit [])
    programsRun r.2.os.trace = [str "wwwroot/count", str "wwwroot/count"] ∧
      r.1.resp.responseBody = str "01" ∧ r.2.os.disk = 2 ∧
      ∀ path inp, ¬ RunsOnce path count inp (countVisit []) r := by
  have hran : programsRun (handlerRequest counter 4 ⟨false, 0, 0⟩ (countVisit [])).2.os.trace =
      [str "wwwroot/count", str "wwwroot/count"] := by decide +kernel
  refine ⟨hran, by decide +kernel, by decide +kernel, ?_⟩
  rintro path inp ⟨hr, -, -⟩
  have := congrArg List.length (hran.symm.trans hr)
  simp [countVisit, visit, bare, programsRun] at this

end MyHttpServer
