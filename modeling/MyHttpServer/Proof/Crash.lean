/-
  How `CgiProcess` reports the end of its child.

  `InitServer` has `SIGCHLD` ignored, so that `waitpid` fails, and the code of a
  call that has a child is `OK` however the child ends.

  * `cgiRun_ignored`: the code of a call, with `SIGCHLD` ignored;
  * `endReported_iff`: when a request says how its children have ended.
-/
import MyHttpServer.Model.Loop
import MyHttpServer.Proof.Pipes

namespace MyHttpServer

/-- The code that says how a child has ended. -/
def endCode : ChildEnd → ℤ
  | .exited _ => OK
  | .signaled _ => SERVER_ERROR

/-- The child has not been terminated by a signal. -/
def ChildEnd.Exits : ChildEnd → Prop
  | .exited _ => True
  | .signaled _ => False

theorem endCode_eq_OK {e : ChildEnd} : endCode e = OK ↔ e.Exits := by
  cases e with
  | exited => exact iff_of_true rfl trivial
  | signaled => exact iff_of_false ne_OK.1 id

theorem statusLineOf_eq_OK {code : ℤ} (h : code ∈ [OK, NOT_FOUND, SERVER_ERROR]) :
    EndPoint.statusLineOf code = EndPoint.statusLineOf OK ↔ code = OK := by
  simp only [List.mem_cons, List.not_mem_nil, or_false] at h
  rcases h with rfl | rfl | rfl
  · simp
  · exact iff_of_false (by decide +kernel) ne_OK.2.1
  · exact iff_of_false (by decide +kernel) ne_OK.1

namespace EndPoint
variable {σ : Type} {M : Machine σ}

/-! ## The code of a call -/

theorem childStarts_eq (refusals : List Bool) :
    (childStarts refusals).1 = true ↔ refusals.headD false = false ∧
      refusals.tail.headD false = false ∧ refusals.tail.tail.headD false = false := by
  unfold childStarts
  cases refusals.headD false with
  | true => simp
  | false => cases refusals.tail.headD false <;> simp

theorem runChild_sigchld (os : Os σ) (path : Bytes) (inp : CgiInput) :
    (os.runChild M path inp).2.sigchld = os.sigchld := by
  unfold Os.runChild
  cases M.program os.disk (cStr path) <;> rfl

theorem waitpid_ignored {os : Os σ} (h : os.sigchld = .ignore) (ending : ChildEnd) :
    os.waitpid ending = (none, os.note .waitpid) := by
  rw [Os.waitpid, h]

/-- **With `SIGCHLD` ignored, the code is `OK` exactly if there is a child.** -/
theorem cgiRun_ignored {os : Os σ} (h : os.sigchld = .ignore) (path : Bytes) (inp : CgiInput) :
    (cgiRun M path inp os).2.2.sigchld = .ignore ∧
      (cgiRun M path inp os).1 ∈ [OK, NOT_FOUND, SERVER_ERROR] ∧
      ((cgiRun M path inp os).1 = OK ↔ (childStarts os.refusals).1 = true) := by
  rw [childStarts_eq]
  have hr := cgiRun_return (M := M) path inp os
  generalize cgiRun M path inp os = r at hr
  cases hr with
  | input h1 =>
    refine ⟨h, by simp, iff_of_false ne_OK.1 ?_⟩
    rw [h1]; simp
  | output h1 h2 =>
    refine ⟨h, by simp, iff_of_false ne_OK.1 ?_⟩
    rw [h2]; simp
  | fork h1 h2 h3 =>
    refine ⟨h, by simp, iff_of_false ne_OK.2.1 ?_⟩
    rw [h3]; simp
  | @child i o _ _ h1 h2 h3 hi ho hc hw =>
    subst hc hw
    have hsig : ((forked os i o).runChild M path inp).2.sigchld = .ignore :=
      (runChild_sigchld (forked os i o) path inp).trans h
    rw [waitpid_ignored hsig]
    exact ⟨hsig, by simp [cgiCode], iff_of_true rfl ⟨h1, h2, h3⟩⟩

/-- What a call does to the disk and to the refusals. -/
theorem cgiRun_after (path : Bytes) (inp : CgiInput) (os : Os σ) :
    (cgiRun M path inp os).2.2.refusals = (childStarts os.refusals).2 ∧
      (cgiRun M path inp os).2.2.disk =
        if (childStarts os.refusals).1 then (childRun M path inp os.disk).disk else os.disk := by
  have hd := cgiRun_done (M := M) path inp os
  generalize (cgiRun M path inp os).2 = r at hd
  cases hd with
  | refused hs hr hq =>
    rw [hs]
    exact ⟨hr, hq.disk⟩
  | ran hs hr hdisk =>
    rw [hs]
    exact ⟨hr, hdisk⟩

theorem locate_sigchld {ep ep' : EndPoint} {os os' : Os σ} (h : locate M ep os = .ok (ep', os')) :
    os'.sigchld = os.sigchld := by
  rcases locate_cases M ep os with ⟨-, he⟩ | ⟨-, -, he⟩ | ⟨st, -, -, -, he⟩ | ⟨st, -, -, -, he⟩ <;>
    rw [he] at h <;> cases h <;> rfl

/-! ## What is sent -/

/-- The status line is what is given to the first `send` of a response. -/
theorem sendHttpResponse_line (ep : EndPoint) (os : Os σ) (tx : SendSide) :
    (tx.send ep.resp.statusLine).2.wire <+: (ep.sendHttpResponse os tx).2.wire := by
  set first := (tx.send ep.resp.statusLine).2
  have hsend (t : SendSide) (bs : Bytes) (h : first.wire <+: t.wire) :
      first.wire <+: (t.send bs).2.wire := by
    obtain ⟨more, hm⟩ := send_wire t bs
    rw [hm]; exact h.trans (List.prefix_append _ _)
  have hhead := hsend _ ep.resp.blank
    (sendHeader_induct hsend ep.resp.responseHeader (List.prefix_refl first.wire))
  simp only [sendHttpResponse]
  split
  · exact sendBody_induct hsend _ _ hhead
  · simp only [SendSide.sendfile]
    split
    · exact hhead
    · exact hsend _ _ hhead

end EndPoint

/-! ## A whole request -/

section
variable {σ : Type} {M : Machine σ} {sock : ℤ} {u : Unset} {w : World σ}

/-- The call of `CgiProcess` that is made in `os`, and the response to its request,
    `r`, say how the child of the call has ended, if it has one. -/
def EndReported (M : Machine σ) (ep : EndPoint) (os : Os σ) (tx : SendSide)
    (r : EndPoint × World σ) : Prop :=
  (EndPoint.childStarts os.refusals).1 = true →
    let code := endCode (EndPoint.childRun M ep.req.path ep.cgiInput os.disk).ending
    (EndPoint.cgiProcess M ep os).1 = code ∧
      r.1.resp.statusLine = EndPoint.statusLineOf code ∧
      (tx.send (EndPoint.statusLineOf code)).2.wire <+: r.2.tx.wire

/-- With `SIGCHLD` ignored, a call with a child says that it exited. -/
theorem endReported_ignored {ep : EndPoint} {os : Os σ} {tx : SendSide} {r : EndPoint × World σ}
    (h : os.sigchld = .ignore) {code : ℤ} (hcode : code ∈ [OK, NOT_FOUND, SERVER_ERROR])
    (hline : r.1.resp.statusLine = EndPoint.statusLineOf code)
    (hsent : (tx.send r.1.resp.statusLine).2.wire <+: r.2.tx.wire) :
    EndReported M ep os tx r ↔ ((EndPoint.childStarts os.refusals).1 = true →
      (EndPoint.childRun M ep.req.path ep.cgiInput os.disk).ending.Exits ∧ code = OK) := by
  refine forall_congr' fun hstarts => ?_
  have hOK := (EndPoint.cgiRun_ignored (M := M) h ep.req.path ep.cgiInput).2.2.2 hstarts
  simp only [EndPoint.cgiProcess_eq, hOK]
  rw [← endCode_eq_OK]
  constructor
  · rintro ⟨hc, hl, -⟩
    refine ⟨hc.symm, ?_⟩
    rwa [hline, ← hc, statusLineOf_eq_OK hcode] at hl
  · rintro ⟨hc, rfl⟩
    rw [hc]
    rw [hline] at hsent
    exact ⟨rfl, hline, hsent⟩

/-- **A request says how its children have ended exactly if they exit**, and the
    second call of `CgiProcess`, whose code is sent, has a child if the first one
    has.  The process is as `InitServer` sets it up. -/
theorem endReported_iff {os₀ : Os σ} {ep : EndPoint} {os : Os σ}
    (hinit : w.os = HttpServer.initServer os₀)
    (hread : ((EndPoint.new sock u).recvHttpRequest w.rx).1.stop = false)
    (hroute : EndPoint.locate M ((EndPoint.new sock u).recvHttpRequest w.rx).1 w.os = .ok (ep, os))
    (hcgi : ep.req.cgi = true) :
    let r := handlerRequest M sock u w
    let second := (EndPoint.cgiProcess M ep os).2
    let first := EndPoint.childStarts w.os.refusals
    let run := EndPoint.childRun M ep.req.path ep.cgiInput w.os.disk
    let run' :=
      EndPoint.childRun M ep.req.path ep.cgiInput (if first.1 then run.disk else w.os.disk)
    (EndReported M ep os w.tx r ∧ EndReported M second.1 second.2 w.tx r) ↔
      (first.1 = true → run.ending.Exits ∧ (EndPoint.childStarts first.2).1 = true) ∧
        ((EndPoint.childStarts first.2).1 = true → run'.ending.Exits) := by
  intro r second first run run'
  obtain ⟨hq, href, -⟩ := EndPoint.locate_inert hroute
  have hsig : os.sigchld = .ignore := by
    rw [EndPoint.locate_sigchld hroute, hinit]; rfl
  -- the two calls, and what is sent behind them
  obtain ⟨hsig', -, -⟩ := EndPoint.cgiRun_ignored (M := M) hsig ep.req.path ep.cgiInput
  obtain ⟨href', hdisk'⟩ := EndPoint.cgiRun_after (M := M) ep.req.path ep.cgiInput os
  have hsecond : second = (ep.addBody (EndPoint.cgiRun M ep.req.path ep.cgiInput os).2.1,
      (EndPoint.cgiRun M ep.req.path ep.cgiInput os).2.2) := by
    simp only [second, EndPoint.cgiProcess_eq]
  have hd := EndPoint.dispatch_cgi M hcgi os
  set c := EndPoint.cgiRun M ep.req.path ep.cgiInput os
  obtain ⟨-, hcode, hOK⟩ := EndPoint.cgiRun_ignored (M := M) hsig' ep.req.path ep.cgiInput
  set c' := EndPoint.cgiRun M ep.req.path ep.cgiInput c.2.2
  have hline : r.1.resp.statusLine = EndPoint.statusLineOf c'.1 := by
    simp only [r, handlerRequest_of_read M hread, EndPoint.buildHttpResponse_eq, EndPoint.chosen,
      hroute, hd, (EndPoint.buildResponseHelper_frame _ _).2.2]
    rfl
  have hsent : (w.tx.send r.1.resp.statusLine).2.wire <+: r.2.tx.wire := by
    simp only [r, handlerRequest_of_read M hread]
    exact EndPoint.sendHttpResponse_line _ _ _
  rw [hsecond, endReported_ignored hsig hcode hline hsent,
    endReported_ignored hsig' hcode hline hsent, hOK]
  rw [href', hdisk', hq.disk, href]
  simp only [imp_and]
  exact ⟨fun h => ⟨h.1, h.2.1⟩, fun h => ⟨h.1, h.2, fun hs => hs⟩⟩

end

/-- A program that is terminated by signal 11 behind a part of its output. -/
def crash : Program ℕ := fun _ n => ⟨str "ha", .signaled 11, n⟩

/-- A site of one program. -/
def siteOf (prog : Program ℕ) : Machine ℕ where
  lookup _ p := if p = str "wwwroot/count" then some countFile else none
  program _ p := if p = str "wwwroot/count" then some prog else none

/-- The request of `countVisit` finds it. -/
theorem siteOf_locate (prog : Program ℕ) :
    ∃ ep os, EndPoint.locate (siteOf prog)
        ((EndPoint.new 4 ⟨false, 0, 0⟩).recvHttpRequest (countVisit []).rx).1 (countVisit []).os =
          .ok (ep, os) ∧
      ep.req.cgi = true ∧ os.disk = 0 ∧ os.refusals = [] ∧
      EndPoint.childRun (siteOf prog) ep.req.path = prog := by
  have hread : ((EndPoint.new 4 ⟨false, 0, 0⟩).recvHttpRequest (countVisit []).rx).1 =
      countAsked := by decide +kernel
  have hpath : EndPoint.servedPath countAsked.req.path = str "wwwroot/count" := by decide +kernel
  have hcut : cStr (str "wwwroot/count") = str "wwwroot/count" := by decide +kernel
  have hl : (siteOf prog).lookup (countVisit []).os.disk
      (cStr (EndPoint.servedPath countAsked.req.path)) = some countFile := by
    rw [hpath, hcut]
    simp [siteOf]
  have hroute := @EndPoint.locate_file _ (siteOf prog) countAsked _ (by decide +kernel) _ hl
    (by decide +kernel)
  rw [hread]
  refine ⟨_, _, hroute, by decide +kernel, rfl, rfl, ?_⟩
  ext1 inp
  ext1 n
  rw [EndPoint.found_path, hpath, EndPoint.childRun, hcut]
  simp [siteOf]

/-- A program that exits is reported as such. -/
theorem endReported_iff_exits :
    ∃ ep os, EndPoint.locate (siteOf count)
        ((EndPoint.new 4 ⟨false, 0, 0⟩).recvHttpRequest (countVisit []).rx).1 (countVisit []).os =
          .ok (ep, os) ∧
      EndReported (siteOf count) ep os (countVisit []).tx
        (handlerRequest (siteOf count) 4 ⟨false, 0, 0⟩ (countVisit [])) := by
  obtain ⟨ep, os, hroute, hcgi, -, -, hrun⟩ := siteOf_locate count
  have h := @endReported_iff ℕ (siteOf count) 4 ⟨false, 0, 0⟩ (countVisit []) (countVisit []).os
    ep os rfl (by decide +kernel) hroute hcgi
  simp only [hrun] at h
  exact ⟨ep, os, hroute, (h.2 ⟨fun _ => ⟨trivial, rfl⟩, fun _ => trivial⟩).1⟩

/-- A child that is terminated by a signal, and a response with status 200. -/
theorem crash_reported_ok :
    let w := countVisit []
    let r := handlerRequest (siteOf crash) 4 ⟨false, 0, 0⟩ w
    w.os = HttpServer.initServer w.os ∧
      ∃ ep os, EndPoint.locate (siteOf crash)
          ((EndPoint.new 4 ⟨false, 0, 0⟩).recvHttpRequest w.rx).1 w.os = .ok (ep, os) ∧
        ep.req.cgi = true ∧
        (EndPoint.childRun (siteOf crash) ep.req.path ep.cgiInput os.disk).ending = .signaled 11 ∧
        (EndPoint.cgiProcess (siteOf crash) ep os).1 = OK ∧
        r.1.resp.statusLine = EndPoint.statusLineOf OK ∧
        ¬ EndReported (siteOf crash) ep os w.tx r := by
  intro w r
  obtain ⟨ep, os, hroute, hcgi, hdisk, href, hrun⟩ := siteOf_locate crash
  have hcode : (EndPoint.cgiProcess (siteOf crash) ep os).1 = OK := by
    rw [EndPoint.cgiProcess_eq]
    refine (EndPoint.cgiRun_ignored ?_ ep.req.path ep.cgiInput).2.2.2 ?_
    · rw [EndPoint.locate_sigchld hroute]; rfl
    · rw [href]; rfl
  refine ⟨rfl, ep, os, hroute, hcgi, by rw [hrun]; rfl, hcode, by decide +kernel, ?_⟩
  intro h
  obtain ⟨hc, -⟩ := h (by rw [href]; rfl)
  rw [hcode, hrun] at hc
  exact ne_OK.1 hc.symm

end MyHttpServer
