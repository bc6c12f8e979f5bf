/-
  A worker that is alone does what `handlerRequest` says.

  Function by function, the calls of a `Worker` are those of the `EndPoint`, in
  the same order and with the same results (`run_handlerRequest`).
-/
import MyHttpServer.Model.Worker

namespace MyHttpServer

namespace Worker
variable {σ : Type} (M : Machine σ) (ep : EndPoint) (w : World σ)

/-! ## Calls -/

section
variable (sock fd : ℤ) (path bs : Bytes)

@[simp] theorem run_receive : (Calling.receive sock ep).run (World.answer M) w =
    ((ep.recvHttpRequest w.rx).1, { w with rx := (ep.recvHttpRequest w.rx).2 }) := rfl

@[simp] theorem run_send : (Calling.send sock bs).run (World.answer M) w =
    ((w.tx.send bs).1, { w with tx := (w.tx.send bs).2 }) := rfl

@[simp] theorem run_sendfile (count : ℕ) : (Calling.sendfile sock fd count).run (World.answer M) w =
    ((w.tx.sendfile (w.os.contentOf fd) count).1,
      { w with tx := (w.tx.sendfile (w.os.contentOf fd) count).2 }) := rfl

@[simp] theorem run_stat : (Calling.stat path).run (World.answer M) w =
    ((w.os.stat M path).1, { w with os := (w.os.stat M path).2 }) := rfl

@[simp] theorem run_openFile : (Calling.openFile path).run (World.answer M) w =
    ((w.os.openFile M path).1, { w with os := (w.os.openFile M path).2 }) := rfl

@[simp] theorem run_close : (Calling.close fd).run (World.answer M) w =
    ((), { w with os := w.os.close fd }) := rfl

@[simp] theorem run_pipe : Calling.pipe.run (World.answer M) w =
    (w.os.pipe.1, { w with os := w.os.pipe.2 }) := rfl

@[simp] theorem run_fork : Calling.fork.run (World.answer M) w =
    (w.os.fork.1, { w with os := w.os.fork.2 }) := rfl

@[simp] theorem run_exec (inp : CgiInput) : (Calling.exec path inp).run (World.answer M) w =
    (((w.os.runChild M path inp).1.output, (w.os.runChild M path inp).1.ending),
      { w with os := (w.os.runChild M path inp).2 }) := rfl

@[simp] theorem run_waitpid (ending : ChildEnd) :
    (Calling.waitpid ending).run (World.answer M) w =
      ((w.os.waitpid ending).1, { w with os := (w.os.waitpid ending).2 }) := rfl

end

/-! ## Building the response -/

theorem run_cgiProcess : (cgiProcess ep).run (World.answer M) w =
    let r := EndPoint.cgiProcess M ep w.os
    ((r.1, r.2.1), { w with os := r.2.2 }) := by
  rw [cgiProcess, EndPoint.cgiProcess, Routine.run_bind, run_pipe]
  rcases w.os.pipe with ⟨_ | input, os⟩
  · rfl
  · rw [Routine.run_bind, run_pipe]
    rcases hp : os.pipe with ⟨_ | output, os'⟩
    · simp only [hp]
      rfl
    · simp only [hp]
      rw [Routine.run_bind, run_fork]
      rcases os'.fork with ⟨_ | _, os''⟩
      · simp only
        rfl
      · simp only
        rfl

theorem run_notCgiProcess : (notCgiProcess ep).run (World.answer M) w =
    let r := EndPoint.notCgiProcess M ep w.os
    ((r.1, r.2.1), { w with os := r.2.2 }) := by
  rw [notCgiProcess, EndPoint.notCgiProcess, Routine.run_bind, run_openFile]
  rcases w.os.openFile M ep.req.path with ⟨fd, os⟩
  by_cases h : fd > 0
  · simp only [if_pos h]
    rfl
  · simp only [if_neg h]
    rfl

theorem run_setKind (st : Inode) : (setKind ep st).run (World.answer M) w =
    let r := EndPoint.setKind M ep st w.os
    ((r.1, r.2.1), { w with os := r.2.2 }) := by
  rw [setKind, EndPoint.setKind]
  split_ifs <;> rfl

/-- The end point with which `BuildHttpResponse` goes on, and where. -/
theorem run_locate : (locate ep).run (World.answer M) w =
    match EndPoint.locate M ep w.os with
    | .error r => (.error r.1, { w with os := r.2 })
    | .ok r => (.ok r.1, { w with os := r.2 }) := by
  rw [locate, EndPoint.locate]
  split_ifs with h
  · rfl
  · simp only
    rw [Routine.run_bind, run_stat]
    rcases w.os.stat M ep.setServedPath.req.path with ⟨_ | st, os⟩
    · rfl
    · simp only
      rw [Routine.run_bind, run_setKind]
      rfl

theorem run_dispatch : (dispatch ep).run (World.answer M) w =
    let r := EndPoint.dispatch M ep w.os
    (r.1, { w with os := r.2 }) := by
  rw [dispatch, EndPoint.dispatch]
  split_ifs
  · rw [Routine.run_bind, run_cgiProcess, Routine.run_bind, run_cgiProcess]
    rfl
  · rw [Routine.run_bind, run_notCgiProcess, Routine.run_bind, run_notCgiProcess]
    rfl

theorem run_buildErrorHeader (path : Bytes) : (buildErrorHeader path ep).run (World.answer M) w =
    let r := EndPoint.buildErrorHeader M path ep w.os
    (r.1, { w with os := r.2 }) := by
  rw [buildErrorHeader, EndPoint.buildErrorHeader, Routine.run_bind, run_openFile]
  rcases w.os.openFile M path with ⟨fd, os⟩
  by_cases h : fd > 0
  · simp only [if_pos h]
    rw [Routine.run_bind, run_stat]
    rcases os.stat M path with ⟨_ | st, os'⟩ <;> rfl
  · simp only [if_neg h]
    rfl

theorem run_buildResponseHelper : (buildResponseHelper ep).run (World.answer M) w =
    let r := EndPoint.buildResponseHelper M ep w.os
    (r.1, { w with os := r.2 }) := by
  rw [buildResponseHelper, EndPoint.buildResponseHelper]
  simp only
  split_ifs
  · rfl
  · exact run_buildErrorHeader M _ w PAGE_400
  · rw [Routine.run_bind, run_buildErrorHeader, run_buildErrorHeader]
  · exact run_buildErrorHeader M _ w PAGE_500
  · rfl

theorem run_buildHttpResponse : (buildHttpResponse ep).run (World.answer M) w =
    let r := EndPoint.buildHttpResponse M ep w.os
    (r.1, { w with os := r.2 }) := by
  rw [buildHttpResponse, EndPoint.buildHttpResponse, Routine.run_bind, run_locate]
  rcases EndPoint.locate M ep w.os with ⟨ep', os⟩ | ⟨ep', os⟩
  · exact run_buildResponseHelper M ep' _
  · simp only
    rw [Routine.run_bind, run_dispatch, run_buildResponseHelper]

/-! ## Sending the response -/

theorem run_sendHeader (sock : ℤ) (lines : List Bytes) (w : World σ) :
    (sendHeader sock lines).run (World.answer M) w =
      ((), { w with tx := lines.foldl (fun tx line => (tx.send line).2) w.tx }) := by
  induction lines generalizing w with
  | nil => rfl
  | cons line lines ih =>
    rw [sendHeader, Routine.run_bind, run_send, ih]
    rfl

theorem sendBody_eq (sock : ℤ) (body : Bytes) (total : ℕ) :
    sendBody sock body total =
      if total < body.length then do
        let n ← Calling.send sock (body.drop total)
        if 0 < toInt n then sendBody sock body (total + (toInt n).toNat) else pure ()
      else pure () := by
  rw [sendBody]
  rfl

theorem run_sendBody (sock : ℤ) (body : Bytes) (total : ℕ) (w : World σ) :
    (sendBody sock body total).run (World.answer M) w =
      ((), { w with tx := (EndPoint.sendBodyLoop body).run (total, w.tx) }) := by
  induction hn : body.length - total using Nat.strong_induction_on generalizing total w with
  | _ n ih =>
    subst hn
    rw [sendBody_eq]
    by_cases ht : total < body.length
    · rw [if_pos ht, Routine.run_bind, run_send]
      obtain ⟨n, tx, hs⟩ : ∃ n tx, w.tx.send (body.drop total) = (n, tx) := ⟨_, _, rfl⟩
      have hn : (w.tx.send (body.drop total)).1 = n := by rw [hs]
      have htx : (w.tx.send (body.drop total)).2 = tx := by rw [hs]
      simp only [hn, htx]
      by_cases hsize : 0 < toInt n
      · have hstep : (EndPoint.sendBodyLoop body).step (total, w.tx) =
            .inl (total + (toInt n).toNat, tx) := by
          simp only [EndPoint.sendBodyLoop, EndPoint.sendBodyStep, if_pos ht, hs, if_pos hsize]
        rw [if_pos hsize, ih _ (by omega) _ _ rfl, WhileLoop.run_next hstep]
      · have hstep : (EndPoint.sendBodyLoop body).step (total, w.tx) = .inr tx := by
          simp only [EndPoint.sendBodyLoop, EndPoint.sendBodyStep, if_pos ht, hs, if_neg hsize]
        rw [if_neg hsize, WhileLoop.run_done hstep]
        rfl
    · have hstep : (EndPoint.sendBodyLoop body).step (total, w.tx) = .inr w.tx := by
        simp only [EndPoint.sendBodyLoop, EndPoint.sendBodyStep, if_neg ht]
      rw [if_neg ht, WhileLoop.run_done hstep]
      rfl

theorem run_sendHttpResponse : (sendHttpResponse ep).run (World.answer M) w =
    let r := EndPoint.sendHttpResponse ep w.os w.tx
    ((), { w with os := r.1, tx := r.2 }) := by
  rw [sendHttpResponse, EndPoint.sendHttpResponse, Routine.run_bind, run_send, Routine.run_bind,
    run_sendHeader, Routine.run_bind, run_send]
  split_ifs
  · rw [run_sendBody]
  · rw [Routine.run_bind, run_sendfile, run_close]

/-! ## The whole -/

/-- **A worker that is alone handles a request** as `handlerRequest` says. -/
theorem run_handlerRequest (sock : ℤ) (u : Unset) :
    (handlerRequest sock u).run (World.answer M) w = MyHttpServer.handlerRequest M sock u w := by
  rw [handlerRequest, MyHttpServer.handlerRequest, Routine.run_bind, run_receive]
  rcases (EndPoint.new sock u).recvHttpRequest w.rx with ⟨ep, rx⟩
  simp only
  split_ifs
  · rfl
  · rw [Routine.run_bind, run_buildHttpResponse, Routine.run_bind, run_sendHttpResponse]
    rfl

end Worker

end MyHttpServer
