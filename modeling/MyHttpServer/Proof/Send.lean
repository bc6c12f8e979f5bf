/-
  `SendHttpResponse`: what it puts on the wire.

  * `sendBody_induct`, `sendHeader_induct`: what every `send` keeps is kept by
    the two loops of `SendHttpResponse`;
  * `calls_lt_sendHttpResponse`: a response is at least one call;
  * `sendHttpResponse_full`: what is sent on a socket that accepts everything.
-/
import MyHttpServer.Model.Protocal

namespace MyHttpServer

namespace EndPoint
variable {σ : Type}

/-! ## The two loops -/

section
variable {P : SendSide → Prop} (hsend : ∀ tx bs, P tx → P (tx.send bs).2)
include hsend

theorem sendBody_induct (body : Bytes) (st : ℕ × SendSide) (h : P st.2) :
    P ((sendBodyLoop body).run st) := by
  refine WhileLoop.run_induct (L := sendBodyLoop body) (P := fun st r => P st.2 → P r) ?_ ?_ st h
  · rintro ⟨total, tx⟩ r hs h
    simp only [sendBodyLoop, sendBodyStep] at hs
    split at hs
    · split at hs <;> cases hs
      exact hsend tx _ h
    · cases hs; exact h
  · rintro ⟨total, tx⟩ st' hs ih h
    simp only [sendBodyLoop, sendBodyStep] at hs
    split at hs
    · split at hs <;> cases hs
      exact ih (hsend tx _ h)
    · cases hs

theorem sendHeader_induct (lines : List Bytes) {tx : SendSide} (h : P tx) :
    P (lines.foldl (fun tx line => (tx.send line).2) tx) := by
  induction lines generalizing tx with
  | nil => exact h
  | cons l lines ih => exact ih (hsend tx l h)

end

/-! ## Calls -/

/-- **A response is at least one call.** -/
theorem calls_lt_sendHttpResponse (ep : EndPoint) (os : Os σ) (tx : SendSide) :
    tx.calls < (ep.sendHttpResponse os tx).2.calls := by
  have hsend (t : SendSide) (bs : Bytes) (h : tx.calls < t.calls) :
      tx.calls < (t.send bs).2.calls := by
    rw [SendSide.send_calls]; omega
  have hfirst : tx.calls < (tx.send ep.resp.statusLine).2.calls := by
    rw [SendSide.send_calls]; omega
  have hhead := hsend _ ep.resp.blank (sendHeader_induct hsend ep.resp.responseHeader hfirst)
  simp only [sendHttpResponse]
  split
  · exact sendBody_induct hsend _ _ hhead
  · simp only [SendSide.sendfile]
    split
    · exact hhead.trans (Nat.lt_succ_self _)
    · exact hsend _ _ hhead

/-! ## Bytes -/

/-- A send adds something to the wire. -/
theorem send_wire (s : SendSide) (bs : Bytes) : ∃ more, (s.send bs).2.wire = s.wire ++ more := by
  unfold SendSide.send
  split
  · exact ⟨bs, rfl⟩
  · exact ⟨_, rfl⟩
  · exact ⟨[], by simp⟩

theorem sendBody_wire (body : Bytes) (st : ℕ × SendSide) :
    ∃ more, ((sendBodyLoop body).run st).wire = st.2.wire ++ more := by
  refine sendBody_induct (P := fun r => ∃ more, r.wire = st.2.wire ++ more) ?_ body st
    ⟨[], by simp⟩
  rintro tx bs ⟨first, hf⟩
  obtain ⟨more, hm⟩ := send_wire tx bs
  exact ⟨first ++ more, by rw [hm, hf, List.append_assoc]⟩

theorem sendHeader_full (lines : List Bytes) {tx : SendSide} (h : tx.plan = []) :
    (lines.foldl (fun tx line => (tx.send line).2) tx).wire = tx.wire ++ lines.flatten ∧
      (lines.foldl (fun tx line => (tx.send line).2) tx).plan = [] := by
  induction lines generalizing tx with
  | nil => simp [h]
  | cons l lines ih =>
    rw [List.foldl_cons, SendSide.send_full h]
    obtain ⟨h1, h2⟩ := @ih ⟨tx.wire ++ l, [], tx.calls + 1⟩ rfl
    exact ⟨by rw [h1]; simp, h2⟩

/-- The bytes of the head of the response. -/
def headBytes (ep : EndPoint) : Bytes :=
  ep.resp.statusLine ++ ep.resp.responseHeader.flatten ++ ep.resp.blank

/-- What `sendfile` takes from the file of the response. -/
def fileBytes (ep : EndPoint) (os : Os σ) : Bytes :=
  ((os.contentOf ep.resp.fd).getD []).take (toSizeT ep.resp.fileSize)

/-- **What is sent on a socket that accepts everything.** -/
theorem sendHttpResponse_full (ep : EndPoint) (os : Os σ) {tx : SendSide} (h : tx.plan = []) :
    ∃ body, (ep.sendHttpResponse os tx).2.wire = tx.wire ++ ep.headBytes ++ body ∧
      (ep.req.cgi = false → body = ep.fileBytes os) := by
  obtain ⟨h1, h2⟩ := @sendHeader_full ep.resp.responseHeader
    ⟨tx.wire ++ ep.resp.statusLine, [], tx.calls + 1⟩ rfl
  rw [sendHttpResponse, SendSide.send_full h]
  simp only
  rw [SendSide.send_full h2, h1]
  cases hc : ep.req.cgi with
  | true =>
    obtain ⟨more, hm⟩ := sendBody_wire ep.resp.responseBody (0, _)
    refine ⟨more, ?_, by simp⟩
    rw [if_pos rfl]
    simp only
    rw [hm]
    simp [headBytes]
  | false =>
    refine ⟨ep.fileBytes os, ?_, fun _ => rfl⟩
    rw [if_neg (by simp)]
    simp only [SendSide.sendfile, fileBytes]
    cases os.contentOf ep.resp.fd with
    | none => simp [headBytes]
    | some content =>
      simp only [Option.getD_some]
      rw [SendSide.send_full rfl]
      simp [headBytes]

end EndPoint

end MyHttpServer
