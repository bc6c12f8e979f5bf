/-
  Short writes: what `SendHttpResponse` puts on the wire when a `send` or
  `sendfile` accepts less than it is given.

  Each line of the head, and the file, is given to one call, whose return value
  is dropped: what the call does not accept is lost (`taken`).  The loop for the
  output of a program goes on behind what was accepted, as far as the count of
  the accepted bytes is positive as an `int` (`BodyTaken`).

  * `sendAll_wire`: what a call for each of some chunks puts on the wire;
  * `sendBody_whole`, `sendBody_short`: when the loop sends the whole body;
  * `sendHttpResponse_whole`: when the whole response is sent.
-/
import MyHttpServer.Proof.Send

namespace MyHttpServer

/-- How many bytes a call accepts, if it is given as many. -/
def SendEvent.room : SendEvent → ℕ
  | .accept k => k
  | .error => 0

/-! ## One call for each chunk -/

/-- What is accepted of the `chunks`, given to one call each. -/
def taken : List SendEvent → List Bytes → Bytes
  | _, [] => []
  | [], c :: cs => c ++ taken [] cs
  | e :: es, c :: cs => c.take e.room ++ taken es cs

/-- Each of the calls that `plan` begins with accepts all of its chunk. -/
def TakesAll : List SendEvent → List Bytes → Prop
  | _, [] => True
  | [], _ => True
  | e :: es, c :: cs => c.length ≤ e.room ∧ TakesAll es cs

theorem taken_nil (chunks : List Bytes) : taken [] chunks = chunks.flatten := by
  induction chunks with
  | nil => rfl
  | cons c cs ih => rw [taken, ih, List.flatten_cons]

theorem TakesAll.taken_eq : ∀ {plan : List SendEvent} {chunks : List Bytes},
    TakesAll plan chunks → taken plan chunks = chunks.flatten
  | _, [], _ => by rw [taken]; rfl
  | [], c :: cs, _ => taken_nil _
  | e :: es, c :: cs, ⟨hc, h⟩ => by
    rw [taken, List.take_of_length_le hc, h.taken_eq, List.flatten_cons]

theorem length_taken_le : ∀ (plan : List SendEvent) (chunks : List Bytes),
    (taken plan chunks).length ≤ chunks.flatten.length
  | _, [] => by simp [taken]
  | [], c :: cs => by rw [taken_nil]
  | e :: es, c :: cs => by
    have ih := length_taken_le es cs
    simp only [taken, List.length_append, List.length_take, List.flatten_cons]
    omega

/-- What is not accepted is missing. -/
theorem takesAll_of_length : ∀ {plan : List SendEvent} {chunks : List Bytes},
    (taken plan chunks).length = chunks.flatten.length → TakesAll plan chunks
  | _, [], _ => by rw [TakesAll]; trivial
  | [], c :: cs, _ => trivial
  | e :: es, c :: cs, h => by
    have ih := length_taken_le es cs
    simp only [taken, List.length_append, List.length_take, List.flatten_cons] at h
    exact ⟨by omega, takesAll_of_length (by omega)⟩

theorem send_taken (s : SendSide) (bs : Bytes) :
    (s.send bs).2.wire = s.wire ++ taken s.plan [bs] ∧ (s.send bs).2.plan = s.plan.tail := by
  obtain ⟨w, plan, c⟩ := s
  rcases plan with _ | ⟨_ | _, es⟩ <;> simp [SendSide.send, taken, SendEvent.room]

theorem taken_cons (plan : List SendEvent) (c : Bytes) (cs : List Bytes) :
    taken plan (c :: cs) = taken plan [c] ++ taken plan.tail cs := by
  cases plan <;> simp [taken]

/-- **One call for each chunk** puts on the wire what the calls accept. -/
theorem sendAll_wire (chunks : List Bytes) (tx : SendSide) :
    (chunks.foldl (fun tx c => (tx.send c).2) tx).wire = tx.wire ++ taken tx.plan chunks ∧
      (chunks.foldl (fun tx c => (tx.send c).2) tx).plan = tx.plan.drop chunks.length := by
  induction chunks generalizing tx with
  | nil => simp [taken]
  | cons c cs ih =>
    obtain ⟨hw, hp⟩ := send_taken tx c
    obtain ⟨ihw, ihp⟩ := ih (tx.send c).2
    rw [List.foldl_cons]
    constructor
    · rw [ihw, hw, hp, List.append_assoc, ← taken_cons]
    · rw [ihp, hp, List.drop_tail, List.length_cons]

/-! ## The loop -/

/-- A count that ends the loop when it covers the rest of the body: the rest
    behind it is empty, or the count is not positive as an `int`. -/
def Last (n : ℕ) : Prop := n < 2 ^ 31 ∨ toInt n ≤ 0

/-- The loop sends a rest of `n` bytes: every call accepts some bytes, less than
    2^31, up to one that accepts all that is left. -/
def BodyTaken : List SendEvent → ℕ → Prop
  | [], n => Last n
  | e :: es, n =>
    n ≤ e.room ∧ Last n ∨
      e.room < n ∧ 0 < e.room ∧ e.room < 2 ^ 31 ∧ BodyTaken es (n - e.room)

theorem last_of_lt {n : ℕ} (h : n < 2 ^ 32) : Last n := by
  by_cases hn : n < 2 ^ 31
  · exact .inl hn
  · exact .inr (toInt_neg (by omega) h).le

namespace EndPoint
variable {σ : Type} {body : Bytes} {total : ℕ} {tx : SendSide}

theorem sendBody_done (h : ¬ total < body.length) : (sendBodyLoop body).run (total, tx) = tx := by
  apply WhileLoop.run_done
  simp only [sendBodyLoop, sendBodyStep, if_neg h]

theorem sendBody_next {n : ℤ} {tx' : SendSide} (h : total < body.length)
    (hs : tx.send (body.drop total) = (n, tx')) (hn : 0 < toInt n) :
    (sendBodyLoop body).run (total, tx) =
      (sendBodyLoop body).run (total + (toInt n).toNat, tx') := by
  apply WhileLoop.run_next
  simp only [sendBodyLoop, sendBodyStep, if_pos h, hs, if_pos hn]

theorem sendBody_break {n : ℤ} {tx' : SendSide} (h : total < body.length)
    (hs : tx.send (body.drop total) = (n, tx')) (hn : ¬ 0 < toInt n) :
    (sendBodyLoop body).run (total, tx) = tx' := by
  apply WhileLoop.run_done
  simp only [sendBodyLoop, sendBodyStep, if_pos h, hs, if_neg hn]

theorem send_accept (body : Bytes) (total : ℕ) (w : Bytes) (k : ℕ) (es : List SendEvent) (c : ℕ) :
    (⟨w, .accept k :: es, c⟩ : SendSide).send (body.drop total) =
      (((min k (body.length - total) : ℕ) : ℤ), ⟨w ++ (body.drop total).take k, es, c + 1⟩) := by
  simp [SendSide.send]

/-- A call that accepts all that is left is the last one. -/
theorem sendBody_last {n : ℕ} {tx' : SendSide} (h : total < body.length)
    (hs : tx.send (body.drop total) = ((n : ℤ), tx')) (hn : n = body.length - total)
    (hl : Last n) : (sendBodyLoop body).run (total, tx) = tx' := by
  by_cases hpos : 0 < toInt n
  · have hlt : n < 2 ^ 31 := by
      rcases hl with hl | hl
      · exact hl
      · omega
    rw [sendBody_next h hs hpos, toInt_of_lt hlt, Int.toNat_natCast]
    exact sendBody_done (by omega)
  · exact sendBody_break h hs hpos

/-- **The loop sends the whole body** if `BodyTaken` says so. -/
theorem sendBody_whole (h : BodyTaken tx.plan (body.length - total)) :
    ((sendBodyLoop body).run (total, tx)).wire = tx.wire ++ body.drop total := by
  induction hm : body.length - total using Nat.strong_induction_on generalizing total tx with
  | _ m ih =>
    by_cases ht : total < body.length
    swap
    · rw [sendBody_done ht, List.drop_of_length_le (by omega), List.append_nil]
    obtain ⟨w, plan, c⟩ := tx
    rcases plan with _ | ⟨e, es⟩
    · rw [sendBody_last ht (SendSide.send_full rfl _) (List.length_drop ..)
        (by rw [List.length_drop]; exact h)]
    rcases e with k | _
    swap
    · rcases h with ⟨h, -⟩ | ⟨-, h, -⟩
      · exact absurd h (by simp only [SendEvent.room]; omega)
      · cases h
    have hs := send_accept body total w k es c
    rcases h with ⟨hk, hl⟩ | ⟨hk, hpos, hlt, h⟩
    · -- the call accepts all that is left
      have hk : body.length - total ≤ k := hk
      rw [Nat.min_eq_right hk] at hs
      rw [sendBody_last ht hs rfl hl]
      simp only
      rw [List.take_of_length_le (by simpa using hk)]
    · -- the call accepts `k` bytes, and the next one goes on behind them
      simp only [SendEvent.room] at hk hpos hlt h
      have hint : toInt k = k := toInt_of_lt hlt
      rw [Nat.min_eq_left (by omega)] at hs
      rw [sendBody_next ht hs (by rw [hint]; omega), hint, Int.toNat_natCast]
      rw [Nat.sub_sub] at h
      rw [@ih (body.length - (total + k)) (by omega) (total + k)
        ⟨w ++ (body.drop total).take k, es, c + 1⟩ h rfl]
      rw [List.append_assoc, ← List.drop_drop, List.take_append_drop]

/-- A body of less than 2^32 bytes is sent from its start, as far as the loop
    gets, and the whole of it only if `BodyTaken` says so. -/
theorem sendBody_short (hb : body.length < 2 ^ 32) :
    ∃ j, ((sendBodyLoop body).run (total, tx)).wire = tx.wire ++ (body.drop total).take j ∧
      (body.length - total ≤ j → BodyTaken tx.plan (body.length - total)) := by
  induction hm : body.length - total using Nat.strong_induction_on generalizing total tx with
  | _ m ih =>
    subst hm
    have hl : Last (body.length - total) := last_of_lt (by omega)
    obtain ⟨w, plan, c⟩ := tx
    by_cases ht : total < body.length
    swap
    · refine ⟨0, by rw [sendBody_done ht, List.take_zero, List.append_nil], fun _ => ?_⟩
      rcases plan with _ | ⟨e, es⟩
      · exact hl
      · exact .inl ⟨by omega, hl⟩
    rcases plan with _ | ⟨e, es⟩
    · refine ⟨body.length - total, ?_, fun _ => hl⟩
      rw [sendBody_last ht (SendSide.send_full rfl _) (List.length_drop ..)
        (by rwa [List.length_drop])]
      simp
    rcases e with k | _
    swap
    · refine ⟨0, ?_, by omega⟩
      have hs : (⟨w, .error :: es, c⟩ : SendSide).send (body.drop total) = (-1, ⟨w, es, c + 1⟩) :=
        rfl
      rw [sendBody_break ht hs (by unfold toInt; decide), List.take_zero, List.append_nil]
    have hs := send_accept body total w k es c
    by_cases hk : body.length - total ≤ k
    · rw [Nat.min_eq_right hk] at hs
      exact ⟨k, by rw [sendBody_last ht hs rfl hl], fun _ => .inl ⟨hk, hl⟩⟩
    rw [Nat.min_eq_left (by omega)] at hs
    by_cases hgo : 0 < toInt k
    · have hlt : k < 2 ^ 31 := by
        by_contra hlt
        have := toInt_neg (n := k) (by omega) (by omega)
        omega
      have hint : toInt k = k := toInt_of_lt hlt
      rw [hint] at hgo
      obtain ⟨j, hj, hall⟩ := @ih (body.length - (total + k)) (by omega) (total + k)
        ⟨w ++ (body.drop total).take k, es, c + 1⟩ rfl
      refine ⟨k + j, ?_, fun hkj => .inr ⟨by simp only [SendEvent.room]; omega,
        by simpa [SendEvent.room] using hgo, hlt, ?_⟩⟩
      · rw [sendBody_next ht hs (by rw [hint]; exact hgo), hint, Int.toNat_natCast, hj,
          List.take_add, List.drop_drop]
        simp
      · rw [SendEvent.room, Nat.sub_sub]
        exact hall (by omega)
    · exact ⟨k, by rw [sendBody_break ht hs hgo], fun h => absurd h hk⟩

/-! ## The response -/

/-- What follows the head of the response: the output of the program, or the
    `content` of the file. -/
def bodyBytes (ep : EndPoint) (content : Bytes) : Bytes :=
  if ep.req.cgi then ep.resp.responseBody else content

/-- The lines of the head. -/
def headChunks (ep : EndPoint) : List Bytes :=
  ep.resp.statusLine :: ep.resp.responseHeader ++ [ep.resp.blank]

/-- Every call accepts all that it is given, but in the loop for the output of a
    program. -/
def AllTaken (ep : EndPoint) (content : Bytes) (plan : List SendEvent) : Prop :=
  if ep.req.cgi then
    TakesAll plan ep.headChunks ∧
      BodyTaken (plan.drop ep.headChunks.length) ep.resp.responseBody.length
  else TakesAll plan (ep.headChunks ++ [content])

theorem headChunks_flatten (ep : EndPoint) : ep.headChunks.flatten = ep.headBytes := by
  simp [headChunks, headBytes]

/-- What is sent, as calls for the lines of the head and what follows them. -/
theorem sendHttpResponse_eq (ep : EndPoint) (os : Os σ) (tx : SendSide) :
    (ep.sendHttpResponse os tx).2 =
      let head := ep.headChunks.foldl (fun tx c => (tx.send c).2) tx
      if ep.req.cgi then (sendBodyLoop ep.resp.responseBody).run (0, head)
      else (head.sendfile (os.contentOf ep.resp.fd) (toSizeT ep.resp.fileSize)).2 := by
  simp only [sendHttpResponse, headChunks, List.foldl_append, List.foldl_cons, List.foldl_nil]
  split <;> rfl

theorem sendHttpResponse_file {ep : EndPoint} {os : Os σ} {content : Bytes}
    (hcgi : ep.req.cgi = false) (hfd : os.contentOf ep.resp.fd = some content)
    (hsize : ep.resp.fileSize = content.length) (hlt : content.length < 2 ^ 31) (tx : SendSide) :
    (ep.sendHttpResponse os tx).2 =
      (ep.headChunks ++ [content]).foldl (fun tx c => (tx.send c).2) tx := by
  rw [sendHttpResponse_eq, hcgi, hfd, hsize, toSizeT_of_lt (by omega), List.foldl_append]
  simp [SendSide.sendfile]

/-- **The response is sent whole if and only if every call accepts all that it
    is given**, but in the loop for the output of a program: there every count
    is positive as an `int`, up to the one that covers the rest.  (From 2^32
    bytes of output on, a count may wrap, and what is sent twice may by chance
    be the same bytes.) -/
theorem sendHttpResponse_whole (ep : EndPoint) (os : Os σ) (content : Bytes) (tx : SendSide)
    (hfile : ep.req.cgi = false → os.contentOf ep.resp.fd = some content ∧
      ep.resp.fileSize = content.length ∧ content.length < 2 ^ 31) :
    (ep.AllTaken content tx.plan →
      (ep.sendHttpResponse os tx).2.wire = tx.wire ++ (ep.headBytes ++ ep.bodyBytes content)) ∧
    (ep.req.cgi = false ∨ ep.resp.responseBody.length < 2 ^ 32 →
      (ep.sendHttpResponse os tx).2.wire = tx.wire ++ (ep.headBytes ++ ep.bodyBytes content) →
      ep.AllTaken content tx.plan) := by
  rw [bodyBytes, AllTaken]
  cases hc : ep.req.cgi with
  | false =>
    obtain ⟨hfd, hsize, hlt⟩ := hfile hc
    obtain ⟨hwire, -⟩ := sendAll_wire (ep.headChunks ++ [content]) tx
    rw [sendHttpResponse_file hc hfd hsize hlt, hwire]
    simp only [Bool.false_eq_true, if_false]
    have hflat : (ep.headChunks ++ [content]).flatten = ep.headBytes ++ content := by
      simp [headChunks_flatten]
    constructor
    · intro h
      rw [h.taken_eq, hflat]
    · intro _ h
      rw [List.append_cancel_left_eq] at h
      exact takesAll_of_length (by rw [h, hflat])
  | true =>
    obtain ⟨hwire, hplan⟩ := sendAll_wire ep.headChunks tx
    rw [sendHttpResponse_eq, hc]
    simp only [if_true]
    constructor
    · rintro ⟨hhead, hbody⟩
      rw [sendBody_whole (by rw [hplan]; exact hbody), hwire, hhead.taken_eq, headChunks_flatten]
      simp
    · intro hlt h
      have hlt : ep.resp.responseBody.length < 2 ^ 32 := by simpa using hlt
      obtain ⟨j, hj, hall⟩ := @sendBody_short ep.resp.responseBody 0
        (ep.headChunks.foldl (fun tx c => (tx.send c).2) tx) hlt
      rw [hj, hwire, List.append_assoc, List.append_cancel_left_eq, List.drop_zero,
        ← headChunks_flatten] at h
      have hle := length_taken_le tx.plan ep.headChunks
      have hlen := congrArg List.length h
      simp only [List.length_append, List.length_take] at hlen
      refine ⟨takesAll_of_length (by omega), ?_⟩
      rw [← hplan]
      exact hall (by omega)

/-- The response to a request for a page of four bytes, open as descriptor 3. -/
def pageResponse : EndPoint :=
  { EndPoint.new 4 ⟨false, 0, 0⟩ with
    resp := { statusLine := statusLineOf 200, blank := LINE_END, fd := 3, fileSize := 4 } }

/-- The process with the page open. -/
def pageOs : Os Unit := ⟨(), [(4, []), (3, str "page")], [], .default, []⟩

theorem sendHttpResponse_whole_page : (pageResponse.sendHttpResponse pageOs ⟨[], [], 0⟩).2.wire =
    str "HTTP/1.1 200 OK\r\n\r\npage" := by
  have h := (sendHttpResponse_whole pageResponse pageOs (str "page") ⟨[], [], 0⟩
    (fun _ => ⟨by decide +kernel, by decide +kernel, by decide +kernel⟩)).1 trivial
  rw [h]
  decide +kernel

/-- `sendfile` accepts one byte of the page: the others are lost. -/
theorem page_cut :
    let plan := [.accept 17, .accept 2, .accept 1]
    let wire := (pageResponse.sendHttpResponse pageOs ⟨[], plan, 0⟩).2.wire
    (∀ e ∈ plan, ∃ k, 1 ≤ k ∧ e = .accept k) ∧ wire = str "HTTP/1.1 200 OK\r\n\r\np" ∧
      wire ≠ pageResponse.headBytes ++ pageResponse.bodyBytes (str "page") := by
  refine ⟨?_, by decide +kernel, by decide +kernel⟩
  intro e he
  simp only [List.mem_cons, List.not_mem_nil, or_false] at he
  rcases he with rfl | rfl | rfl <;> exact ⟨_, by decide, rfl⟩

end EndPoint

end MyHttpServer
