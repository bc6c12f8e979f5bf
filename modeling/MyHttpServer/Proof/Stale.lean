/-
  What the members that `EndPoint(int)` and `HttpResponse()` leave unset can do.

  `ep.stale fd n` is `ep` with other contents of `m_fd` and `m_file_size`.
  Every function that builds the response either overwrites the two or carries
  them along unread (`chosen_stale`, `buildResponseHelper_stale`), and what is
  sent is the same (`sendHttpResponse_stale`).  `m_stop` is read before it is
  ever written.

  * `unset_iff`: on what the response depends.
-/
import MyHttpServer.Proof.Response

namespace MyHttpServer

open Util

namespace EndPoint
variable {σ : Type} {M : Machine σ}

/-- The end point with other contents of `m_fd` and `m_file_size`. -/
def stale (ep : EndPoint) (fd n : ℤ) : EndPoint :=
  { ep with resp := { ep.resp with fd, fileSize := n } }

theorem stale_self (ep : EndPoint) : ep.stale ep.resp.fd ep.resp.fileSize = ep := rfl

/-- Two end points that build the same response so far: they differ in `m_fd`
    and `m_file_size` at most, and where the file is going to be sent, not in
    what is sent of it. -/
def SameSo (ep ep' : EndPoint) : Prop :=
  ∃ fd n, ep' = ep.stale fd n ∧
    (ep.req.cgi = true ∨ fd = ep.resp.fd ∧ (n = ep.resp.fileSize ∨ fd = -1))

theorem SameSo.refl (ep : EndPoint) : SameSo ep ep :=
  ⟨ep.resp.fd, ep.resp.fileSize, rfl, .inr ⟨rfl, .inl rfl⟩⟩

/-! ## Building -/

theorem stale_found (ep : EndPoint) (fd n : ℤ) (p : Bytes) (cgi : Bool) (st : Inode) :
    (ep.stale fd n).found p cgi st =
      (ep.found p cgi st).stale fd (ep.found p cgi st).resp.fileSize := rfl

/-- A program leaves the two members alone, and a file has set both. -/
theorem dispatch_stale (ep : EndPoint) (fd : ℤ) (os : Os σ) :
    ∃ fd', dispatch M (ep.stale fd ep.resp.fileSize) os =
        ((dispatch M ep os).1.stale fd' (dispatch M ep os).1.resp.fileSize, (dispatch M ep os).2) ∧
      ((dispatch M ep os).1.req.cgi = false → fd' = (dispatch M ep os).1.resp.fd) := by
  cases hc : ep.req.cgi with
  | true =>
    have hc' : (ep.stale fd ep.resp.fileSize).req.cgi = true := hc
    refine ⟨fd, ?_, ?_⟩
    · rw [dispatch_cgi M hc, dispatch_cgi M hc']
      rfl
    · rw [dispatch_cgi M hc]
      intro h
      exact absurd (hc.symm.trans h) (by simp)
  | false =>
    have hc' : (ep.stale fd ep.resp.fileSize).req.cgi = false := hc
    refine ⟨(dispatch M ep os).1.resp.fd, ?_, fun _ => rfl⟩
    rw [dispatch_file M hc, dispatch_file M hc']
    rfl

/-- **Up to `END` the two members are set**, unless there is no file at all. -/
theorem chosen_stale (ep : EndPoint) (fd n : ℤ) (os : Os σ) :
    ∃ fd' n', chosen M (ep.stale fd n) os =
        ((chosen M ep os).1.stale fd' n', (chosen M ep os).2) ∧
      ((chosen M ep os).1.req.cgi = true ∨
        (fd' = (chosen M ep os).1.resp.fd ∧ n' = (chosen M ep os).1.resp.fileSize) ∨
        (((chosen M ep os).1.resp.statusCode = BAD_REQUEST ∨
          (chosen M ep os).1.resp.statusCode = NOT_FOUND) ∧
          (chosen M ep os).2.used = os.used)) := by
  have hpath : (ep.stale fd n).req = ep.req := rfl
  have hcode : (ep.stale fd n).resp.statusCode = ep.resp.statusCode := rfl
  have hfile (e : EndPoint) (os' : Os σ) :
      ∃ fd' n', dispatch M (e.stale fd e.resp.fileSize) os' =
        ((dispatch M e os').1.stale fd' n', (dispatch M e os').2) ∧
      ((dispatch M e os').1.req.cgi = true ∨
        (fd' = (dispatch M e os').1.resp.fd ∧ n' = (dispatch M e os').1.resp.fileSize)) := by
    obtain ⟨fd', he, hfd⟩ := dispatch_stale (M := M) e fd os'
    refine ⟨fd', _, he, ?_⟩
    cases hc : (dispatch M e os').1.req.cgi with
    | true => exact .inl rfl
    | false => exact .inr ⟨hfd hc, rfl⟩
  rcases locate_cases M ep os with ⟨hb, h⟩ | ⟨hb, hl, h⟩ | ⟨st, hb, hl, hd, h⟩ | ⟨st, hb, hl, hd, h⟩
  · have h' := @locate_badRequest _ M _ os (hcode.trans hb)
    refine ⟨fd, n, ?_, .inr (.inr ⟨.inl ?_, ?_⟩)⟩
    · rw [chosen, chosen, h, h']
    · rw [chosen, h]; exact hb
    · rw [chosen, h]
  · have h' := @locate_missing _ M (ep.stale fd n) os (by rwa [hcode]) hl
    refine ⟨fd, n, ?_, .inr (.inr ⟨.inr ?_, ?_⟩)⟩
    · rw [chosen, chosen, h, h']
      rfl
    · rw [chosen, h]
    · rw [chosen, h]
      rfl
  · have h' := @locate_dir _ M (ep.stale fd n) os (by rwa [hcode]) _ hl hd
    simp only [stale_found] at h'
    obtain ⟨fd', n', he, hs⟩ := hfile _ _
    rw [chosen, chosen, h, h']
    exact ⟨fd', n', he, hs.imp_right .inl⟩
  · have h' := @locate_file _ M (ep.stale fd n) os (by rwa [hcode]) _ hl hd
    simp only [stale_found] at h'
    obtain ⟨fd', n', he, hs⟩ := hfile _ _
    rw [chosen, chosen, h, h']
    exact ⟨fd', n', he, hs.imp_right .inl⟩

theorem buildErrorHeader_stale (path : Bytes) (ep : EndPoint) (fd n : ℤ) {os : Os σ}
    (h : ep.req.cgi = true ∨ 0 ∈ os.used) :
    (buildErrorHeader M path (ep.stale fd n) os).2 = (buildErrorHeader M path ep os).2 ∧
      SameSo (buildErrorHeader M path ep os).1
        (buildErrorHeader M path (ep.stale fd n) os).1 := by
  rcases buildErrorHeader_cases M path os with ⟨f, -, -, he⟩ | ⟨hz, f, -, he⟩ | ⟨-, he⟩
  · rw [he, he]
    exact ⟨rfl, _, _, rfl, .inr ⟨rfl, .inl rfl⟩⟩
  · rw [he, he]
    rcases h with hc | hu
    · exact ⟨rfl, 0, n, rfl, .inl hc⟩
    · exact absurd hu (os.lowestFree_eq_zero.1 hz)
  · rw [he, he]
    exact ⟨rfl, -1, n, rfl, .inr ⟨rfl, .inr rfl⟩⟩

theorem buildErrorHeader_used (path : Bytes) (ep : EndPoint) {os : Os σ} (h : 0 ∈ os.used) :
    0 ∈ (buildErrorHeader M path ep os).2.used := by
  have hn (os : Os σ) (c : SysCall) : (os.note c).used = os.used := rfl
  rcases buildErrorHeader_cases M path os with ⟨f, -, -, he⟩ | ⟨-, f, -, he⟩ | ⟨-, he⟩ <;>
    simp [he, hn, h]

theorem buildErrorHeader_stale_twice (ep : EndPoint) (fd n : ℤ) {os : Os σ}
    (h : ep.req.cgi = true ∨ 0 ∈ os.used) :
    let r := buildErrorHeader M PAGE_404 ep os
    let r' := buildErrorHeader M PAGE_404 (ep.stale fd n) os
    (buildErrorHeader M PAGE_500 r'.1 r'.2).2 = (buildErrorHeader M PAGE_500 r.1 r.2).2 ∧
      SameSo (buildErrorHeader M PAGE_500 r.1 r.2).1 (buildErrorHeader M PAGE_500 r'.1 r'.2).1 := by
  intro r r'
  obtain ⟨hos, fd', n', he, -⟩ := buildErrorHeader_stale (M := M) PAGE_404 ep fd n h
  have hr : r.1.req.cgi = true ∨ 0 ∈ r.2.used := by
    rcases h with hc | hu
    · exact .inl ((congrArg _ (buildErrorHeader_frame PAGE_404 ep os).1).trans hc)
    · exact .inr (buildErrorHeader_used PAGE_404 ep hu)
  rw [show r'.1 = r.1.stale fd' n' from he, show r'.2 = r.2 from hos]
  exact buildErrorHeader_stale PAGE_500 r.1 fd' n' hr

/-- **An error page sets the two members**, unless it is opened as descriptor 0. -/
theorem buildResponseHelper_stale (ep : EndPoint) (fd n : ℤ) {os : Os σ}
    (h : ep.req.cgi = true ∨ (fd = ep.resp.fd ∧ n = ep.resp.fileSize) ∨
      ((ep.resp.statusCode = BAD_REQUEST ∨ ep.resp.statusCode = NOT_FOUND) ∧ 0 ∈ os.used)) :
    (buildResponseHelper M (ep.stale fd n) os).2 = (buildResponseHelper M ep os).2 ∧
      SameSo (buildResponseHelper M ep os).1 (buildResponseHelper M (ep.stale fd n) os).1 := by
  have hcgi (hc : ep.req.cgi = true) : SameSo ep.withStatus (ep.withStatus.stale fd n) :=
    ⟨fd, n, rfl, .inl hc⟩
  rcases h with hc | ⟨rfl, rfl⟩ | ⟨hcode | hcode, hu⟩
  · have hcode : (ep.stale fd n).resp.statusCode = ep.resp.statusCode := rfl
    simp only [buildResponseHelper, hcode]
    split_ifs
    · exact ⟨rfl, hcgi hc⟩
    · exact buildErrorHeader_stale PAGE_400 ep.withStatus fd n (.inl hc)
    · exact buildErrorHeader_stale_twice ep.withStatus fd n (.inl hc)
    · exact buildErrorHeader_stale PAGE_500 ep.withStatus fd n (.inl hc)
    · exact ⟨rfl, hcgi hc⟩
  · exact ⟨rfl, SameSo.refl _⟩
  · have hcode' : (ep.stale fd n).resp.statusCode = BAD_REQUEST := hcode
    rw [buildResponseHelper_400 M hcode, buildResponseHelper_400 M hcode']
    exact buildErrorHeader_stale PAGE_400 ep.withStatus fd n (.inr hu)
  · have hcode' : (ep.stale fd n).resp.statusCode = NOT_FOUND := hcode
    rw [buildResponseHelper_404 M hcode, buildResponseHelper_404 M hcode']
    exact buildErrorHeader_stale_twice ep.withStatus fd n (.inr hu)

/-- What is sent of a response does not depend on the rest. -/
theorem sendHttpResponse_stale {ep ep' : EndPoint} (h : SameSo ep ep') (os : Os σ)
    (tx : SendSide) : (ep'.sendHttpResponse os tx).2 = (ep.sendHttpResponse os tx).2 := by
  obtain ⟨fd, n, rfl, hs⟩ := h
  rcases hs with hc | ⟨rfl, rfl | hfd⟩
  · have hc' : (ep.stale fd n).req.cgi = true := hc
    simp only [sendHttpResponse, if_pos hc, if_pos hc']
    rfl
  · rw [stale_self]
  · simp only [sendHttpResponse, stale, hfd, Os.contentOf_neg, SendSide.sendfile]

/-- What is built and sent depends on the two members only if descriptor 0 is
    free. -/
theorem respond_stale (ep : EndPoint) (fd n : ℤ) {os : Os σ} (h : 0 ∈ os.used) (tx : SendSide) :
    let r := buildHttpResponse M ep os
    let r' := buildHttpResponse M (ep.stale fd n) os
    (r'.1.sendHttpResponse r'.2 tx).2 = (r.1.sendHttpResponse r.2 tx).2 := by
  intro r r'
  obtain ⟨fd', n', he, hs⟩ := chosen_stale (M := M) ep fd n os
  obtain ⟨hos, hso⟩ : r'.2 = r.2 ∧ SameSo r.1 r'.1 := by
    rw [show r = _ from buildHttpResponse_eq M ep os,
      show r' = _ from buildHttpResponse_eq M (ep.stale fd n) os, he]
    refine buildResponseHelper_stale _ fd' n' (hs.imp_right (Or.imp_right ?_))
    rintro ⟨hc, hu⟩
    exact ⟨hc, by rwa [hu]⟩
  rw [hos]
  exact sendHttpResponse_stale hso r.2 tx

end EndPoint

/-! ## `m_stop` -/

section
variable {σ : Type} {M : Machine σ} {sock : ℤ} {a b : Unset} {rx : RecvSide} {os : Os σ}

/-- `ReaLine` returns an empty line behind the first line, and a positive value
    up to there. -/
def headArrives (rx : RecvSide) : Prop := [] ∈ (linesRead rx).tail

/-- The bytes that are on the wire behind `HandlerRequest`. -/
def wireOf (M : Machine σ) (sock : ℤ) (u : Unset) (rx : RecvSide) (os : Os σ) (tx : SendSide) :
    Bytes :=
  (handlerRequest M sock u ⟨rx, tx, os⟩).2.tx.wire

theorem recvHttpRequest_stop_iff (sock : ℤ) (u : Unset) (rx : RecvSide) :
    ((EndPoint.new sock u).recvHttpRequest rx).1.stop = false ↔
      u.stop = false ∧ headArrives rx := by
  cases hu : u.stop with
  | true => simp [recvHttpRequest_of_stop hu]
  | false =>
    obtain ⟨ls, ok, t, cs, hr, hrun⟩ := EndPoint.recvHttpRequest_reads rx
    obtain ⟨-, hfail, hdone⟩ := hrun sock u hu
    rw [headArrives, ← hr.arrives]
    cases ok with
    | false => simp [hfail rfl]
    | true =>
      obtain ⟨l, -, he⟩ := hdone rfl
      rw [he, EndPoint.parsed_new]
      simp [hu]

theorem wireOf_stop {u : Unset} (h : ¬ (u.stop = false ∧ headArrives rx)) (tx : SendSide) :
    wireOf M sock u rx os tx = tx.wire := by
  rw [← recvHttpRequest_stop_iff sock u rx, Bool.not_eq_false] at h
  rw [wireOf, handlerRequest_of_stop (w := ⟨rx, tx, os⟩) M h]

/-- On an end point that is not stopped the request is answered with some bytes. -/
theorem wireOf_read {u : Unset} (hu : u.stop = false) (h : headArrives rx) :
    wireOf M sock u rx os { wire := [], plan := [] } ≠ [] := by
  have hread := (recvHttpRequest_stop_iff sock u rx).2 ⟨hu, h⟩
  rw [wireOf, handlerRequest_of_read (w := ⟨rx, { wire := [], plan := [] }, os⟩) M hread]
  set r := EndPoint.buildHttpResponse M ((EndPoint.new sock u).recvHttpRequest rx).1 os with hr
  obtain ⟨body, hw, -⟩ := @EndPoint.sendHttpResponse_full _ r.1 r.2 { wire := [], plan := [] } rfl
  rw [EndPoint.buildHttpResponse_eq] at hr
  have hline := (EndPoint.buildResponseHelper_frame (M := M)
    (EndPoint.chosen M ((EndPoint.new sock u).recvHttpRequest rx).1 os).1
    (EndPoint.chosen M ((EndPoint.new sock u).recvHttpRequest rx).1 os).2).2.2
  rw [← hr] at hline
  have hne : r.1.resp.statusLine ≠ [] := by
    rw [hline]
    simp [EndPoint.statusLineOf, LINE_END]
  simp only
  rw [hw, EndPoint.headBytes]
  simp [hne]

/-- With the same `m_stop` the response is the same. -/
theorem wireOf_same (h0 : 0 ∈ os.used) (h : a.stop = b.stop) (tx : SendSide) :
    wireOf M sock a rx os tx = wireOf M sock b rx os tx := by
  by_cases hb : b.stop = false ∧ headArrives rx
  · have ha : a.stop = false ∧ headArrives rx := ⟨h.trans hb.1, hb.2⟩
    have hra := (recvHttpRequest_stop_iff sock a rx).2 ha
    have hrb := (recvHttpRequest_stop_iff sock b rx).2 hb
    obtain ⟨ls, ok, t, cs, hr, hrun⟩ := EndPoint.recvHttpRequest_reads rx
    obtain rfl : ok = true := hr.arrives.2 hb.2
    obtain ⟨l, hl, hea⟩ := (hrun sock a ha.1).2.2 rfl
    obtain ⟨l', hl', heb⟩ := (hrun sock b hb.1).2.2 rfl
    cases hl.symm.trans hl'
    have hst : EndPoint.parsed (.new sock b) (EndPoint.storedLine l) =
        (EndPoint.parsed (.new sock a) (EndPoint.storedLine l)).stale b.fd b.fileSize := by
      rw [EndPoint.parsed_new, EndPoint.parsed_new, h]
      rfl
    rw [wireOf, wireOf, handlerRequest_of_read (w := ⟨rx, tx, os⟩) M hra,
      handlerRequest_of_read (w := ⟨rx, tx, os⟩) M hrb]
    simp only [hea, heb, hst, EndPoint.respond_stale _ _ _ h0]
  · have ha : ¬ (a.stop = false ∧ headArrives rx) := by rwa [h]
    rw [wireOf_stop ha, wireOf_stop hb]

/-- **The response depends on `m_stop`**, which is never set before it is read,
    as soon as the head of the request arrives.  With descriptor 0 in use, it
    depends on nothing else that is left unset. -/
theorem unset_iff (M : Machine σ) (sock : ℤ) (rx : RecvSide) (os : Os σ) :
    ((∀ a b tx, wireOf M sock a rx os tx = wireOf M sock b rx os tx) ↔ ¬ headArrives rx) ∧
    (0 ∈ os.used → ∀ a b, (∀ tx, wireOf M sock a rx os tx = wireOf M sock b rx os tx) ↔
      (headArrives rx → a.stop = b.stop)) := by
  have hno (h : ¬ headArrives rx) (a b tx) :
      wireOf M sock a rx os tx = wireOf M sock b rx os tx := by
    rw [wireOf_stop (fun ha => h ha.2), wireOf_stop (fun hb => h hb.2)]
  have hdiff (h : headArrives rx) (a b : Unset)
      (hsame : ∀ tx, wireOf M sock a rx os tx = wireOf M sock b rx os tx) : a.stop = b.stop := by
    have ht := hsame { wire := [], plan := [] }
    cases ha : a.stop <;> cases hb : b.stop
    · rfl
    · rw [wireOf_stop (u := b) (by simp [hb])] at ht
      exact absurd ht (wireOf_read ha h)
    · rw [wireOf_stop (u := a) (by simp [ha])] at ht
      exact absurd ht.symm (wireOf_read hb h)
    · rfl
  constructor
  · refine ⟨fun hsame h => ?_, hno⟩
    have := hdiff h ⟨false, 0, 0⟩ ⟨true, 0, 0⟩ (hsame _ _)
    cases this
  · intro h0 a b
    refine ⟨fun hsame h => hdiff h a b hsame, fun h tx => ?_⟩
    by_cases hh : headArrives rx
    · exact wireOf_same h0 (h hh) tx
    · exact hno hh a b tx

/-- What is on the wire behind a request for the home page if `m_stop` happens
    to hold `stop`. -/
def homeWire (stop : Bool) : Bytes :=
  let w := visit (str "GET / HTTP/1.1\r\n\r\n")
  wireOf site 4 ⟨stop, 0, 0⟩ w.rx w.os { wire := [], plan := [] }

/-- Whether the home page is sent depends on what `m_stop` happens to hold. -/
theorem unset_home :
    homeWire false = str "HTTP/1.1 200 OK\r\n\r\nhome" ∧ homeWire true = [] ∧
    ¬ ∀ a b tx, wireOf site 4 a (visit (str "GET / HTTP/1.1\r\n\r\n")).rx (visit []).os tx =
      wireOf site 4 b (visit (str "GET / HTTP/1.1\r\n\r\n")).rx (visit []).os tx := by
  have hf : homeWire false = str "HTTP/1.1 200 OK\r\n\r\nhome" := by decide +kernel
  have ht : homeWire true = [] := by decide +kernel
  refine ⟨hf, ht, fun h => ?_⟩
  have hsame : homeWire false = homeWire true := h _ _ _
  rw [hf, ht] at hsame
  exact absurd hsame (by decide +kernel)

end

end MyHttpServer
