/-
  The response for a path that does not exist.

  A GET and a POST for it get the same head: status 404 and the lines of the two
  pages that are opened (`SameHead`).  Behind it the GET is sent the page for
  status 500, through `sendfile`, and the POST its empty response body.

  * `buildErrorHeader_opened`, `buildErrorHeader_not_opened`: what an error page
    leaves in `m_fd` and `m_file_size`;
  * `missing_same_iff`: when the two responses are the same.
-/
import MyHttpServer.Proof.Cgi
import MyHttpServer.Proof.Descriptor
import MyHttpServer.Proof.Short

namespace MyHttpServer

namespace EndPoint
variable {σ : Type} {M : Machine σ} {os : Os σ}

/-! ## Heads -/

/-- The two send the same head. -/
structure SameHead (ep ep' : EndPoint) : Prop where
  statusLine : ep'.resp.statusLine = ep.resp.statusLine
  responseHeader : ep'.resp.responseHeader = ep.resp.responseHeader
  blank : ep'.resp.blank = ep.resp.blank

theorem SameHead.headBytes_eq {ep ep' : EndPoint} (h : SameHead ep ep') :
    ep'.headBytes = ep.headBytes := by
  rw [headBytes, headBytes, h.statusLine, h.responseHeader, h.blank]

/-- An error page adds the same lines to both, and does the same to the process. -/
theorem SameHead.page {ep ep' : EndPoint} (h : SameHead ep ep') (path : Bytes) (os : Os σ) :
    SameHead (buildErrorHeader M path ep os).1 (buildErrorHeader M path ep' os).1 ∧
      (buildErrorHeader M path ep' os).2 = (buildErrorHeader M path ep os).2 := by
  obtain ⟨h1, h2, h3⟩ := h
  rcases buildErrorHeader_cases M path os with ⟨f, -, -, he⟩ | ⟨-, f, -, he⟩ | ⟨-, he⟩
  · rw [he, he]
    exact ⟨⟨h1, by simp only [withPage, h2], h3⟩, rfl⟩
  · rw [he, he]
    exact ⟨⟨h1, h2, h3⟩, rfl⟩
  · rw [he, he]
    exact ⟨⟨h1, h2, h3⟩, rfl⟩

/-- So do the two pages of status 404. -/
theorem SameHead.missing {ep ep' : EndPoint} (hs : ep.resp.statusCode = NOT_FOUND)
    (hs' : ep'.resp.statusCode = NOT_FOUND)
    (h : ep'.resp.responseHeader = ep.resp.responseHeader) (os : Os σ) :
    SameHead (buildResponseHelper M ep os).1 (buildResponseHelper M ep' os).1 := by
  have h0 : SameHead ep.withStatus ep'.withStatus :=
    ⟨by simp only [withStatus, hs, hs'], h, rfl⟩
  obtain ⟨h1, hos⟩ := h0.page (M := M) PAGE_404 os
  rw [buildResponseHelper_404 M hs, buildResponseHelper_404 M hs']
  simp only [hos]
  exact (h1.page PAGE_500 _).1

/-! ## The page that is sent -/

/-- **A page that is opened** can be read through `m_fd`, and `m_file_size` is
    its size, unless it has been opened as descriptor 0. -/
theorem buildErrorHeader_opened {path : Bytes} (h : Opens M os path) (ep : EndPoint) :
    let r := buildErrorHeader M path ep os
    ∃ f, M.lookup os.disk (cStr path) = some f ∧ r.2.contentOf r.1.resp.fd = some f.content ∧
      0 ∈ r.2.used ∧
      r.1.resp.fileSize = if 0 ∈ os.used then toInt f.size else ep.resp.fileSize := by
  intro r
  obtain ⟨hr, f, hl, hf⟩ := h
  have hzero := os.lowestFree_eq_zero
  rcases buildErrorHeader_cases M path os with ⟨g, hg, hpos, he⟩ | ⟨hz, g, hg, he⟩ | ⟨hn, -⟩
  · have hr : r = _ := he ep
    have hused : 0 ∈ os.used := by
      by_contra hno
      exact absurd (hzero.2 hno) hpos.ne'
    refine ⟨g, hg, ?_, ?_, ?_⟩
    · rw [hr]
      exact Os.contentOf_alloc _ rfl
    · rw [hr]
      show 0 ∈ (os.afterOpen path os.lowestFree [(os.lowestFree, g.content)]).used
      rw [Os.afterOpen_used]
      exact List.mem_append_left _ hused
    · rw [hr, if_pos hused]
      rfl
  · have hr : r = _ := he ep
    have hcontent := @Os.contentOf_alloc _ os g.content
      (os.afterOpen path 0 [(0, g.content)]) (by rw [hz]; rfl)
    rw [hz] at hcontent
    refine ⟨g, hg, ?_, ?_, ?_⟩
    · rw [hr]
      exact hcontent
    · rw [hr, Os.afterOpen_used]
      simp
    · rw [hr, if_neg (hzero.1 hz)]
      rfl
  · exact absurd (hn hr f hl) (by simp [hf])

/-- A page that is not opened leaves everything as it was. -/
theorem buildErrorHeader_not_opened {path : Bytes} (h : ¬ Opens M os path) (ep : EndPoint) :
    buildErrorHeader M path ep os = (ep.withFd (-1), os.afterOpen path (-1) []) := by
  rcases os.openFile_cases (M := M) path with ⟨f, hr, hl, hf, -⟩ | ⟨-, he⟩
  · exact absurd ⟨hr, f, hl, hf⟩ h
  · simp only [buildErrorHeader, he]
    rfl

/-- What is opened behind a page does not depend on it. -/
theorem opens_behind (page : Bytes) (ep : EndPoint) (os : Os σ) (path : Bytes) :
    Opens M (buildErrorHeader M page ep os).2 path ↔ Opens M os.refuse.2 path := by
  rcases buildErrorHeader_cases M page os with ⟨f, -, -, he⟩ | ⟨-, f, -, he⟩ | ⟨-, he⟩ <;>
    rw [he] <;> rfl

/-- Nothing is sent of the page for status 500: it is not opened, or what
    `sendfile` is given of it is empty.  `n` is `m_file_size` at the start, which
    is still there if the page is opened as descriptor 0. -/
def Mute (M : Machine σ) (os : Os σ) (n : ℤ) : Prop :=
  Opens M os.refuse.2 PAGE_500 → ∀ f, M.lookup os.disk (cStr PAGE_500) = some f →
    (0 ∈ os.used ∨ Opens M os PAGE_404 → f.content.take (toSizeT (toInt f.size)) = []) ∧
    (¬ (0 ∈ os.used ∨ Opens M os PAGE_404) → f.content.take (toSizeT n) = [])

/-- **Behind the head of status 404 nothing is sent exactly if `Mute`.** -/
theorem fileBytes_missing {ep : EndPoint} (hs : ep.resp.statusCode = NOT_FOUND) (os : Os σ) :
    let r := buildResponseHelper M ep os
    r.1.fileBytes r.2 = [] ↔ Mute M os ep.resp.fileSize := by
  simp only [buildResponseHelper_404 M hs]
  have hbehind := opens_behind (M := M) PAGE_404 ep.withStatus os PAGE_500
  have hdisk := (buildErrorHeader_data (M := M) PAGE_404 ep.withStatus os).1
  have hopened (h : Opens M os PAGE_404) := buildErrorHeader_opened h ep.withStatus
  have hnot (h : ¬ Opens M os PAGE_404) := buildErrorHeader_not_opened h ep.withStatus
  set r := buildErrorHeader M PAGE_404 ep.withStatus os
  -- descriptor 0 is in use behind the first page if it was before, or the page has it
  have hzero : 0 ∈ r.2.used ↔ 0 ∈ os.used ∨ Opens M os PAGE_404 := by
    by_cases h4 : Opens M os PAGE_404
    · obtain ⟨-, -, -, hz, -⟩ := hopened h4
      exact iff_of_true hz (.inr h4)
    · rw [hnot h4, Os.afterOpen_used]
      simp [h4]
  by_cases h5 : Opens M r.2 PAGE_500
  · obtain ⟨f, hl, hcontent, -, hsize⟩ := buildErrorHeader_opened h5 r.1
    rw [hdisk] at hl
    rw [fileBytes, hcontent, Option.getD_some, hsize, Mute, ← hbehind, ← hzero]
    by_cases hz : 0 ∈ r.2.used
    · rw [if_pos hz]
      simp [h5, hl, hz]
    · -- the first page has not been opened either
      have h4 : ¬ Opens M os PAGE_404 := fun h4 => hz (hzero.2 (.inr h4))
      rw [if_neg hz]
      have hstale : r.1.resp.fileSize = ep.resp.fileSize := by rw [hnot h4]; rfl
      simp [h5, hl, hz, hstale]
  · rw [buildErrorHeader_not_opened h5, fileBytes]
    refine iff_of_true ?_ fun h => absurd (hbehind.2 h) h5
    have hnone : (r.2.afterOpen PAGE_500 (-1) []).contentOf (r.1.withFd (-1)).resp.fd = none :=
      Os.contentOf_neg _
    rw [hnone]
    simp

/-- With the flag for programs the response body is sent, which is empty here. -/
theorem sendHttpResponse_bodyless {ep : EndPoint} (hc : ep.req.cgi = true)
    (hb : ep.resp.responseBody = []) (os : Os σ) {tx : SendSide} (htx : tx.plan = []) :
    (ep.sendHttpResponse os tx).2.wire = tx.wire ++ ep.headBytes := by
  obtain ⟨hw, -⟩ := sendAll_wire ep.headChunks tx
  rw [sendHttpResponse_eq, hc, hb]
  simp only [if_true]
  rw [sendBody_done (by simp), hw, htx, taken_nil, headChunks_flatten]

/-- The end point for which no file has been found at `path`. -/
def notFound (ep : EndPoint) (path : Bytes) : EndPoint :=
  { ep with req.path := path, resp.statusCode := NOT_FOUND }

theorem chosen_missing {ep : EndPoint} (hb : ep.resp.statusCode ≠ BAD_REQUEST)
    (hl : M.lookup os.disk (cStr (servedPath ep.req.path)) = none) :
    chosen M ep os = (ep.notFound (servedPath ep.req.path),
      os.note (.stat (cStr (servedPath ep.req.path)))) := by
  rw [chosen, locate_missing hb hl, notFound]

end EndPoint

section
variable {σ : Type} {M : Machine σ} {sock sock' : ℤ} {u u' : Unset} {w w' : World σ}

/-- A request that has been read with one of the two methods is not refused. -/
theorem read_status (hread : ((EndPoint.new sock u).recvHttpRequest w.rx).1.stop = false)
    (hm : ((EndPoint.new sock u).recvHttpRequest w.rx).1.req.method = GET ∨
      ((EndPoint.new sock u).recvHttpRequest w.rx).1.req.method = POST) :
    let ep := ((EndPoint.new sock u).recvHttpRequest w.rx).1
    ep.resp.statusCode ≠ BAD_REQUEST ∧ (ep.req.cgi = true ↔ ep.req.method = POST) ∧
      ep.resp.responseBody = [] ∧ ep.resp.fileSize = u.fileSize ∧ ep.resp.responseHeader = [] := by
  intro ep
  obtain ⟨-, line, he⟩ := recvHttpRequest_parsed hread
  have hep : ep = _ := he.trans (EndPoint.parsed_new sock u line)
  rw [hep]
  refine ⟨?_, EndPoint.requestOf_cgi line, rfl, rfl, rfl⟩
  rw [he, EndPoint.parsed_new] at hm
  show EndPoint.codeOf line ≠ BAD_REQUEST
  rw [EndPoint.codeOf, if_pos hm]
  decide

/-- The bytes that are sent when the response body is sent, and is empty. -/
theorem sent_bodyless {ep : EndPoint} {os : Os σ} (hfull : w.tx.plan = [])
    (hread : ((EndPoint.new sock u).recvHttpRequest w.rx).1.stop = false)
    (hc : EndPoint.chosen M ((EndPoint.new sock u).recvHttpRequest w.rx).1 w.os = (ep, os))
    (hcgi : ep.req.cgi = true) (hbody : ep.resp.responseBody = []) :
    sent M sock u w = (EndPoint.buildResponseHelper M ep os).1.headBytes := by
  have hreq := (EndPoint.buildResponseHelper_frame (M := M) ep os).1
  have hbody' := (EndPoint.buildResponseHelper_inert (M := M) ep os).2
  rw [sent, handlerRequest_of_read M hread, EndPoint.buildHttpResponse_eq, hc]
  simp only
  rw [EndPoint.sendHttpResponse_bodyless (by rw [hreq, hcgi]) (by rw [hbody', hbody]) _ hfull,
    List.drop_left]

/-- **A GET and a POST for a path that does not exist get the same bytes exactly
    if nothing is sent of the page for status 500.** -/
theorem missing_same_iff (hos : w'.os = w.os) (hfull : w.tx.plan = []) (hfull' : w'.tx.plan = [])
    (hread : ((EndPoint.new sock u).recvHttpRequest w.rx).1.stop = false)
    (hread' : ((EndPoint.new sock' u').recvHttpRequest w'.rx).1.stop = false)
    (hget : ((EndPoint.new sock u).recvHttpRequest w.rx).1.req.method = GET)
    (hpost : ((EndPoint.new sock' u').recvHttpRequest w'.rx).1.req.method = POST)
    (hpath : ((EndPoint.new sock' u').recvHttpRequest w'.rx).1.req.path =
      ((EndPoint.new sock u).recvHttpRequest w.rx).1.req.path)
    (hmissing : M.lookup w.os.disk (cStr (EndPoint.servedPath
      ((EndPoint.new sock u).recvHttpRequest w.rx).1.req.path)) = none) :
    sent M sock' u' w' = sent M sock u w ↔ EndPoint.Mute M w.os u.fileSize := by
  obtain ⟨hb, hcgi, -, hsize, hhead⟩ := read_status hread (.inl hget)
  obtain ⟨hb', hcgi', hbody', -, hhead'⟩ := read_status hread' (.inr hpost)
  obtain ⟨-, -, -, body, hsent, hfile⟩ := sent_of_read (M := M) hread hfull
  simp only [requested] at hsent hfile
  set ep := ((EndPoint.new sock u).recvHttpRequest w.rx).1
  set ep' := ((EndPoint.new sock' u').recvHttpRequest w'.rx).1
  have hc := EndPoint.chosen_missing hb hmissing
  have hc' := @EndPoint.chosen_missing _ M w'.os _ hb' (by rw [hos, hpath]; exact hmissing)
  set path := EndPoint.servedPath ep.req.path with hserved
  rw [hos, hpath, ← hserved] at hc'
  set os := w.os.note (.stat (cStr path))
  rw [hc] at hsent hfile
  -- both send the same head, and the GET the page behind it
  have hsame := @EndPoint.SameHead.missing _ M (ep.notFound path)
    (ep'.notFound path) rfl rfl (hhead'.trans hhead.symm) os
  have hnotCgi : ep.req.cgi = false := by
    have hgp : GET ≠ POST := by decide
    rw [← Bool.not_eq_true, hcgi, hget]
    exact hgp
  have hpage : body = (EndPoint.buildResponseHelper M (ep.notFound path) os).1.fileBytes
      (EndPoint.buildResponseHelper M (ep.notFound path) os).2 :=
    hfile (by rw [(EndPoint.buildResponseHelper_frame _ _).1]; exact hnotCgi)
  have hsent' := @sent_bodyless _ M sock' u' w' (ep'.notFound path) os hfull' hread'
    (by rw [hos]; exact hc') (hcgi'.2 hpost) hbody'
  rw [hsent, hsent', hsame.headBytes_eq, List.self_eq_append_right, hpage, ← hsize]
  exact EndPoint.fileBytes_missing rfl os

end

/-- A site with the page for status 404 alone. -/
def pageless : Machine ℕ where
  lookup _ p := if p = PAGE_404 then some (textFile (str "none")) else none
  program _ _ := none

theorem visit_os (request request' : Bytes) : (visit request).os = (visit request').os := rfl

theorem missing_same_iff_pageless :
    sent pageless 4 ⟨false, 0, 0⟩ (visit (str "POST /x HTTP/1.1\r\n\r\n")) =
      sent pageless 4 ⟨false, 0, 0⟩ (visit (str "GET /x HTTP/1.1\r\n\r\n")) := by
  refine (missing_same_iff (visit_os _ _) rfl rfl (by decide +kernel) (by decide +kernel)
    (by decide +kernel) (by decide +kernel) (by decide +kernel) (by decide +kernel)).2 ?_
  rintro ⟨-, f, hf, -⟩
  have hne : cStr PAGE_500 ≠ PAGE_404 := by decide +kernel
  have hnone (disk : ℕ) : pageless.lookup disk (cStr PAGE_500) = none := by
    simp [pageless, hne]
  exact absurd ((hnone _).symm.trans hf) (by simp)

/-- The GET is sent the page for status 500, and the POST its head alone. -/
theorem missing_differ :
    sent site 4 ⟨false, 0, 0⟩ (visit (str "GET /x HTTP/1.1\r\n\r\n")) =
      sent site 4 ⟨false, 0, 0⟩ (visit (str "POST /x HTTP/1.1\r\n\r\n")) ++ str "error" ∧
    sent site 4 ⟨false, 0, 0⟩ (visit (str "GET /x HTTP/1.1\r\n\r\n")) ≠
      sent site 4 ⟨false, 0, 0⟩ (visit (str "POST /x HTTP/1.1\r\n\r\n")) := by
  constructor <;> decide +kernel

end MyHttpServer
