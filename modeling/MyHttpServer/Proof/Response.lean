/-
  The bytes of a response.

  On a socket that accepts everything they are the status line, the lines of
  the header, an empty line and a body (`sent_of_read`), and their lines can be
  told from them (`Lines.Head.unique`).

  * `sent_of_read`: the bytes of a response, with the end point they come from;
  * `ok_lengthless`: a response with status 200 has no header line at all.
-/
import MyHttpServer.Proof.Build
import MyHttpServer.Proof.Send
import MyHttpServer.Proof.Whole

namespace MyHttpServer

/-! ## Digits -/

theorem decimal_notMem (n : ℕ) : CR ∉ decimal n ∧ LF ∉ decimal n := by
  constructor
  · intro hm
    exact absurd (mem_decimal hm).1 (by decide)
  · intro hm
    exact absurd (mem_decimal hm).1 (by decide)

theorem stdToString_notMem (n : ℤ) : CR ∉ stdToString n ∧ LF ∉ stdToString n := by
  cases n with
  | ofNat n => exact decimal_notMem n
  | negSucc n =>
    have h : CR ∉ str "-" ∧ LF ∉ str "-" := by decide +kernel
    have hd := decimal_notMem (n + 1)
    simp [stdToString, h, hd]

/-! ## The lines of a response -/

def isContentType (l : Bytes) : Bool := (str "Content-Type: ").isPrefixOf l

def isContentLength (l : Bytes) : Bool := (str "Content-Length: ").isPrefixOf l

/-- `bs` is a response of the head lines `ls` and of `body`, with one
    `Content-Type` and one `Content-Length`, which is that of the body. -/
structure Announces (ls : List Bytes) (body bs : Bytes) : Prop where
  head : Lines.Head CR LF ls body bs
  contentType : ls.countP isContentType = 1
  contentLength : ls.filter isContentLength = [EndPoint.contentLengthLine body.length]

/-- The status line without its end. -/
def statusText (code : ℤ) : Bytes :=
  HTTP_VERSION ++ str " " ++ stdToString code ++ str " " ++ codeAnaly code

namespace EndPoint
variable {σ : Type} {M : Machine σ}

theorem statusLineOf_eq (code : ℤ) : statusLineOf code = statusText code ++ LINE_END := by
  simp [statusLineOf, statusText]

theorem headLine_status {code : ℤ} (h : code ∈ [OK, BAD_REQUEST, NOT_FOUND, SERVER_ERROR]) :
    Lines.HeadLine CR LF (statusText code) := by
  simp only [List.mem_cons, List.not_mem_nil, or_false] at h
  rcases h with rfl | rfl | rfl | rfl <;> constructor <;> decide +kernel

theorem headLine_contentType : Lines.HeadLine CR LF contentTypeLine := by
  constructor <;> decide +kernel

theorem headLine_contentLength (n : ℤ) : Lines.HeadLine CR LF (contentLengthLine n) := by
  have h : str "Content-Length: " ≠ [] ∧ CR ∉ str "Content-Length: " ∧
    LF ∉ str "Content-Length: " := by decide +kernel
  have hd := stdToString_notMem n
  exact ⟨by simp [contentLengthLine, h.1], by simp [contentLengthLine, h.2.1, hd.1],
    by simp [contentLengthLine, h.2.2, hd.2]⟩

/-- The kinds of the three lines there are. -/
theorem kinds (code n : ℤ) :
    isContentType (statusText code) = false ∧ isContentLength (statusText code) = false ∧
    isContentType contentTypeLine = true ∧ isContentLength contentTypeLine = false ∧
    isContentType (contentLengthLine n) = false ∧ isContentLength (contentLengthLine n) = true := by
  refine ⟨rfl, rfl, rfl, rfl, rfl, ?_⟩
  exact List.isPrefixOf_iff_prefix.2 (List.prefix_append _ _)

/-- An end point whose head consists of the status line and the lines `hs`. -/
structure HasHead (ep : EndPoint) (code : ℤ) (hs : List Bytes) : Prop where
  statusLine : ep.resp.statusLine = statusLineOf code
  responseHeader : ep.resp.responseHeader = hs.map (· ++ LINE_END)
  blank : ep.resp.blank = LINE_END

theorem HasHead.head {ep : EndPoint} {code : ℤ} {hs : List Bytes} (h : ep.HasHead code hs)
    (hc : code ∈ [OK, BAD_REQUEST, NOT_FOUND, SERVER_ERROR])
    (hl : ∀ l ∈ hs, Lines.HeadLine CR LF l) (body : Bytes) :
    Lines.Head CR LF (statusText code :: hs) body (ep.headBytes ++ body) := by
  refine ⟨?_, ?_⟩
  · rintro l (_ | ⟨_, hm⟩)
    · exact headLine_status hc
    · exact hl l hm
  · rw [headBytes, h.statusLine, h.responseHeader, h.blank, statusLineOf_eq, Lines.headText_cons,
      Lines.headText, List.flatMap_def]
    simp [LINE_END]

theorem HasHead.withPage {ep : EndPoint} {code : ℤ} {hs : List Bytes} (h : ep.HasHead code hs)
    (fd : ℕ) (f : Inode) :
    (ep.withPage fd f).HasHead code (hs ++ [contentTypeLine, contentLengthLine (toInt f.size)]) :=
  ⟨h.statusLine, by simp [EndPoint.withPage, h.responseHeader], h.blank⟩

theorem HasHead.withFd {ep : EndPoint} {code : ℤ} {hs : List Bytes} (h : ep.HasHead code hs)
    (fd : ℤ) : (ep.withFd fd).HasHead code hs := ⟨h.statusLine, h.responseHeader, h.blank⟩

theorem hasHead_withStatus {ep : EndPoint} (h : ep.resp.responseHeader = []) :
    ep.withStatus.HasHead ep.resp.statusCode [] := ⟨rfl, h, rfl⟩

/-- A response without header lines announces nothing. -/
theorem not_announces {bs body : Bytes} {code : ℤ}
    (h : Lines.Head CR LF [statusText code] body bs) (ls : List Bytes) (body' : Bytes) :
    ¬ Announces ls body' bs := by
  intro ha
  obtain ⟨rfl, -⟩ := Lines.Head.unique CR_ne_LF ha.head h
  have := ha.contentType
  simp [(kinds code 0).1] at this

/-! ## What is built -/

theorem buildErrorHeader_frame (path : Bytes) (ep : EndPoint) (os : Os σ) :
    (buildErrorHeader M path ep os).1.req = ep.req ∧
      (buildErrorHeader M path ep os).1.resp.statusCode = ep.resp.statusCode ∧
      (buildErrorHeader M path ep os).1.resp.statusLine = ep.resp.statusLine := by
  rcases buildErrorHeader_cases M path os with ⟨f, -, -, h⟩ | ⟨-, f, -, h⟩ | ⟨-, h⟩ <;>
    simp only [h] <;> exact ⟨rfl, rfl, rfl⟩

/-- Building the response changes neither the request nor the status, and makes
    its status line. -/
theorem buildResponseHelper_frame (ep : EndPoint) (os : Os σ) :
    (buildResponseHelper M ep os).1.req = ep.req ∧
      (buildResponseHelper M ep os).1.resp.statusCode = ep.resp.statusCode ∧
      (buildResponseHelper M ep os).1.resp.statusLine = statusLineOf ep.resp.statusCode := by
  refine buildResponseHelper_induct M (P := fun e _ => e.req = ep.req ∧
    e.resp.statusCode = ep.resp.statusCode ∧
    e.resp.statusLine = statusLineOf ep.resp.statusCode) ⟨rfl, rfl, rfl⟩ ?_
  rintro path - e os' ⟨h1, h2, h3⟩
  obtain ⟨g1, g2, g3⟩ := buildErrorHeader_frame (M := M) path e os'
  exact ⟨g1.trans h1, g2.trans h2, g3.trans h3⟩

end EndPoint

/-! ## Responses with status 200 -/

section
variable {σ : Type} {M : Machine σ} {sock : ℤ} {u : Unset} {w : World σ}

/-- The bytes that `HandlerRequest` puts on the wire. -/
def sent (M : Machine σ) (sock : ℤ) (u : Unset) (w : World σ) : Bytes :=
  (handlerRequest M sock u w).2.tx.wire.drop w.tx.wire.length

/-- `BuildHttpResponse` up to `END`, for the request that is read. -/
def requested (M : Machine σ) (sock : ℤ) (u : Unset) (w : World σ) : EndPoint × Os σ :=
  EndPoint.chosen M ((EndPoint.new sock u).recvHttpRequest w.rx).1 w.os

/-- **The bytes of a response**, with the end point they are made from. -/
theorem sent_of_read (hread : ((EndPoint.new sock u).recvHttpRequest w.rx).1.stop = false)
    (hfull : w.tx.plan = []) :
    let c := requested M sock u w
    let r := EndPoint.buildResponseHelper M c.1 c.2
    (handlerRequest M sock u w).1 = r.1 ∧ c.1.resp.responseHeader = [] ∧
    (c.1.req.cgi = false → c.2.disk = w.os.disk) ∧
    ∃ body, sent M sock u w = r.1.headBytes ++ body ∧
      (r.1.req.cgi = false → body = r.1.fileBytes r.2) := by
  intro c r
  obtain ⟨-, line, he⟩ := recvHttpRequest_parsed hread
  have hr : r = EndPoint.buildHttpResponse M ((EndPoint.new sock u).recvHttpRequest w.rx).1 w.os :=
    (EndPoint.buildHttpResponse_eq M _ _).symm
  have hh := handlerRequest_of_read M hread
  rw [← hr] at hh
  obtain ⟨hhead, hdisk⟩ :=
    EndPoint.chosen_frame M ((EndPoint.new sock u).recvHttpRequest w.rx).1 w.os
  obtain ⟨body, hw, hb⟩ := EndPoint.sendHttpResponse_full r.1 r.2 hfull
  refine ⟨by rw [hh], ?_, hdisk, body, ?_, hb⟩
  · refine hhead.trans ?_
    rw [he, EndPoint.parsed_new]
  · rw [sent, hh]
    simp only [hw, List.append_assoc, List.drop_left]

/-- **No response with status 200 says what it carries.** -/
theorem ok_lengthless (hread : ((EndPoint.new sock u).recvHttpRequest w.rx).1.stop = false)
    (hok : (handlerRequest M sock u w).1.resp.statusCode = OK) (hfull : w.tx.plan = []) :
    ¬ ∃ ls body, ls.length = 3 ∧ ls.head? = some (statusText OK) ∧
      Announces ls body (sent M sock u w) := by
  obtain ⟨hep, hnil, -, body, hsent, -⟩ := sent_of_read (M := M) hread hfull
  set c := requested M sock u w
  have hc : c.1.resp.statusCode = OK := by
    rw [← (EndPoint.buildResponseHelper_frame c.1 c.2).2.1, ← hep]
    exact hok
  rw [EndPoint.buildResponseHelper_ok M hc] at hsent
  have hh := EndPoint.hasHead_withStatus hnil
  rw [hc] at hh
  rintro ⟨ls, body', -, -, ha⟩
  rw [hsent] at ha
  exact EndPoint.not_announces (hh.head (by simp) (by simp) body) ls body' ha

end

/-- A text file that can be read. -/
def textFile (content : Bytes) : Inode :=
  { mode := 0o100644, size := content.length, content, readable := true, size_eq := fun _ => rfl }

/-- A home page and three error pages. -/
def site : Machine ℕ where
  lookup _ p :=
    if p = str "wwwroot/index.html" then some (textFile (str "home"))
    else if p = PAGE_400 then some (textFile (str "bad"))
    else if p = PAGE_404 then some (textFile (str "none"))
    else if p = PAGE_500 then some (textFile (str "error"))
    else none
  program _ _ := none

/-- A request to a process with the three standard descriptors. -/
def visit (request : Bytes) : World ℕ :=
  { bare request with os.fds := [(0, []), (1, []), (2, [])] }

theorem ok_lengthless_home :
    ¬ ∃ ls body, ls.length = 3 ∧ ls.head? = some (statusText OK) ∧
      Announces ls body (sent site 4 ⟨false, 0, 0⟩ (visit (str "GET / HTTP/1.1\r\n\r\n"))) :=
  ok_lengthless (by decide +kernel) (by decide +kernel) rfl

/-- The response that carries the home page. -/
theorem home_response :
    sent site 4 ⟨false, 0, 0⟩ (visit (str "GET / HTTP/1.1\r\n\r\n")) =
      str "HTTP/1.1 200 OK\r\n\r\nhome" ∧
    ¬ ∃ ls body, Announces ls body
      (sent site 4 ⟨false, 0, 0⟩ (visit (str "GET / HTTP/1.1\r\n\r\n"))) := by
  have hs : sent site 4 ⟨false, 0, 0⟩ (visit (str "GET / HTTP/1.1\r\n\r\n")) =
      str "HTTP/1.1 200 OK\r\n\r\nhome" := by decide +kernel
  refine ⟨hs, ?_⟩
  rintro ⟨ls, body, ha⟩
  rw [hs] at ha
  have hhead : Lines.Head CR LF [statusText OK] (str "home")
      (str "HTTP/1.1 200 OK\r\n\r\nhome") :=
    ⟨by simpa using EndPoint.headLine_status (by simp), by decide +kernel⟩
  exact EndPoint.not_announces hhead ls body ha

end MyHttpServer
