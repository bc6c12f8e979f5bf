/-
  What a client is sent, as a function of the first line of its request and of
  the files.

  `reply` says it without descriptors, calls and threads: the target is a page,
  a program or nothing, and the answer is that page, what two runs of the program
  write, or the page for an error.  In the server, what its two children are left
  with is a part of the disk (`Machine.leaving`).

  * `sent_reply`: `HandlerRequest` sends this reply, if the kernel grants its
    calls and the connection takes all that is sent;
  * `answered_reply`: so does the server, in any run.
-/
import MyHttpServer.Proof.Crash
import MyHttpServer.Proof.Short
import MyHttpServer.Proof.Server

namespace MyHttpServer

/-! ## The reply -/

/-- What a client is sent. -/
structure Reply where
  status : ℤ
  header : List Bytes
  body : Bytes

def Reply.bytes (r : Reply) : Bytes :=
  Lines.headText CR LF (statusText r.status :: r.header) ++ r.body

section
variable {σ : Type} (M : Machine σ) (disk : σ)

/-- The file that can be opened at a path. -/
def Machine.page (path : Bytes) : Option Inode := (M.lookup disk (cStr path)).filter (·.readable)

/-- What the pages that can be opened add to the header. -/
def pageLines : Option Inode → List Bytes
  | some f => [EndPoint.contentTypeLine, EndPoint.contentLengthLine f.size]
  | none => []

/-- The reply with an error page.  Its body is missing if the page cannot be
    opened, and if the request is marked as one for a program. -/
def errorReply (status : ℤ) (before : List Bytes) (page : Option Inode) (cgi : Bool) : Reply where
  status := status
  header := before ++ pageLines page
  body := if cgi then [] else (page.map Inode.content).getD []

/-- What is meant for a program of a GET or a POST.  A body is not read. -/
def inputOf (req : HttpRequest) : CgiInput where
  env := [cStr (str "METHOD=" ++ req.method),
    if req.method = GET then cStr (str "PARAMETER=" ++ req.parameter) else str "Content-Length=0"]
  stdin := []

/-- The reply for a file or a program: all that two runs write, or the page. -/
def fileReply (path : Bytes) (cgi : Bool) (inp : CgiInput) : Reply :=
  if cgi then
    let first := EndPoint.childRun M path inp disk
    ⟨OK, [], first.output ++ (EndPoint.childRun M path inp first.disk).output⟩
  else
    match M.page disk path with
    | some f => ⟨OK, [], f.content⟩
    | none => errorReply SERVER_ERROR [] (M.page disk PAGE_500) false

/-- The reply to a request with the first line `line`. -/
def reply (line : Bytes) : Reply :=
  let req := EndPoint.requestOf line
  if EndPoint.codeOf line = BAD_REQUEST then
    errorReply BAD_REQUEST [] (M.page disk PAGE_400) false
  else
    let path := EndPoint.servedPath req.path
    match M.lookup disk (cStr path) with
    | none =>
      errorReply NOT_FOUND (pageLines (M.page disk PAGE_404)) (M.page disk PAGE_500) req.cgi
    | some st =>
      if isDir st.mode then fileReply M disk (EndPoint.homePath path) req.cgi (inputOf req)
      else fileReply M disk path (req.cgi || EndPoint.executable st.mode) (inputOf req)

/-- No file says that it is smaller than it is, or is as large as an `int` can
    not tell. -/
def Machine.Fits : Prop :=
  ∀ path f, M.lookup disk path = some f → f.content.length ≤ f.size ∧ f.size < 2 ^ 31

end

/-- Nothing is refused, and standard input is open. -/
structure Os.Granted {σ : Type} (os : Os σ) : Prop where
  refusals : true ∉ os.refusals
  sigchld : os.sigchld = .ignore
  stdin : 0 ∈ os.used

/-! ## One call -/

section
variable {σ : Type} {M : Machine σ} {os os' : Os σ} {path : Bytes}

theorem headD_of_notMem {rs : List Bool} (h : true ∉ rs) : rs.headD false = false := by
  cases rs with
  | nil => rfl
  | cons r rs =>
    rw [List.mem_cons, not_or] at h
    simpa using h.1

theorem notMem_tail {rs : List Bool} (h : true ∉ rs) : true ∉ rs.tail :=
  fun hm => h (List.mem_of_mem_tail hm)

theorem Os.Granted.head (h : os.Granted) : os.refusals.headD false = false :=
  headD_of_notMem h.refusals

theorem Os.Granted.afterOpen (h : os.Granted) (path : Bytes) (fd : ℤ) (new : List (ℕ × Bytes)) :
    (os.afterOpen path fd new).Granted where
  refusals := notMem_tail h.refusals
  sigchld := h.sigchld
  stdin := by simp [h.stdin]

theorem Os.Granted.note (h : os.Granted) (c : SysCall) : (os.note c).Granted :=
  ⟨h.refusals, h.sigchld, h.stdin⟩

theorem Os.Granted.lowestFree (h : os.Granted) : (os.lowestFree : ℤ) > 0 := by
  have := os.lowestFree_eq_zero.not.2 (not_not.2 h.stdin)
  omega

theorem page_eq_some {disk : σ} {f : Inode} :
    M.page disk path = some f ↔ M.lookup disk (cStr path) = some f ∧ f.readable = true :=
  Option.filter_eq_some_iff

theorem page_eq_none {disk : σ} :
    M.page disk path = none ↔ ∀ f, M.lookup disk (cStr path) = some f → f.readable = false := by
  rw [Machine.page, Option.filter_eq_none_iff]
  simp

/-- What can be read through a descriptor that has just been given out for a page
    of the size `size`. -/
theorem contentOf_page {f : Inode} (hfit : f.content.length ≤ f.size ∧ f.size < 2 ^ 31)
    (hfds : os'.fds = os.fds ++ [(os.lowestFree, f.content)]) :
    ((os'.contentOf os.lowestFree).getD []).take (toSizeT (toInt f.size)) = f.content := by
  rw [os.contentOf_alloc os' hfds, Option.getD_some, toInt_of_lt hfit.2,
    toSizeT_of_lt (by omega), List.take_of_length_le hfit.1]

end

namespace EndPoint
variable {σ : Type} {M : Machine σ} {os : Os σ} {path : Bytes} {ep : EndPoint} {code : ℤ}
  {hs : List Bytes}

/-- The end point and the process behind a call of `BuildErrorHeader`. -/
structure PageBuilt (M : Machine σ) (os : Os σ) (ep : EndPoint) (code : ℤ) (hs : List Bytes)
    (page : Option Inode) (r : EndPoint × Os σ) : Prop where
  head : r.1.HasHead code (hs ++ pageLines page)
  body : r.1.fileBytes r.2 = (page.map Inode.content).getD []
  req : r.1.req = ep.req
  granted : r.2.Granted
  disk : r.2.disk = os.disk

theorem buildErrorHeader_built (path : Bytes) (h : os.Granted) (hfit : M.Fits os.disk)
    (hh : ep.HasHead code hs) :
    PageBuilt M os ep code hs (M.page os.disk path) (buildErrorHeader M path ep os) := by
  cases hp : M.page os.disk path with
  | some f =>
    obtain ⟨hl, hf⟩ := page_eq_some.1 hp
    have hb : buildErrorHeader M path ep os = (ep.withPage os.lowestFree f,
        (os.afterOpen path os.lowestFree [(os.lowestFree, f.content)]).note
          (.stat (cStr path))) := by
      simp only [buildErrorHeader, Os.openFile_granted h.head hl hf, if_pos h.lowestFree, Os.stat,
        Os.afterOpen_disk, hl]
      simp [withPage, HttpResponse.addToResponseHeader, contentTypeLine, contentLengthLine]
    rw [hb]
    have hsize := toInt_of_lt (hfit _ f hl).2
    refine ⟨?_, contentOf_page (hfit _ f hl) rfl, rfl, (h.afterOpen _ _ _).note _, rfl⟩
    have := hh.withPage os.lowestFree f
    rwa [hsize] at this
  | none =>
    have hb : buildErrorHeader M path ep os = (ep.withFd (-1), os.afterOpen path (-1) []) := by
      simp only [buildErrorHeader, Os.openFile_denied fun _ => page_eq_none.1 hp]
      rfl
    rw [hb]
    refine ⟨?_, ?_, rfl, h.afterOpen _ _ _, rfl⟩
    · rw [pageLines, List.append_nil]
      exact hh.withFd (-1)
    · show (((os.afterOpen path (-1) []).contentOf (-1)).getD []).take _ = []
      rw [Os.contentOf_neg]
      simp

/-! ## From `END` on -/

/-- What is sent for what has been chosen. -/
def response (M : Machine σ) (c : EndPoint × Os σ) : Bytes :=
  let r := buildResponseHelper M c.1 c.2
  r.1.headBytes ++ if r.1.req.cgi then r.1.resp.responseBody else r.1.fileBytes r.2

/-- What has been chosen is sent as the reply `r`. -/
structure Answers (M : Machine σ) (c : EndPoint × Os σ) (r : Reply) : Prop where
  bytes : response M c = r.bytes
  body : c.1.req.cgi = true → c.1.resp.responseBody = r.body

theorem HasHead.bytes (hh : ep.HasHead code hs)
    (hc : code ∈ [OK, BAD_REQUEST, NOT_FOUND, SERVER_ERROR]) (hl : ∀ l ∈ hs, Lines.HeadLine CR LF l)
    (body : Bytes) : ep.headBytes ++ body = (⟨code, hs, body⟩ : Reply).bytes :=
  (hh.head hc hl body).text

theorem headLine_pageLines {page : Option Inode} :
    ∀ l ∈ pageLines page, Lines.HeadLine CR LF l := by
  cases page with
  | none => simp [pageLines]
  | some f =>
    intro l hl
    simp only [pageLines, List.mem_cons, List.not_mem_nil, or_false] at hl
    rcases hl with rfl | rfl
    · exact headLine_contentType
    · exact headLine_contentLength _

theorem PageBuilt.bytes {page : Option Inode} {r : EndPoint × Os σ} {cgi : Bool}
    (h : PageBuilt M os ep code hs page r)
    (hc : code ∈ [OK, BAD_REQUEST, NOT_FOUND, SERVER_ERROR]) (hl : ∀ l ∈ hs, Lines.HeadLine CR LF l)
    (hcgi : ep.req.cgi = cgi) (hbody : r.1.resp.responseBody = []) :
    (r.1.headBytes ++ if r.1.req.cgi then r.1.resp.responseBody else r.1.fileBytes r.2) =
      (errorReply code hs page cgi).bytes := by
  rw [h.req, hcgi, hbody, h.body]
  refine h.head.bytes hc (fun l hm => ?_) _
  rcases List.mem_append.1 hm with hm | hm
  · exact hl l hm
  · exact headLine_pageLines l hm

variable {c : EndPoint × Os σ}

theorem answers_ok (hcode : c.1.resp.statusCode = OK) (hnil : c.1.resp.responseHeader = []) :
    Answers M c
      ⟨OK, [], if c.1.req.cgi then c.1.resp.responseBody else c.1.fileBytes c.2⟩ where
  bytes := by
    rw [response, buildResponseHelper_ok M hcode]
    have hh := hasHead_withStatus hnil
    rw [hcode] at hh
    exact hh.bytes (by simp) (by simp) _
  body h := (if_pos h).symm

/-- A status with one page. -/
theorem answers_page {path : Bytes}
    (hone : buildResponseHelper M c.1 c.2 = buildErrorHeader M path c.1.withStatus c.2)
    (hcode : c.1.resp.statusCode ∈ [OK, BAD_REQUEST, NOT_FOUND, SERVER_ERROR])
    (h : c.2.Granted) (hfit : M.Fits c.2.disk) (hnil : c.1.resp.responseHeader = [])
    (hbody : c.1.resp.responseBody = []) :
    Answers M c
      (errorReply c.1.resp.statusCode [] (M.page c.2.disk path) c.1.req.cgi) where
  bytes := by
    have hb := (buildResponseHelper_inert (M := M) c.1 c.2).2
    rw [hone] at hb
    rw [response, hone]
    exact (buildErrorHeader_built _ h hfit (hasHead_withStatus hnil)).bytes hcode (by simp) rfl
      (hb.trans hbody)
  body hcgi := hbody.trans (if_pos hcgi).symm

/-- The status with two pages, the second of which is sent. -/
theorem answers_404 (hcode : c.1.resp.statusCode = NOT_FOUND) (h : c.2.Granted)
    (hfit : M.Fits c.2.disk) (hnil : c.1.resp.responseHeader = [])
    (hbody : c.1.resp.responseBody = []) :
    Answers M c (errorReply NOT_FOUND (pageLines (M.page c.2.disk PAGE_404))
      (M.page c.2.disk PAGE_500) c.1.req.cgi) where
  bytes := by
    have hh := hasHead_withStatus hnil
    rw [hcode] at hh
    have h₁ := buildErrorHeader_built PAGE_404 h hfit hh
    have hfit₁ : M.Fits (buildErrorHeader M PAGE_404 c.1.withStatus c.2).2.disk := by
      rwa [h₁.disk]
    have h₂ := buildErrorHeader_built PAGE_500 h₁.granted hfit₁ h₁.head
    have hb := (buildResponseHelper_inert (M := M) c.1 c.2).2
    rw [buildResponseHelper_404 M hcode] at hb
    rw [response, buildResponseHelper_404 M hcode]
    rw [h₁.disk] at h₂
    exact h₂.bytes (by simp) headLine_pageLines (congrArg HttpRequest.cgi h₁.req)
      (hb.trans hbody)
  body hcgi := hbody.trans (if_pos hcgi).symm

/-! ## Files and programs -/

/-- A call of `CgiProcess` to which nothing is refused. -/
theorem cgiRun_granted (path : Bytes) (inp : CgiInput) (hr : true ∉ os.refusals)
    (hs : os.sigchld = .ignore) :
    let r := cgiRun M path inp os
    let run := childRun M path inp os.disk
    r.1 = OK ∧ r.2.1 = run.output ∧ r.2.2.disk = run.disk ∧ true ∉ r.2.2.refusals ∧
      r.2.2.sigchld = .ignore := by
  intro r run
  have hstarts : (childStarts os.refusals).1 = true :=
    (childStarts_eq _).2 ⟨headD_of_notMem hr, headD_of_notMem (notMem_tail hr),
      headD_of_notMem (notMem_tail (notMem_tail hr))⟩
  obtain ⟨hsig, -, hok⟩ := cgiRun_ignored (M := M) hs path inp
  obtain ⟨hrefusals, hdisk⟩ := cgiRun_after (M := M) path inp os
  rw [if_pos hstarts] at hdisk
  refine ⟨hok.2 hstarts, ?_, hdisk, ?_, hsig⟩
  · have hd := cgiRun_done (M := M) path inp os
    show (cgiRun M path inp os).2.1 = run.output
    generalize (cgiRun M path inp os).2 = c at hd
    cases hd with
    | refused hno => rw [hstarts] at hno; cases hno
    | ran => rfl
  · rw [hrefusals, childStarts]
    split_ifs
    · exact notMem_tail hr
    · exact notMem_tail (notMem_tail hr)
    · exact notMem_tail (notMem_tail (notMem_tail hr))

/-- Two runs of a program. -/
theorem dispatch_program (ep : EndPoint) (hcgi : ep.req.cgi = true) (h : os.Granted)
    (hnil : ep.resp.responseBody = []) :
    let r := dispatch M ep os
    r.1.resp.statusCode = OK ∧ r.1.req = ep.req ∧
      r.1.resp.responseHeader = ep.resp.responseHeader ∧
      r.1.resp.responseBody = (childRun M ep.req.path ep.cgiInput os.disk).output ++
        (childRun M ep.req.path ep.cgiInput
          (childRun M ep.req.path ep.cgiInput os.disk).disk).output := by
  obtain ⟨-, hout, hdisk, hrefusals, hsig⟩ :=
    cgiRun_granted (M := M) ep.req.path ep.cgiInput h.refusals h.sigchld
  obtain ⟨hcode, hout', -⟩ :=
    cgiRun_granted (M := M) ep.req.path ep.cgiInput hrefusals hsig
  rw [dispatch_cgi M hcgi]
  refine ⟨hcode, rfl, rfl, ?_⟩
  simp only [addBody, hnil, List.nil_append]
  rw [hout, hout', hdisk]

/-- A page, or none. -/
theorem dispatch_page (ep : EndPoint) (hcgi : ep.req.cgi = false) (h : os.Granted)
    (hfit : M.Fits os.disk)
    (hsize : ∀ f, M.page os.disk ep.req.path = some f → ep.resp.fileSize = toInt f.size) :
    let r := dispatch M ep os
    r.1.req = ep.req ∧ r.1.resp.responseHeader = ep.resp.responseHeader ∧
      r.1.resp.responseBody = ep.resp.responseBody ∧ r.2.Granted ∧ r.2.disk = os.disk ∧
      r.1.resp.statusCode = (if (M.page os.disk ep.req.path).isSome then OK else SERVER_ERROR) ∧
      ∀ f, M.page os.disk ep.req.path = some f → r.1.fileBytes r.2 = f.content := by
  intro r
  have hr : r = _ := dispatch_file M hcgi os
  cases hp : M.page os.disk ep.req.path with
  | some f =>
    obtain ⟨hl, hf⟩ := page_eq_some.1 hp
    have h' := h.afterOpen ep.req.path os.lowestFree [(os.lowestFree, f.content)]
    rw [Os.openFile_granted h.head hl hf] at hr
    simp only [Os.openFile_granted h'.head hl hf, if_pos h'.lowestFree] at hr
    rw [hr]
    refine ⟨rfl, rfl, rfl, h'.afterOpen _ _ _, rfl, rfl, ?_⟩
    rintro g hg
    cases hg
    show (Option.getD _ []).take (toSizeT ep.resp.fileSize) = f.content
    rw [hsize f hp]
    exact contentOf_page (hfit _ f hl) rfl
  | none =>
    have hno := page_eq_none.1 hp
    have h' : (os.afterOpen ep.req.path (-1) []).openFile M ep.req.path = _ :=
      Os.openFile_denied fun _ => hno
    rw [Os.openFile_denied fun _ => hno] at hr
    simp only [h'] at hr
    rw [hr]
    exact ⟨rfl, rfl, rfl, (h.afterOpen _ _ _).afterOpen _ _ _, rfl, rfl, by simp⟩

theorem cgiInput_found (hmethod : ep.req.method = GET ∨ ep.req.method = POST)
    (hlength : ep.req.contentLength = 0) (hbody : ep.req.requestBody = []) (p : Bytes) (cgi : Bool)
    (st : Inode) : (ep.found p cgi st).cgiInput = inputOf ep.req := by
  have hzero : cStr (str "Content-Length=" ++ decimal 0) = str "Content-Length=0" := by
    decide +kernel
  have hreq : (ep.found p cgi st).req = { ep.req with path := p, cgi := cgi } := rfl
  simp only [cgiInput, inputOf, hreq, hlength, hbody, hzero, ite_self]
  by_cases hg : ep.req.method = GET
  · simp only [if_pos hg]
  · rw [if_neg hg, if_pos (hmethod.resolve_left hg), if_neg hg]

/-- **What is sent for a file that has been found.** -/
theorem answers_found {p : Bytes} {cgi : Bool} {st : Inode} (h : os.Granted)
    (hfit : M.Fits os.disk) (hnil : ep.resp.responseHeader = []) (hbody : ep.resp.responseBody = [])
    (hinp : (ep.found p cgi st).cgiInput = inputOf ep.req)
    (hst : ∀ f, M.page os.disk p = some f → st = f) :
    Answers M (dispatch M (ep.found p cgi st) os)
      (fileReply M os.disk p cgi (inputOf ep.req)) := by
  cases cgi with
  | true =>
    obtain ⟨hcode, hreq, hhead, hout⟩ :=
      dispatch_program (M := M) (ep.found p true st) rfl h hbody
    have hans := answers_ok (M := M) hcode (hhead.trans hnil)
    rw [hreq, found_cgi, if_pos rfl, hout, found_path, hinp] at hans
    exact hans
  | false =>
    obtain ⟨hreq, hhead, hrb, hg, hdisk, hcode, hbytes⟩ :=
      dispatch_page (M := M) (ep.found p false st) rfl h hfit fun f hf => by
        rw [← hst f hf]; rfl
    rw [found_path] at hcode hbytes
    cases hp : M.page os.disk p with
    | some f =>
      rw [hp] at hcode
      have hans := answers_ok (M := M) hcode (hhead.trans hnil)
      rw [hreq, found_cgi, if_neg Bool.false_ne_true, hbytes f hp] at hans
      simpa only [fileReply, hp, Bool.false_eq_true, if_false] using hans
    | none =>
      rw [hp] at hcode
      have hcode : (dispatch M (ep.found p false st) os).1.resp.statusCode = SERVER_ERROR := hcode
      have hans := answers_page (buildResponseHelper_500 M hcode _) (by simp [hcode]) hg
        (by rwa [hdisk]) (hhead.trans hnil) (hrb.trans hbody)
      rw [hcode, hdisk, hreq, found_cgi] at hans
      simpa only [fileReply, hp, Bool.false_eq_true, if_false] using hans

/-- **What is sent for a request that has been read.** -/
theorem answers_chosen (sock : ℤ) (u : Unset) (line : Bytes) (h : os.Granted)
    (hfit : M.Fits os.disk) :
    Answers M (chosen M (parsed (.new sock u) line) os) (reply M os.disk line) := by
  have hep := parsed_new sock u line
  set ep := parsed (.new sock u) line
  have hreq : ep.req = requestOf line := by rw [hep]
  have hcode : ep.resp.statusCode = codeOf line := by rw [hep]
  have hnil : ep.resp.responseHeader = [] := by rw [hep]
  have hbody : ep.resp.responseBody = [] := by rw [hep]
  obtain ⟨-, hlength, hrb⟩ := requestOf_header line
  have hinp (hb : ep.resp.statusCode ≠ BAD_REQUEST) (p : Bytes) (cgi : Bool) (st : Inode) :
      (ep.found p cgi st).cgiInput = inputOf ep.req := by
    rw [hcode, codeOf] at hb
    refine cgiInput_found ?_ (by rw [hreq, hlength]) (by rw [hreq, hrb]) p cgi st
    rw [hreq]
    by_contra hno
    rw [if_neg hno] at hb
    exact hb rfl
  rw [reply, ← hreq, ← hcode, chosen]
  rcases locate_cases M ep os with ⟨hb, hl⟩ | ⟨hb, hf, hl⟩ | ⟨st, hb, hf, hd, hl⟩ |
    ⟨st, hb, hf, hd, hl⟩
  · have hcgi : ep.req.cgi = false := by
      rw [hcode] at hb
      rw [hreq, Bool.eq_false_iff, ne_eq, requestOf_cgi]
      intro hp
      rw [codeOf, if_pos (.inr hp)] at hb
      cases hb
    rw [hl, if_pos hb]
    have hans := answers_page (M := M) (c := (ep, os)) (buildResponseHelper_400 M hb _)
      (by simp [hb]) h hfit hnil hbody
    simpa only [hb, hcgi] using hans
  · rw [hl, if_neg hb]
    simp only [hf]
    exact answers_404 (M := M) rfl (h.note _) hfit hnil hbody
  · rw [hl, if_neg hb]
    simp only [hf, if_pos hd]
    refine answers_found (M := M) ((h.note _).note _) hfit hnil hbody (hinp hb _ _ _) ?_
    intro f hp
    rw [show M.lookup os.disk _ = _ from (page_eq_some.1 hp).1]
    rfl
  · rw [hl, if_neg hb]
    simp only [hf, hd, Bool.false_eq_true, if_false]
    refine answers_found (M := M) (h.note _) hfit hnil hbody (hinp hb _ _ _) ?_
    intro f hp
    exact Option.some.inj (hf.symm.trans (page_eq_some.1 hp).1)

end EndPoint

/-! ## A request -/

section
variable {σ : Type} {M : Machine σ} {sock : ℤ} {u : Unset} {w : World σ} {l : Bytes}

/-- The bytes of a response to a request that has been read. -/
theorem sent_response (hread : ((EndPoint.new sock u).recvHttpRequest w.rx).1.stop = false)
    (hfull : w.tx.plan = [])
    (hlen : let c := requested M sock u w
      c.1.req.cgi = true → c.1.resp.responseBody.length < 2 ^ 32) :
    sent M sock u w = EndPoint.response M (requested M sock u w) := by
  set c := requested M sock u w with hc
  have hh := handlerRequest_of_read M hread
  rw [EndPoint.buildHttpResponse_eq] at hh
  obtain ⟨-, hbody⟩ := EndPoint.buildResponseHelper_inert (M := M) c.1 c.2
  obtain ⟨hreq, -⟩ := EndPoint.buildResponseHelper_frame (M := M) c.1 c.2
  rw [sent, hh, EndPoint.response]
  show (EndPoint.sendHttpResponse _ _ w.tx).2.wire.drop _ = _
  change (EndPoint.sendHttpResponse (EndPoint.buildResponseHelper M c.1 c.2).1
    (EndPoint.buildResponseHelper M c.1 c.2).2 w.tx).2.wire.drop _ = _
  set r := EndPoint.buildResponseHelper M c.1 c.2
  cases hcgi : r.1.req.cgi with
  | false =>
    obtain ⟨body, hw, hb⟩ := EndPoint.sendHttpResponse_full r.1 r.2 hfull
    rw [hw, hb hcgi, List.append_assoc, List.drop_left]
    simp
  | true =>
    obtain ⟨hw, hp⟩ := sendAll_wire r.1.headChunks w.tx
    rw [hfull, taken_nil, EndPoint.headChunks_flatten] at hw
    rw [hfull, List.drop_nil] at hp
    rw [EndPoint.sendHttpResponse_eq, hcgi, if_pos rfl]
    rw [EndPoint.sendBody_whole, hw, List.append_assoc, List.drop_left, List.drop_zero, if_pos rfl]
    rw [hp, hbody]
    exact last_of_lt (Nat.lt_of_le_of_lt (Nat.sub_le ..) (hlen (hreq ▸ hcgi)))

/-- **`HandlerRequest` sends the reply** to a request that has been read with the
    first line `line`, if nothing is refused. -/
theorem sent_reply {line : Bytes} (hu : u.stop = false)
    (hep : ((EndPoint.new sock u).recvHttpRequest w.rx).1 = EndPoint.parsed (.new sock u) line)
    (hfull : w.tx.plan = []) (h : w.os.Granted) (hfit : M.Fits w.os.disk)
    (hlen : (reply M w.os.disk line).body.length < 2 ^ 32) :
    sent M sock u w = (reply M w.os.disk line).bytes := by
  have hans := EndPoint.answers_chosen (M := M) sock u line h hfit
  have hread : ((EndPoint.new sock u).recvHttpRequest w.rx).1.stop = false := by
    rw [hep, EndPoint.parsed_new]
    exact hu
  have hc : requested M sock u w = EndPoint.chosen M (EndPoint.parsed (.new sock u) line) w.os := by
    rw [requested, hep]
  rw [sent_response hread hfull, hc, hans.bytes]
  intro c hcgi
  have hcgi : (requested M sock u w).1.req.cgi = true := hcgi
  show (requested M sock u w).1.resp.responseBody.length < _
  rw [hc] at hcgi ⊢
  rwa [hans.body hcgi]

end

/-! ## Every client -/

namespace Server
variable {σ W : Type} [DecidableEq W] {e : Setting σ}
  {s : Running KernelCall.Answer (Server σ W) W EndPoint}

theorem granted_alone {disk : σ} {met : List Bool} (h : true ∉ met) : (alone disk met).Granted :=
  ⟨h, rfl, by simp [alone, Os.used]⟩

theorem fits_leaving {M : Machine σ} {disk : σ} (h : M.Fits disk) (left : List Leftover) :
    M.leaving.Fits (disk, left) := h

end Server

end MyHttpServer
