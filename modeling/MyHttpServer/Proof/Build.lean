/-
  `BuildHttpResponse`, call by call: what each of its functions can change.

  * `locate_cases`: the file that a request asks for;
  * `dispatch_cgi`, `dispatch_file`: a program adds to the body, a file sets
    `m_fd`;
  * `buildErrorHeader_cases`: what an error page adds to the response;
  * `handlerRequest_of_read`: the whole of a request that has been read.
-/
import MyHttpServer.Proof.Os
import MyHttpServer.Proof.Request

namespace MyHttpServer

theorem ne_OK : SERVER_ERROR ≠ OK ∧ NOT_FOUND ≠ OK ∧ BAD_REQUEST ≠ OK := by decide

namespace EndPoint
variable {σ : Type} (M : Machine σ)

/-! ## Which file -/

/-- The path that is looked up first. -/
def servedPath (path : Bytes) : Bytes :=
  let p := WWW_ROOT ++ path
  if p.getLast? = some SLASH then p ++ HOME_PAGE else p

/-- The path of the page of a directory. -/
def homePath (p : Bytes) : Bytes := p ++ str "/" ++ HOME_PAGE

/-- The end point for which the file `st` has been found at `p`. -/
def found (ep : EndPoint) (p : Bytes) (cgi : Bool) (st : Inode) : EndPoint :=
  ({ ep with req := { ep.req with path := p, cgi } } : EndPoint).setFile st

theorem setServedPath_eq (ep : EndPoint) :
    ep.setServedPath = { ep with req.path := servedPath ep.req.path } := by
  rw [setServedPath, servedPath]
  by_cases h : (WWW_ROOT ++ ep.req.path).getLast? = some SLASH
  · rw [if_pos h, HttpRequest.addToPath, if_pos h]; rfl
  · rw [if_neg h, HttpRequest.addToPath, if_neg h]

section
variable {M} {ep : EndPoint} {os : Os σ}

theorem locate_badRequest (h : ep.resp.statusCode = BAD_REQUEST) :
    locate M ep os = .error (ep, os) := by
  rw [locate, if_pos h]

theorem locate_missing (h : ep.resp.statusCode ≠ BAD_REQUEST)
    (hl : M.lookup os.disk (cStr (servedPath ep.req.path)) = none) :
    locate M ep os = .error
      ({ ep with req.path := servedPath ep.req.path, resp.statusCode := NOT_FOUND },
        os.note (.stat (cStr (servedPath ep.req.path)))) := by
  rw [locate, if_neg h, setServedPath_eq]
  have hs : os.stat M (servedPath ep.req.path) =
      (none, os.note (.stat (cStr (servedPath ep.req.path)))) := by rw [Os.stat, hl]
  simp only [hs]

theorem setKind_dir {st : Inode} (hd : isDir st.mode = true) :
    setKind M ep st os =
      ({ ep with req.path := homePath ep.req.path, resp.suffix := DOT_HTML },
        (M.lookup os.disk (cStr (homePath ep.req.path))).getD st,
        os.note (.stat (cStr (homePath ep.req.path)))) := by
  rw [setKind, if_pos hd]; rfl

theorem setKind_file {st : Inode} (hd : isDir st.mode = false) :
    setKind M ep st os =
      ({ ep with req.cgi := ep.req.cgi || executable st.mode }, st, os) := by
  rw [setKind, if_neg (by simp [hd])]
  cases hx : executable st.mode
  · rw [if_neg (by simp), Bool.or_false]
  · rw [if_pos rfl, Bool.or_true]

theorem locate_found (h : ep.resp.statusCode ≠ BAD_REQUEST) {st : Inode}
    (hl : M.lookup os.disk (cStr (servedPath ep.req.path)) = some st) :
    locate M ep os =
      let k := setKind M { ep with req.path := servedPath ep.req.path } st
        (os.note (.stat (cStr (servedPath ep.req.path))))
      .ok (k.1.setFile k.2.1, k.2.2) := by
  rw [locate, if_neg h, setServedPath_eq]
  have hs : os.stat M (servedPath ep.req.path) =
      (some st, os.note (.stat (cStr (servedPath ep.req.path)))) := by rw [Os.stat, hl]
  simp only [hs]

/-- A directory stands for its home page. -/
theorem locate_dir (h : ep.resp.statusCode ≠ BAD_REQUEST) {st : Inode}
    (hl : M.lookup os.disk (cStr (servedPath ep.req.path)) = some st) (hd : isDir st.mode = true) :
    locate M ep os = .ok
      (ep.found (homePath (servedPath ep.req.path)) ep.req.cgi
        ((M.lookup os.disk (cStr (homePath (servedPath ep.req.path)))).getD st),
        (os.note (.stat (cStr (servedPath ep.req.path)))).note
          (.stat (cStr (homePath (servedPath ep.req.path))))) := by
  rw [locate_found h hl]
  simp only [setKind_dir hd]
  rfl

/-- Another file is served as it is, or run if it is a program. -/
theorem locate_file (h : ep.resp.statusCode ≠ BAD_REQUEST) {st : Inode}
    (hl : M.lookup os.disk (cStr (servedPath ep.req.path)) = some st)
    (hd : isDir st.mode = false) :
    locate M ep os = .ok
      (ep.found (servedPath ep.req.path) (ep.req.cgi || executable st.mode) st,
        os.note (.stat (cStr (servedPath ep.req.path)))) := by
  rw [locate_found h hl]
  simp only [setKind_file hd]
  rfl

end

/-- **The four ways lines 332 to 394 of `BuildHttpResponse` can go.** -/
theorem locate_cases (ep : EndPoint) (os : Os σ) :
    (ep.resp.statusCode = BAD_REQUEST ∧ locate M ep os = .error (ep, os)) ∨
    (ep.resp.statusCode ≠ BAD_REQUEST ∧
      M.lookup os.disk (cStr (servedPath ep.req.path)) = none ∧ locate M ep os = .error
        ({ ep with req.path := servedPath ep.req.path, resp.statusCode := NOT_FOUND },
          os.note (.stat (cStr (servedPath ep.req.path))))) ∨
    (∃ st, ep.resp.statusCode ≠ BAD_REQUEST ∧
      M.lookup os.disk (cStr (servedPath ep.req.path)) = some st ∧ isDir st.mode = true ∧
      locate M ep os = .ok
        (ep.found (homePath (servedPath ep.req.path)) ep.req.cgi
          ((M.lookup os.disk (cStr (homePath (servedPath ep.req.path)))).getD st),
          (os.note (.stat (cStr (servedPath ep.req.path)))).note
            (.stat (cStr (homePath (servedPath ep.req.path)))))) ∨
    ∃ st, ep.resp.statusCode ≠ BAD_REQUEST ∧
      M.lookup os.disk (cStr (servedPath ep.req.path)) = some st ∧ isDir st.mode = false ∧
      locate M ep os = .ok
        (ep.found (servedPath ep.req.path) (ep.req.cgi || executable st.mode) st,
          os.note (.stat (cStr (servedPath ep.req.path)))) := by
  by_cases hb : ep.resp.statusCode = BAD_REQUEST
  · exact .inl ⟨hb, locate_badRequest hb⟩
  cases hl : M.lookup os.disk (cStr (servedPath ep.req.path)) with
  | none => exact .inr (.inl ⟨hb, rfl, locate_missing hb hl⟩)
  | some st =>
    cases hd : isDir st.mode with
    | true => exact .inr (.inr (.inl ⟨st, hb, rfl, hd, locate_dir hb hl hd⟩))
    | false => exact .inr (.inr (.inr ⟨st, hb, rfl, hd, locate_file hb hl hd⟩))

/-- The path that is opened, or run, for a request, if its file exists. -/
def targetPath (M : Machine σ) (os : Os σ) (path : Bytes) : Option Bytes :=
  (M.lookup os.disk (cStr (servedPath path))).map fun st =>
    if isDir st.mode then homePath (servedPath path) else servedPath path

theorem targetPath_eq {M : Machine σ} {os : Os σ} {path : Bytes} {st : Inode}
    (hl : M.lookup os.disk (cStr (servedPath path)) = some st) :
    targetPath M os path =
      some (if isDir st.mode then homePath (servedPath path) else servedPath path) := by
  rw [targetPath, hl, Option.map_some]

/-! ## Programs and files -/

/-- A call of `CgiProcess`, by what it depends on: the code, the output that it
    adds to the body, and the process. -/
def cgiRun (path : Bytes) (inp : CgiInput) (os : Os σ) : ℤ × Bytes × Os σ :=
  match os.pipe with
  | (none, os) => (SERVER_ERROR, [], os)
  | (some input, os) =>
    match os.pipe with
    | (none, os) => (SERVER_ERROR, [], os)
    | (some output, os) =>
      match os.fork with
      | (false, os) => (NOT_FOUND, [], os)
      | (true, os) =>
        let (run, os) := ((os.close input.1).close output.2).runChild M path inp
        let (status, os) := os.waitpid run.ending
        (cgiCode status, run.output, (os.close output.1).close input.2)

/-- The end point with `out` behind its body. -/
def addBody (ep : EndPoint) (out : Bytes) : EndPoint :=
  { ep with resp.responseBody := ep.resp.responseBody ++ out }

theorem addBody_eq (ep : EndPoint) (out : Bytes) :
    ({ ep with resp := out.foldl HttpResponse.addToResponseBody ep.resp } : EndPoint) =
      ep.addBody out := by
  have h : ∀ r : HttpResponse, out.foldl HttpResponse.addToResponseBody r =
      { r with responseBody := r.responseBody ++ out } := by
    induction out with
    | nil => intro r; simp
    | cons c out ih => intro r; simp [ih, HttpResponse.addToResponseBody]
  rw [h, addBody]

theorem addBody_nil (ep : EndPoint) : ep.addBody [] = ep := by
  simp [addBody]

theorem cgiProcess_eq (ep : EndPoint) (os : Os σ) :
    cgiProcess M ep os =
      let r := cgiRun M ep.req.path ep.cgiInput os
      (r.1, ep.addBody r.2.1, r.2.2) := by
  unfold cgiProcess cgiRun
  rcases os.pipe with ⟨_ | input, os⟩
  · simp only [addBody_nil]
  · rcases hp : os.pipe with ⟨_ | output, os'⟩
    · simp only [hp, addBody_nil]
    · rcases hf : os'.fork with ⟨_ | _, os''⟩
      · simp only [hp, hf, addBody_nil]
      · simp only [hp, hf, addBody_eq]

theorem notCgiProcess_eq (ep : EndPoint) (os : Os σ) :
    notCgiProcess M ep os =
      let r := os.openFile M ep.req.path
      (if r.1 > 0 then OK else SERVER_ERROR, { ep with resp.fd := r.1 }, r.2) := by
  unfold notCgiProcess
  by_cases h : (os.openFile M ep.req.path).1 > 0
  · simp only [if_pos h]
  · simp only [if_neg h]

/-- A request for a program makes two calls of `CgiProcess`, one behind the
    other. -/
theorem dispatch_cgi {ep : EndPoint} (h : ep.req.cgi = true) (os : Os σ) :
    dispatch M ep os =
      let r := cgiRun M ep.req.path ep.cgiInput os
      let r' := cgiRun M ep.req.path ep.cgiInput r.2.2
      ({ (ep.addBody r.2.1).addBody r'.2.1 with resp.statusCode := r'.1 }, r'.2.2) := by
  rw [dispatch, if_pos h, cgiProcess_eq]
  simp only [cgiProcess_eq]
  rfl

/-- A request for a file opens it twice and keeps the second descriptor. -/
theorem dispatch_file {ep : EndPoint} (h : ep.req.cgi = false) (os : Os σ) :
    dispatch M ep os =
      let r := os.openFile M ep.req.path
      let r' := r.2.openFile M ep.req.path
      ({ ep with resp.fd := r'.1, resp.statusCode := if r'.1 > 0 then OK else SERVER_ERROR },
        r'.2) := by
  rw [dispatch, if_neg (by simp [h]), notCgiProcess_eq]
  simp only [notCgiProcess_eq]

theorem dispatch_req (ep : EndPoint) (os : Os σ) : (dispatch M ep os).1.req = ep.req := by
  cases hc : ep.req.cgi with
  | true => rw [dispatch_cgi M hc]; rfl
  | false => rw [dispatch_file M hc]

/-! ## Error pages -/

def contentTypeLine : Bytes := str "Content-Type: text/html"

def contentLengthLine (n : ℤ) : Bytes := str "Content-Length: " ++ stdToString n

/-- The end point with the page `f`, open as `fd`, for its answer. -/
def withPage (ep : EndPoint) (fd : ℕ) (f : Inode) : EndPoint :=
  { ep with resp := { ep.resp with
      fd
      fileSize := toInt f.size
      responseHeader := ep.resp.responseHeader ++
        [contentTypeLine ++ LINE_END, contentLengthLine (toInt f.size) ++ LINE_END] } }

/-- The end point with `fd` for its file, which may be none. -/
def withFd (ep : EndPoint) (fd : ℤ) : EndPoint := { ep with resp.fd := fd }

/-- **`BuildErrorHeader` opens the page or leaves the head as it is.**  (A page
    that is opened as descriptor 0 counts as not opened.) -/
theorem buildErrorHeader_cases (path : Bytes) (os : Os σ) :
    (∃ f, M.lookup os.disk (cStr path) = some f ∧ 0 < os.lowestFree ∧
      ∀ ep, buildErrorHeader M path ep os = (ep.withPage os.lowestFree f,
        (os.afterOpen path os.lowestFree [(os.lowestFree, f.content)]).note (.stat (cStr path)))) ∨
    (os.lowestFree = 0 ∧ ∃ f, M.lookup os.disk (cStr path) = some f ∧
      ∀ ep, buildErrorHeader M path ep os =
        (ep.withFd 0, os.afterOpen path 0 [(0, f.content)])) ∨
    ((os.refusals.headD false = false → ∀ f, M.lookup os.disk (cStr path) = some f →
        f.readable = false) ∧
      ∀ ep, buildErrorHeader M path ep os = (ep.withFd (-1), os.afterOpen path (-1) [])) := by
  rcases os.openFile_cases path with ⟨f, -, hl, -, he⟩ | ⟨hn, he⟩
  · by_cases hz : os.lowestFree = 0
    · refine .inr (.inl ⟨hz, f, hl, fun ep => ?_⟩)
      simp only [buildErrorHeader, he, hz]
      rfl
    · have hpos : ((os.lowestFree : ℕ) : ℤ) > 0 := by omega
      refine .inl ⟨f, hl, by omega, fun ep => ?_⟩
      simp only [buildErrorHeader, he, if_pos hpos, Os.stat, Os.afterOpen_disk, hl]
      simp [withPage, HttpResponse.addToResponseHeader, contentTypeLine, contentLengthLine]
  · refine .inr (.inr ⟨hn, fun ep => ?_⟩)
    simp only [buildErrorHeader, he]
    rfl

/-! ## The whole -/

/-- `BuildHttpResponse` up to `END`. -/
def chosen (ep : EndPoint) (os : Os σ) : EndPoint × Os σ :=
  match locate M ep os with
  | .error r => r
  | .ok (ep, os) => dispatch M ep os

theorem buildHttpResponse_eq (ep : EndPoint) (os : Os σ) :
    buildHttpResponse M ep os =
      buildResponseHelper M (chosen M ep os).1 (chosen M ep os).2 := by
  rw [buildHttpResponse, chosen]
  rcases locate M ep os with ⟨ep, os⟩ | ⟨ep, os⟩
  · rfl
  · rcases dispatch M ep os with ⟨ep, os⟩
    rfl

theorem openFile_disk (os : Os σ) (p : Bytes) : (os.openFile M p).2.disk = os.disk := by
  rcases os.openFile_cases (M := M) p with ⟨f, -, -, -, he⟩ | ⟨-, he⟩ <;> simp only [he] <;> simp

theorem dispatch_frame (ep : EndPoint) (os : Os σ) :
    (dispatch M ep os).1.resp.responseHeader = ep.resp.responseHeader ∧
      ((dispatch M ep os).1.req.cgi = false → (dispatch M ep os).2.disk = os.disk) := by
  cases hc : ep.req.cgi with
  | true =>
    simp only [dispatch_cgi M hc, addBody, hc]
    simp
  | false =>
    simp only [dispatch_file M hc, openFile_disk]
    simp

@[simp] theorem found_path (ep : EndPoint) (p : Bytes) (cgi : Bool) (st : Inode) :
    (ep.found p cgi st).req.path = p := rfl

@[simp] theorem found_cgi (ep : EndPoint) (p : Bytes) (cgi : Bool) (st : Inode) :
    (ep.found p cgi st).req.cgi = cgi := rfl

@[simp] theorem found_header (ep : EndPoint) (p : Bytes) (cgi : Bool) (st : Inode) :
    (ep.found p cgi st).resp.responseHeader = ep.resp.responseHeader := rfl

@[simp] theorem note_disk (os : Os σ) (c : SysCall) : (os.note c).disk = os.disk := rfl

/-- What is chosen leaves the header of the response alone, and without a
    program the disk as well. -/
theorem chosen_frame (ep : EndPoint) (os : Os σ) :
    (chosen M ep os).1.resp.responseHeader = ep.resp.responseHeader ∧
      ((chosen M ep os).1.req.cgi = false → (chosen M ep os).2.disk = os.disk) := by
  rcases locate_cases M ep os with ⟨-, h⟩ | ⟨-, -, h⟩ | ⟨st, -, -, -, h⟩ | ⟨st, -, -, -, h⟩
  · rw [chosen, h]; simp
  · rw [chosen, h]; simp
  · rw [chosen, h]
    have := dispatch_frame M (ep.found (homePath (servedPath ep.req.path)) ep.req.cgi
      ((M.lookup os.disk (cStr (homePath (servedPath ep.req.path)))).getD st))
      ((os.note (.stat (cStr (servedPath ep.req.path)))).note
        (.stat (cStr (homePath (servedPath ep.req.path)))))
    simpa using this
  · rw [chosen, h]
    have := dispatch_frame M
      (ep.found (servedPath ep.req.path) (ep.req.cgi || executable st.mode) st)
      (os.note (.stat (cStr (servedPath ep.req.path))))
    simpa using this

/-- The end point with its status line and its blank line. -/
def withStatus (ep : EndPoint) : EndPoint :=
  { ep with resp := { ep.resp with
      statusLine := statusLineOf ep.resp.statusCode, blank := LINE_END } }

theorem buildResponseHelper_ok {ep : EndPoint} (h : ep.resp.statusCode = OK) (os : Os σ) :
    buildResponseHelper M ep os = (ep.withStatus, os) := by
  have h : ep.resp.statusCode = 200 := h
  rw [buildResponseHelper, withStatus, build200header, if_pos h]

theorem buildResponseHelper_400 {ep : EndPoint} (h : ep.resp.statusCode = BAD_REQUEST)
    (os : Os σ) : buildResponseHelper M ep os = buildErrorHeader M PAGE_400 ep.withStatus os := by
  have h : ep.resp.statusCode = 400 := h
  rw [buildResponseHelper, withStatus, if_neg (by omega), if_pos h]

/-- Status 404 has two pages. -/
theorem buildResponseHelper_404 {ep : EndPoint} (h : ep.resp.statusCode = NOT_FOUND)
    (os : Os σ) : buildResponseHelper M ep os =
      let r := buildErrorHeader M PAGE_404 ep.withStatus os
      buildErrorHeader M PAGE_500 r.1 r.2 := by
  have h : ep.resp.statusCode = 404 := h
  rw [buildResponseHelper, withStatus, if_neg (by omega), if_neg (by omega), if_pos h]

theorem buildResponseHelper_500 {ep : EndPoint} (h : ep.resp.statusCode = SERVER_ERROR)
    (os : Os σ) : buildResponseHelper M ep os = buildErrorHeader M PAGE_500 ep.withStatus os := by
  have h : ep.resp.statusCode = 500 := h
  rw [buildResponseHelper, withStatus, if_neg (by omega), if_neg (by omega), if_neg (by omega),
    if_pos h]

/-- **What an error page keeps is kept by `BuildResponseHelper`**, which makes
    the status line and then calls `BuildErrorHeader` up to two times. -/
theorem buildResponseHelper_induct {P : EndPoint → Os σ → Prop} {ep : EndPoint} {os : Os σ}
    (hstatus : P ep.withStatus os)
    (hpage : ∀ path ∈ [PAGE_400, PAGE_404, PAGE_500], ∀ ep os, P ep os →
      P (buildErrorHeader M path ep os).1 (buildErrorHeader M path ep os).2) :
    P (buildResponseHelper M ep os).1 (buildResponseHelper M ep os).2 := by
  simp only [buildResponseHelper]
  split_ifs
  · exact hstatus
  · exact hpage PAGE_400 (by simp) _ _ hstatus
  · exact hpage PAGE_500 (by simp) _ _ (hpage PAGE_404 (by simp) _ _ hstatus)
  · exact hpage PAGE_500 (by simp) _ _ hstatus
  · exact hstatus

end EndPoint

/-! ## A request that has been read -/

section
variable {σ : Type} (M : Machine σ) {sock : ℤ} {u : Unset} {w : World σ}

theorem recvHttpRequest_of_stop (hu : u.stop = true) (s : RecvSide) :
    ((EndPoint.new sock u).recvHttpRequest s).1.stop = true := by
  rcases hv : Util.reaLine s [] with ⟨n, line, t⟩
  have hline := EndPoint.recvHttpRequestLine_eq hv (.new sock u) rfl
  have hst : (EndPoint.new sock u).stop = true := hu
  by_cases hn : 0 < n
  · rw [if_pos hn, hst] at hline
    simp only [EndPoint.recvHttpRequest, hline]
    exact hst
  · rw [if_neg hn] at hline
    simp only [EndPoint.recvHttpRequest, hline]

/-- An end point that is not stopped has parsed some first line. -/
theorem recvHttpRequest_parsed
    (h : ((EndPoint.new sock u).recvHttpRequest w.rx).1.stop = false) :
    u.stop = false ∧ ∃ line, ((EndPoint.new sock u).recvHttpRequest w.rx).1 =
      EndPoint.parsed (.new sock u) line := by
  have hu : u.stop = false := by
    by_contra hu
    rw [recvHttpRequest_of_stop (by simpa using hu)] at h
    cases h
  obtain ⟨ls, ok, t, cs, -, hrun⟩ := EndPoint.recvHttpRequest_reads w.rx
  obtain ⟨-, hfail, hdone⟩ := hrun sock u hu
  cases ok with
  | false => rw [hfail rfl] at h; cases h
  | true =>
    obtain ⟨l, -, he⟩ := hdone rfl
    exact ⟨hu, _, he⟩

/-- **A request that has been read is answered**, and the socket closed. -/
theorem handlerRequest_of_read
    (h : ((EndPoint.new sock u).recvHttpRequest w.rx).1.stop = false) :
    handlerRequest M sock u w =
      let b := EndPoint.buildHttpResponse M ((EndPoint.new sock u).recvHttpRequest w.rx).1 w.os
      let r := EndPoint.sendHttpResponse b.1 b.2 w.tx
      (b.1, { rx := ((EndPoint.new sock u).recvHttpRequest w.rx).2, tx := r.2
              os := r.1.close sock }) := by
  rw [handlerRequest]
  simp only [h]
  rfl

end

end MyHttpServer
