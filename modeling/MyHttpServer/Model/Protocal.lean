/-
  protocal.h and protocal.cc: the request, the response, and the `EndPoint`
  that reads the one and builds and sends the other.

  The accessors of `HttpRequest` and `HttpResponse` return by value.  Where
  the source calls a mutator on what an accessor returned, it changes a
  temporary (`onCopy`).  Console output and logging are left out.
-/
import MyHttpServer.Model.Util
import MyHttpServer.Model.Os

namespace MyHttpServer

/-! ## Constants -/

/-- `": "` -/
def SEP : Bytes := str ": "
def OK : ℤ := 200
def BAD_REQUEST : ℤ := 400
def NOT_FOUND : ℤ := 404
def SERVER_ERROR : ℤ := 500
def WWW_ROOT : Bytes := str "wwwroot"
def HOME_PAGE : Bytes := str "index.html"
def HTTP_VERSION : Bytes := str "HTTP/1.1"
def PAGE_404 : Bytes := str "wwwroot/404.html"
def PAGE_400 : Bytes := str "wwwroot/400.html"
def PAGE_500 : Bytes := str "wwwroot/500.html"
def LINE_END : Bytes := [CR, LF]
def GET : Bytes := str "GET"
def POST : Bytes := str "POST"
def CONTENT_LENGTH : Bytes := str "Content-Length"
def DOT_HTML : Bytes := str ".html"

/-- The table of `ContentTypeTable`. -/
def contentTypes : List (Bytes × Bytes) :=
  [(str ".html", str "text/html"), (str ".txt", str "text/plain"),
    (str ".ppt", str "application/vnd.ms-powerpoint"),
    (str ".js", str "application/x-javascript"), (str ".xml", str "application/rss+xml")]

/-- `ContentTypeTable(suffix)` -/
def contentTypeTable (suffix : Bytes) : Bytes := (contentTypes.lookup suffix).getD DOT_HTML

/-- `CodeAnaly(code)` -/
def codeAnaly (code : ℤ) : Bytes :=
  if code = 200 then str "OK"
  else if code = 400 then str "BADREQUEST"
  else if code = 404 then str "NOTFOUND"
  else if code = 500 then str "SERVERERROR"
  else []

/-! ## The request and the response -/

/-- A `std::unordered_map<std::string, std::string>`. -/
abbrev StringMap := List (Bytes × Bytes)

/-- `find(key)` -/
def StringMap.find (kv : StringMap) (key : Bytes) : Option Bytes := List.lookup key kv

/-- `insert(make_pair(key, value))`: a key that is there keeps its value. -/
def StringMap.insert (kv : StringMap) (key value : Bytes) : StringMap :=
  match kv.find key with
  | some _ => kv
  | none => kv ++ [(key, value)]

structure HttpRequest where
  requestLine : Bytes := []
  requestHeader : List Bytes := []
  blank : Bytes := []
  requestBody : Bytes := []
  method : Bytes := []
  url : Bytes := []
  version : Bytes := []
  headerKv : StringMap := []
  contentLength : ℕ := 0
  path : Bytes := []
  parameter : Bytes := []
  cgi : Bool := false
  deriving DecidableEq

structure HttpResponse where
  statusLine : Bytes := []
  responseHeader : List Bytes := []
  blank : Bytes := []
  responseBody : Bytes := []
  statusCode : ℤ := OK
  fd : ℤ
  fileSize : ℤ
  suffix : Bytes := []
  deriving DecidableEq

structure EndPoint where
  sock : ℤ
  req : HttpRequest
  resp : HttpResponse
  stop : Bool
  deriving DecidableEq

/-- What memory holds in the members that `EndPoint(int)` and `HttpResponse()`
    leave unset. -/
structure Unset where
  stop : Bool
  fd : ℤ
  fileSize : ℤ
  deriving DecidableEq

/-- `EndPoint(int sock) : m_sock(sock)` -/
def EndPoint.new (sock : ℤ) (u : Unset) : EndPoint :=
  { sock, req := {}, resp := { fd := u.fd, fileSize := u.fileSize }, stop := u.stop }

/-- `get().f(..)` for an accessor `get` that returns by value: `f` changes the
    temporary, and the object stays as it is. -/
def onCopy {ρ α : Type} (obj : ρ) (get : ρ → α) (f : α → α) : ρ :=
  let _temp := f (get obj)
  obj

@[simp] theorem onCopy_eq {ρ α : Type} (obj : ρ) (get : ρ → α) (f : α → α) :
    onCopy obj get f = obj := rfl

namespace HttpRequest

/-- `addToRequestBody(ch)` -/
def addToRequestBody (r : HttpRequest) (ch : UInt8) : HttpRequest :=
  { r with requestBody := r.requestBody ++ [ch] }

/-- `transformMethod()` -/
def transformMethod (r : HttpRequest) : HttpRequest := { r with method := r.method.map toUpper }

/-- `addToPath(val)` -/
def addToPath (r : HttpRequest) (val : Bytes) : HttpRequest := { r with path := r.path ++ val }

end HttpRequest

namespace HttpResponse

/-- `addToResponseHeader(val)` -/
def addToResponseHeader (r : HttpResponse) (val : Bytes) : HttpResponse :=
  { r with responseHeader := r.responseHeader ++ [val] }

/-- `addToResponseBody(ch)` -/
def addToResponseBody (r : HttpResponse) (ch : UInt8) : HttpResponse :=
  { r with responseBody := r.responseBody ++ [ch] }

end HttpResponse

namespace EndPoint

/-! ## Reading the request -/

def recvHttpRequestLine (ep : EndPoint) (s : RecvSide) : Bool × EndPoint × RecvSide :=
  let (sz, requestLine, s) := Util.reaLine s ep.req.requestLine
  let ep := { ep with req.requestLine := requestLine }
  if 0 < sz then
    let requestLine := resize requestLine (toSizeT (sz - 1))
    let ep := { ep with req.requestLine := requestLine }
    (ep.stop, ep, s)
  else
    let ep := { ep with stop := true }
    (ep.stop, ep, s)

/-- The body of the `while(true)` of `RecvHttpRequestHeader`. -/
def recvHttpRequestHeaderStep (st : EndPoint × RecvSide) :
    EndPoint × RecvSide ⊕ EndPoint × RecvSide :=
  let (ep, s) := st
  let (n, line, s) := Util.reaLine s []
  if n ≤ 0 then .inr ({ ep with stop := true }, s)
  else if line = [LF] then
    -- getBlank() = s;
    .inr ({ ep with req := onCopy ep.req HttpRequest.blank fun _ => line }, s)
  else
    let line := resize line (line.length - 1)
    -- getRequestHeader().push_back(s);
    .inl ({ ep with req := onCopy ep.req HttpRequest.requestHeader (· ++ [line]) }, s)

theorem recvHttpRequestHeaderStep_lt {st st' : EndPoint × RecvSide}
    (h : recvHttpRequestHeaderStep st = .inl st') :
    st'.2.stream.length < st.2.stream.length := by
  obtain ⟨ep, s⟩ := st
  have hlt : 0 < (Util.reaLine s []).1 → _ := Util.reaLine_lt
  simp only [recvHttpRequestHeaderStep] at h
  split at h
  · cases h
  rename_i hn
  split at h <;> cases h
  exact hlt (by omega)

def recvHttpRequestHeaderLoop : WhileLoop (EndPoint × RecvSide) (EndPoint × RecvSide) where
  step := recvHttpRequestHeaderStep
  variant st := st.2.stream.length
  variant_lt := recvHttpRequestHeaderStep_lt

def recvHttpRequestHeader (ep : EndPoint) (s : RecvSide) : Bool × EndPoint × RecvSide :=
  let (ep, s) := recvHttpRequestHeaderLoop.run (ep, s)
  (ep.stop, ep, s)

/-! ## Parsing the request -/

def parseHttpRequestLine (ep : EndPoint) : EndPoint :=
  let (method, ss) := extract ep.req.requestLine
  let (url, ss) := extract ss
  let (version, _) := extract ss
  { ep with req := { ep.req with method, url, version }.transformMethod }

def parseURL (ep : EndPoint) : EndPoint :=
  let method := ep.req.method
  if method ≠ GET ∧ method ≠ POST then { ep with resp.statusCode := BAD_REQUEST }
  else if method = GET then
    let url := ep.req.url
    if QUESTION ∈ url then
      let (path, parameter) := Util.cutstring url [] [] (str "?")
      { ep with req := { ep.req with path, parameter } }
    else { ep with req.path := url }
  else if method = POST then { ep with req := { ep.req with path := ep.req.url, cgi := true } }
  else ep

def parseHttpRequestHeader (ep : EndPoint) : EndPoint :=
  ep.req.requestHeader.foldl (fun ep line =>
    let (str1, str2) := Util.cutstring line [] [] SEP
    -- getHeaderKv().insert(make_pair(str1, str2));
    { ep with req := onCopy ep.req HttpRequest.headerKv (·.insert str1 str2) }) ep

def isNeedRecvHttpRequestBody (ep : EndPoint) : Bool × EndPoint :=
  if ep.req.method = POST then
    match ep.req.headerKv.find CONTENT_LENGTH with
    | some v => (true, { ep with req.contentLength := toSizeT (atoi v) })
    | none => (false, ep)
  else (false, ep)

/-- The body of `while(content_length)`. -/
def recvHttpRequestBodyStep (st : ℕ × EndPoint × RecvSide) :
    ℕ × EndPoint × RecvSide ⊕ EndPoint × RecvSide :=
  let (n, ep, s) := st
  if n = 0 then .inr (ep, s)
  else
    match s.recv false with
    | (.byte ch, s) => .inl (n - 1, { ep with req := ep.req.addToRequestBody ch }, s)
    | (_, s) => .inr ({ ep with stop := true }, s)

theorem recvHttpRequestBodyStep_lt {st st' : ℕ × EndPoint × RecvSide}
    (h : recvHttpRequestBodyStep st = .inl st') : st'.1 < st.1 := by
  obtain ⟨n, ep, s⟩ := st
  simp only [recvHttpRequestBodyStep] at h
  split at h
  · cases h
  rename_i hn
  split at h <;> cases h
  simp only; omega

def recvHttpRequestBodyLoop : WhileLoop (ℕ × EndPoint × RecvSide) (EndPoint × RecvSide) where
  step := recvHttpRequestBodyStep
  variant st := st.1
  variant_lt := recvHttpRequestBodyStep_lt

def recvHttpRequestBody (ep : EndPoint) (s : RecvSide) : EndPoint × RecvSide :=
  match ep.isNeedRecvHttpRequestBody with
  | (true, ep) => recvHttpRequestBodyLoop.run (ep.req.contentLength, ep, s)
  | (false, ep) => (ep, s)

def recvHttpRequest (ep : EndPoint) (s : RecvSide) : EndPoint × RecvSide :=
  match ep.recvHttpRequestLine s with
  | (true, ep, s) => (ep, s)
  | (false, ep, s) =>
    match ep.recvHttpRequestHeader s with
    | (true, ep, s) => (ep, s)
    | (false, ep, s) =>
      let ep := ep.parseHttpRequestLine
      let ep := ep.parseURL
      let ep := ep.parseHttpRequestHeader
      ep.recvHttpRequestBody s

/-! ## Building the response -/

section
variable {σ : Type} (M : Machine σ)

/-- What `CgiProcess` means to hand to its child: the texts that it gives to
    `putenv`, and the body if the method is POST.  `putenv` keeps pointers, and the
    second string is local to a block that is left before `execl`.  What the
    program really finds is `CgiInput.released`, of which a `Program` makes what
    it makes. -/
def cgiInput (ep : EndPoint) : CgiInput where
  env := (cStr (str "METHOD=" ++ ep.req.method)) ::
    if ep.req.method = GET then [cStr (str "PARAMETER=" ++ ep.req.parameter)]
    else if ep.req.method = POST then
      [cStr (str "Content-Length=" ++ decimal ep.req.contentLength)]
    else []
  stdin := if ep.req.method = POST then ep.req.requestBody else []

/-- The code `CgiProcess` makes of what `waitpid` returns. -/
def cgiCode : Option ℕ → ℤ
  | some status =>
    if WIFEXITED status then if WIFSIGNALED status then SERVER_ERROR else OK
    else SERVER_ERROR
  | none => OK

def cgiProcess (ep : EndPoint) (os : Os σ) : ℤ × EndPoint × Os σ :=
  match os.pipe with
  | (none, os) => (SERVER_ERROR, ep, os)
  | (some input, os) =>
    match os.pipe with
    | (none, os) => (SERVER_ERROR, ep, os)
    | (some output, os) =>
      match os.fork with
      | (false, os) => (NOT_FOUND, ep, os)
      | (true, os) =>
        let os := (os.close input.1).close output.2
        let (run, os) := os.runChild M ep.req.path ep.cgiInput
        -- while(read(output[0], &ch, 1) > 0) addToResponseBody(ch)
        let ep := { ep with resp := run.output.foldl HttpResponse.addToResponseBody ep.resp }
        let (status, os) := os.waitpid run.ending
        (cgiCode status, ep, (os.close output.1).close input.2)

def notCgiProcess (ep : EndPoint) (os : Os σ) : ℤ × EndPoint × Os σ :=
  let (fd, os) := os.openFile M ep.req.path
  let ep := { ep with resp.fd := fd }
  if ep.resp.fd > 0 then (OK, ep, os) else (SERVER_ERROR, ep, os)

/-- The suffix of a path: from its last `'.'` on, or `".html"`. -/
def suffixOf (path : Bytes) : Bytes :=
  match rfindDot path with
  | some pos => path.drop pos
  | none => DOT_HTML

/-- Is one of the three bits set that make a file a program? -/
def executable (mode : UInt32) : Bool :=
  mode &&& S_IXGRP ≠ 0 ∨ mode &&& S_IXOTH ≠ 0 ∨ mode &&& S_IXUSR ≠ 0

/-- Lines 341 to 348 of `BuildHttpResponse`: `wwwroot` in front of the path, and
    the home page behind a final slash. -/
def setServedPath (ep : EndPoint) : EndPoint :=
  let path := ep.req.path
  let req := { ep.req with path := WWW_ROOT }.addToPath path
  { ep with req := if req.path.getLast? = some SLASH then req.addToPath HOME_PAGE else req }

/-- Lines 354 to 370: a directory stands for its home page, and a program is
    marked as one. -/
def setKind (ep : EndPoint) (st : Inode) (os : Os σ) : EndPoint × Inode × Os σ :=
  if isDir st.mode then
    let ep := { ep with req := (ep.req.addToPath (str "/")).addToPath HOME_PAGE }
    -- a failing stat leaves `st` as it was
    let (st', os) := os.stat M ep.req.path
    ({ ep with resp.suffix := DOT_HTML }, st'.getD st, os)
  else if executable st.mode then ({ ep with req.cgi := true }, st, os)
  else (ep, st, os)

/-- Lines 381 to 393: the size and the suffix of the file. -/
def setFile (ep : EndPoint) (st : Inode) : EndPoint :=
  let ep := { ep with resp.fileSize := toInt st.size }
  { ep with resp.suffix := suffixOf ep.req.path }

/-- Lines 332 to 394: which file is asked for.  `.error` is a `goto END`. -/
def locate (ep : EndPoint) (os : Os σ) : Except (EndPoint × Os σ) (EndPoint × Os σ) :=
  if ep.resp.statusCode = BAD_REQUEST then .error (ep, os)
  else
    let ep := ep.setServedPath
    match os.stat M ep.req.path with
    | (none, os) => .error ({ ep with resp.statusCode := NOT_FOUND }, os)
    | (some st, os) =>
      let (ep, st, os) := setKind M ep st os
      .ok (ep.setFile st, os)

/-- Lines 395 to 406 of `BuildHttpResponse`.  Either function is called twice:
    `code = f(); setStatusCode(f());` -/
def dispatch (ep : EndPoint) (os : Os σ) : EndPoint × Os σ :=
  if ep.req.cgi then
    let (_, ep, os) := cgiProcess M ep os
    let (code, ep, os) := cgiProcess M ep os
    ({ ep with resp.statusCode := code }, os)
  else
    let (_, ep, os) := notCgiProcess M ep os
    let (code, ep, os) := notCgiProcess M ep os
    ({ ep with resp.statusCode := code }, os)

def buildErrorHeader (path : Bytes) (ep : EndPoint) (os : Os σ) : EndPoint × Os σ :=
  let (fd, os) := os.openFile M path
  let ep : EndPoint := { ep with resp.fd := fd }
  if ep.resp.fd > 0 then
    let line := str "Content-Type: text/html" ++ LINE_END
    let ep : EndPoint := { ep with resp := ep.resp.addToResponseHeader line }
    let (st, os) := os.stat M path
    let ep : EndPoint := match st with
      | some st => { ep with resp.fileSize := toInt st.size }
      | none => ep
    let line := str "Content-Length: " ++ stdToString ep.resp.fileSize ++ LINE_END
    ({ ep with resp := ep.resp.addToResponseHeader line }, os)
  else (ep, os)

/-- The lines of `Build200header`, in its local copy of the header. -/
def header200 (ep : EndPoint) : List Bytes :=
  let responseHeader := ep.resp.responseHeader
  let line := str "Content-Type: " ++ contentTypeTable ep.resp.suffix ++ LINE_END
  let responseHeader := responseHeader ++ [line]
  let line := str "Content-Length: " ++
    (if ep.req.cgi then decimal ep.resp.responseBody.length
    else stdToString ep.resp.fileSize) ++ LINE_END
  responseHeader ++ [line]

def build200header (ep : EndPoint) : EndPoint :=
  -- `response_header` is a local copy, which is not stored back
  let _responseHeader := ep.header200
  ep

/-- The line `HTTP/1.1 code description`. -/
def statusLineOf (code : ℤ) : Bytes :=
  HTTP_VERSION ++ str " " ++ stdToString code ++ str " " ++ codeAnaly code ++ LINE_END

def buildResponseHelper (ep : EndPoint) (os : Os σ) : EndPoint × Os σ :=
  let code := ep.resp.statusCode
  let ep := { ep with resp := { ep.resp with statusLine := statusLineOf code, blank := LINE_END } }
  if code = 200 then (ep.build200header, os)
  else if code = 400 then buildErrorHeader M PAGE_400 ep os
  else if code = 404 then
    -- no break: case 404 runs on into case 500
    let (ep, os) := buildErrorHeader M PAGE_404 ep os
    buildErrorHeader M PAGE_500 ep os
  else if code = 500 then buildErrorHeader M PAGE_500 ep os
  else (ep, os)

def buildHttpResponse (ep : EndPoint) (os : Os σ) : EndPoint × Os σ :=
  let (ep, os) := match locate M ep os with
    | .error (ep, os) => (ep, os)
    | .ok (ep, os) => dispatch M ep os
  buildResponseHelper M ep os

/-! ## Sending the response -/

/-- The body of the sending loop of `SendHttpResponse`, for the CGI body. -/
def sendBodyStep (body : Bytes) (st : ℕ × SendSide) : ℕ × SendSide ⊕ SendSide :=
  let (total, tx) := st
  if total < body.length then
    let (n, tx) := tx.send (body.drop total)
    let size := toInt n
    if 0 < size then .inl (total + size.toNat, tx) else .inr tx
  else .inr tx

theorem sendBodyStep_lt {body : Bytes} {st st' : ℕ × SendSide}
    (h : sendBodyStep body st = .inl st') : body.length - st'.1 < body.length - st.1 := by
  obtain ⟨total, tx⟩ := st
  simp only [sendBodyStep] at h
  split at h
  · split at h <;> cases h
    simp only; omega
  · cases h

def sendBodyLoop (body : Bytes) : WhileLoop (ℕ × SendSide) SendSide where
  step := sendBodyStep body
  variant st := body.length - st.1
  variant_lt := sendBodyStep_lt

def sendHttpResponse (ep : EndPoint) (os : Os σ) (tx : SendSide) : Os σ × SendSide :=
  let (_, tx) := tx.send ep.resp.statusLine
  let tx := ep.resp.responseHeader.foldl (fun tx line => (tx.send line).2) tx
  let (_, tx) := tx.send ep.resp.blank
  if ep.req.cgi then (os, (sendBodyLoop ep.resp.responseBody).run (0, tx))
  else
    let (_, tx) := tx.sendfile (os.contentOf ep.resp.fd) (toSizeT ep.resp.fileSize)
    (os.close ep.resp.fd, tx)

end

end EndPoint

/-! ## Handling a request -/

/-- What `HandlerRequest` acts on: the two directions of the client socket, and
    the server process. -/
structure World (σ : Type) where
  rx : RecvSide
  tx : SendSide
  os : Os σ

/-- `HandlerRequest(sock)`, with the end point as it was deleted. -/
def handlerRequest {σ : Type} (M : Machine σ) (sock : ℤ) (u : Unset) (w : World σ) :
    EndPoint × World σ :=
  let ep := EndPoint.new sock u
  let (ep, rx) := ep.recvHttpRequest w.rx
  if ep.stop then (ep, { w with rx, os := w.os.close sock })
  else
    let (ep, os) := EndPoint.buildHttpResponse M ep w.os
    let (os, tx) := EndPoint.sendHttpResponse ep os w.tx
    (ep, { rx, tx, os := os.close sock })

end MyHttpServer
