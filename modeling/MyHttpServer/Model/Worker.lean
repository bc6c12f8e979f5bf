/-
  `HandlerRequest` (protocal.cc) as the calls that it makes, one after the other.

  Elsewhere a request is handled in one piece.  Here every system call stands on
  its own, so that those of several workers can be mixed.  The functions are
  those of `EndPoint`, in the same words; what they do between two calls is taken
  from there.

  `RecvHttpRequest` is one call: it reads from its own connection only.  So is
  the exchange with a CGI program, from `execl` to its end, which may be long in
  coming.  What the functions print is left out; what a child is left with of it
  is a `Leftover`.
-/
import MyHttpServer.Lib.Routine
import MyHttpServer.Model.Protocal

namespace MyHttpServer

/-- What a worker asks of the kernel. -/
inductive KernelCall
  /-- `RecvHttpRequest()` of the end point, on a socket -/
  | receive (sock : ℤ) (ep : EndPoint)
  | send (sock : ℤ) (bs : Bytes)
  | sendfile (sock fd : ℤ) (count : ℕ)
  | stat (path : Bytes)
  | open (path : Bytes)
  | close (fd : ℤ)
  | pipe
  | fork
  /-- the child from `execl` on -/
  | exec (path : Bytes) (inp : CgiInput)
  | waitpid (ending : ChildEnd)

namespace KernelCall

/-- What a call returns. -/
def Answer : KernelCall → Type
  | .receive _ _ => EndPoint
  | .send _ _ | .sendfile _ _ _ | .open _ => ℤ
  | .stat _ => Option Inode
  | .close _ => Unit
  | .pipe => Option (ℕ × ℕ)
  | .fork => Bool
  | .exec _ _ => Bytes × ChildEnd
  | .waitpid _ => Option ℕ

end KernelCall

/-- Code that makes system calls. -/
abbrev Calling (α : Type) := Routine KernelCall.Answer α

namespace Calling

def receive (sock : ℤ) (ep : EndPoint) : Calling EndPoint := .ask (KernelCall.receive sock ep)
def send (sock : ℤ) (bs : Bytes) : Calling ℤ := .ask (KernelCall.send sock bs)
def sendfile (sock fd : ℤ) (count : ℕ) : Calling ℤ := .ask (KernelCall.sendfile sock fd count)
def stat (path : Bytes) : Calling (Option Inode) := .ask (KernelCall.stat path)
def openFile (path : Bytes) : Calling ℤ := .ask (KernelCall.open path)
def close (fd : ℤ) : Calling Unit := .ask (KernelCall.close fd)
def pipe : Calling (Option (ℕ × ℕ)) := .ask KernelCall.pipe
def fork : Calling Bool := .ask KernelCall.fork
def exec (path : Bytes) (inp : CgiInput) : Calling (Bytes × ChildEnd) :=
  .ask (KernelCall.exec path inp)
def waitpid (ending : ChildEnd) : Calling (Option ℕ) := .ask (KernelCall.waitpid ending)

end Calling

namespace Worker
open Calling

/-! ## Building the response -/

def cgiProcess (ep : EndPoint) : Calling (ℤ × EndPoint) := do
  let some input ← pipe | return (SERVER_ERROR, ep)
  let some output ← pipe | return (SERVER_ERROR, ep)
  if ← fork then
    close input.1
    close output.2
    let run ← exec ep.req.path ep.cgiInput
    let ep := { ep with resp := run.1.foldl HttpResponse.addToResponseBody ep.resp }
    let status ← waitpid run.2
    close output.1
    close input.2
    return (EndPoint.cgiCode status, ep)
  else return (NOT_FOUND, ep)

def notCgiProcess (ep : EndPoint) : Calling (ℤ × EndPoint) := do
  let fd ← openFile ep.req.path
  let ep := { ep with resp.fd := fd }
  if ep.resp.fd > 0 then return (OK, ep) else return (SERVER_ERROR, ep)

def setKind (ep : EndPoint) (st : Inode) : Calling (EndPoint × Inode) :=
  if isDir st.mode then do
    let ep := { ep with req := (ep.req.addToPath (str "/")).addToPath HOME_PAGE }
    let st' ← stat ep.req.path
    return ({ ep with resp.suffix := DOT_HTML }, st'.getD st)
  else if EndPoint.executable st.mode then return ({ ep with req.cgi := true }, st)
  else return (ep, st)

/-- `.error` is a `goto END`. -/
def locate (ep : EndPoint) : Calling (Except EndPoint EndPoint) := do
  if ep.resp.statusCode = BAD_REQUEST then return .error ep
  else
    let ep := ep.setServedPath
    match ← stat ep.req.path with
    | none => return .error { ep with resp.statusCode := NOT_FOUND }
    | some st =>
      let r ← setKind ep st
      return .ok (r.1.setFile r.2)

def dispatch (ep : EndPoint) : Calling EndPoint := do
  if ep.req.cgi then
    let r ← cgiProcess ep
    let r ← cgiProcess r.2
    return { r.2 with resp.statusCode := r.1 }
  else
    let r ← notCgiProcess ep
    let r ← notCgiProcess r.2
    return { r.2 with resp.statusCode := r.1 }

def buildErrorHeader (path : Bytes) (ep : EndPoint) : Calling EndPoint := do
  let fd ← openFile path
  let ep : EndPoint := { ep with resp.fd := fd }
  if ep.resp.fd > 0 then
    let line := str "Content-Type: text/html" ++ LINE_END
    let ep : EndPoint := { ep with resp := ep.resp.addToResponseHeader line }
    let st ← stat path
    let ep : EndPoint := match st with
      | some st => { ep with resp.fileSize := toInt st.size }
      | none => ep
    let line := str "Content-Length: " ++ stdToString ep.resp.fileSize ++ LINE_END
    return { ep with resp := ep.resp.addToResponseHeader line }
  else return ep

def buildResponseHelper (ep : EndPoint) : Calling EndPoint := do
  let code := ep.resp.statusCode
  let ep := { ep with resp := { ep.resp with
    statusLine := EndPoint.statusLineOf code, blank := LINE_END } }
  if code = 200 then return ep.build200header
  else if code = 400 then buildErrorHeader PAGE_400 ep
  else if code = 404 then
    let ep ← buildErrorHeader PAGE_404 ep
    buildErrorHeader PAGE_500 ep
  else if code = 500 then buildErrorHeader PAGE_500 ep
  else return ep

def buildHttpResponse (ep : EndPoint) : Calling EndPoint := do
  match ← locate ep with
  | .error ep => buildResponseHelper ep
  | .ok ep =>
    let ep ← dispatch ep
    buildResponseHelper ep

/-! ## Sending the response -/

/-- The loop over the header lines. -/
def sendHeader (sock : ℤ) : List Bytes → Calling Unit
  | [] => return ()
  | line :: lines => do
    let _ ← send sock line
    sendHeader sock lines

/-- The loop that sends the CGI body, with `total` bytes sent. -/
def sendBody (sock : ℤ) (body : Bytes) (total : ℕ) : Calling Unit :=
  if total < body.length then
    .call (.send sock (body.drop total)) fun n =>
      let size := toInt n
      if 0 < size then sendBody sock body (total + size.toNat) else return ()
  else return ()
termination_by body.length - total

def sendHttpResponse (ep : EndPoint) : Calling Unit := do
  let _ ← send ep.sock ep.resp.statusLine
  sendHeader ep.sock ep.resp.responseHeader
  let _ ← send ep.sock ep.resp.blank
  if ep.req.cgi then sendBody ep.sock ep.resp.responseBody 0
  else
    let _ ← sendfile ep.sock ep.resp.fd (toSizeT ep.resp.fileSize)
    close ep.resp.fd

/-! ## Handling a request -/

def handlerRequest (sock : ℤ) (u : Unset) : Calling EndPoint := do
  let ep ← receive sock (EndPoint.new sock u)
  if ep.stop then
    close sock
    return ep
  else
    let ep ← buildHttpResponse ep
    sendHttpResponse ep
    close sock
    return ep

end Worker

/-! ## What a child is left with -/

/-- What is in the memory of a child, and has not been put there for it. -/
structure Leftover where
  /-- what `std::cout` held when its thread called `fork` -/
  cout : Bytes
  /-- what is found where the texts were that `putenv` was given -/
  found : Bytes → Bytes

/-- The life of a child that is left with this.  A program finds what is left of its
    environment.  If there is none, "execl error" is printed behind what was in
    `std::cout`. -/
def Leftover.childRun {σ : Type} (left : Leftover) (M : Machine σ) (disk : σ) (path : Bytes)
    (inp : CgiInput) : CgiRun σ :=
  match M.program disk path with
  | some prog => prog (inp.released left.found) disk
  | none => ⟨left.cout ++ str "execl error\n", .exited 1, disk⟩

/-- The machine with what each of the next children is left with: there, a program
    does all that such a child does. -/
def Machine.leaving {σ : Type} (M : Machine σ) : Machine (σ × List Leftover) where
  lookup disk := M.lookup disk.1
  program _ path := some fun inp disk =>
    let run := (disk.2.headD ⟨[], id⟩).childRun M disk.1 path inp
    ⟨run.output, run.ending, (run.disk, disk.2.tail)⟩

/-! ## A worker that is alone -/

namespace World
variable {σ : Type} (M : Machine σ)

/-- The answer to a call, if nobody else makes calls. -/
def answer : (c : KernelCall) → World σ → c.Answer × World σ
  | .receive _ ep, w =>
    let (ep, rx) := ep.recvHttpRequest w.rx
    (ep, { w with rx })
  | .send _ bs, w =>
    let (n, tx) := w.tx.send bs
    (n, { w with tx })
  | .sendfile _ fd count, w =>
    let (n, tx) := w.tx.sendfile (w.os.contentOf fd) count
    (n, { w with tx })
  | .stat path, w =>
    let (st, os) := w.os.stat M path
    (st, { w with os })
  | .open path, w =>
    let (fd, os) := w.os.openFile M path
    (fd, { w with os })
  | .close fd, w => ((), { w with os := w.os.close fd })
  | .pipe, w =>
    let (r, os) := w.os.pipe
    (r, { w with os })
  | .fork, w =>
    let (r, os) := w.os.fork
    (r, { w with os })
  | .exec path inp, w =>
    let (run, os) := w.os.runChild M path inp
    ((run.output, run.ending), { w with os })
  | .waitpid ending, w =>
    let (r, os) := w.os.waitpid ending
    (r, { w with os })

end World

end MyHttpServer
