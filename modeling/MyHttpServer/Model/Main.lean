/-
  main.cc with what it calls before `Loop` (http_server.cc, tcp_server.cc,
  thread_pool.cc), and the program as a whole.

  The main thread makes the calls of `Launch.main`, one after the other.  When it
  comes to `Loop`, the program goes on as the server does.  Another thread runs
  only then: the ones made before have nothing to do yet.  Each of the two
  singletons is asked for once, by this thread, and so is made.

  `open` fails if there is no such file or no free descriptor, the other calls at
  any time.  The options of the socket, the logging, and what is printed are left
  out.
-/
import MyHttpServer.Model.Server
import MyHttpServer.Model.Startup

namespace MyHttpServer

/-- What the main thread asks of the kernel. -/
inductive LaunchCall
  /-- `open("/dev/null", O_RDONLY | O_CLOEXEC)` -/
  | openNull
  /-- `signal(SIGPIPE, SIG_IGN)` -/
  | ignoreSigpipe
  /-- `signal(SIGCHLD, SIG_IGN)` -/
  | ignoreSigchld
  | socket
  | bind (fd : ℤ) (port : ℕ)
  | listen (fd : ℤ) (backlog : ℕ)
  | pthreadCreate

namespace LaunchCall

/-- What a call returns. -/
def Answer : LaunchCall → Type
  | .openNull | .socket | .bind _ _ | .listen _ _ | .pthreadCreate => ℤ
  | .ignoreSigpipe | .ignoreSigchld => Unit

end LaunchCall

/-- Code of the main thread. -/
abbrev Launching (α : Type) := Routine LaunchCall.Answer α

/-- How `main` gets to its end, or to `Loop`. -/
inductive Launched
  /-- `Usage(); return 0;` -/
  | usage
  /-- `ERR_EXIT(m)` -/
  | errExit (m : Bytes)
  | loop (listenSock idlefd : ℤ)

namespace Launch

def openNull : Launching ℤ := .ask LaunchCall.openNull
def ignoreSigpipe : Launching Unit := .ask LaunchCall.ignoreSigpipe
def ignoreSigchld : Launching Unit := .ask LaunchCall.ignoreSigchld
def pthreadCreate : Launching ℤ := .ask LaunchCall.pthreadCreate

def BACKLOG : ℕ := 5

/-- `htons(m_port)`, the number that it stands for. -/
def htons (port : ℤ) : ℕ := (port % 2 ^ 16).toNat

/-! ## `TcpServer` -/

/-- `Socket()` -/
def socket : Launching (Except Bytes ℤ) := do
  let listenSock : ℤ ← .ask LaunchCall.socket
  if listenSock < 0 then return .error (str "socket") else return .ok listenSock

/-- `Bind()` -/
def bind (port listenSock : ℤ) : Launching (Except Bytes Unit) := do
  let r : ℤ ← .ask (LaunchCall.bind listenSock (htons port))
  if r < 0 then return .error (str "bind") else return .ok ()

/-- `Listen()` -/
def listen (listenSock : ℤ) : Launching (Except Bytes Unit) := do
  let r : ℤ ← .ask (LaunchCall.listen listenSock BACKLOG)
  if r < 0 then return .error (str "listen") else return .ok ()

/-- `InitServer()` -/
def initTcpServer (port : ℤ) : Launching (Except Bytes ℤ) := do
  match ← socket with
  | .error m => return .error m
  | .ok listenSock =>
    match ← bind port listenSock with
    | .error m => return .error m
    | .ok () =>
      match ← listen listenSock with
      | .error m => return .error m
      | .ok () => return .ok listenSock

/-! ## `ThreadPool`, `HttpServer` and `main` -/

/-- `InitThreadPool()`, which looks at no result. -/
def initThreadPool : ℕ → Launching Unit
  | 0 => return ()
  | n + 1 => do
    let _ ← pthreadCreate
    initThreadPool n

/-- `HttpServer(port)`: the `idlefd` of a new server. -/
def httpServer : Launching ℤ := openNull

/-- `InitServer()` -/
def initServer (port : ℤ) : Launching (Except Bytes ℤ) := do
  ignoreSigpipe
  ignoreSigchld
  match ← initTcpServer port with
  | .error m => return .error m
  | .ok listenSock =>
    initThreadPool NUM
    return .ok listenSock

/-- `main(argc, argv)`.  A server is made and kept, and another one is used. -/
def main : List Bytes → Launching Launched
  | [_, arg] => do
    let port := atoi arg
    let _ ← httpServer
    let idlefd ← httpServer
    match ← initServer port with
    | .error m => return .errExit m
    | .ok listenSock => return .loop listenSock idlefd
  | _ => return .usage

end Launch

/-! ## The process -/

/-- What the kernel keeps of the process until `Loop` is called. -/
structure Kernel where
  fds : OpenFiles
  sigpipe : Disposition
  sigchld : Disposition
  /-- the port of the listening socket -/
  port : Option ℕ
  backlog : Option ℕ
  threads : ℕ

namespace Kernel

/-- The program is started with the three standard descriptors. -/
def Start (limit : ℕ) (k : Kernel) : Prop :=
  (∀ fd, k.fds fd = if fd < 3 then some .other else none) ∧ 3 ≤ limit ∧ k.threads = 0

/-- A call, with its answer. -/
inductive Call (limit : ℕ) (files : Bytes → Bool) :
    Kernel → (c : LaunchCall) → c.Answer → Kernel → Prop
  | openNull {k fd} : files (str "/dev/null") = true → k.fds.Free limit fd →
      Call limit files k .openNull ((fd : ℕ) : ℤ)
        { k with fds := Function.update k.fds fd (some .null) }
  | openNull_error {k} : files (str "/dev/null") = false ∨ k.fds.Full limit →
      Call limit files k .openNull (-1 : ℤ) k
  | ignoreSigpipe {k} : Call limit files k .ignoreSigpipe () { k with sigpipe := .ignore }
  | ignoreSigchld {k} : Call limit files k .ignoreSigchld () { k with sigchld := .ignore }
  | socket {k fd} : k.fds.Free limit fd →
      Call limit files k .socket ((fd : ℕ) : ℤ)
        { k with fds := Function.update k.fds fd (some .listen) }
  | socket_error {k} : Call limit files k .socket (-1 : ℤ) k
  | bind {k fd port} : k.fds fd = some .listen →
      Call limit files k (.bind (fd : ℕ) port) (0 : ℤ) { k with port := some port }
  | bind_error {k fd port} : Call limit files k (.bind fd port) (-1 : ℤ) k
  | listen {k fd backlog} : k.fds fd = some .listen →
      Call limit files k (.listen (fd : ℕ) backlog) (0 : ℤ) { k with backlog := some backlog }
  | listen_error {k fd backlog} : Call limit files k (.listen fd backlog) (-1 : ℤ) k
  | pthreadCreate {k} :
      Call limit files k .pthreadCreate (0 : ℤ) { k with threads := k.threads + 1 }
  | pthreadCreate_error {k} {code : ℤ} : 0 < code → Call limit files k .pthreadCreate code k

/-- The loop as it is called. -/
def loopState (k : Kernel) (idlefd : ℤ) : LoopState where
  fds := k.fds
  queue := []
  connected := 0
  idlefd := if 0 ≤ idlefd then some idlefd.toNat else none
  pc := .accept4
  outcomes := []
  handled := []

end Kernel

/-! ## The whole process -/

/-- Where the program is; behind the call of `Loop` with the threads that have
    been made. -/
inductive ServerProcess (σ : Type)
  | launching (k : Kernel) (p : Launching Launched)
  | serving (k : Kernel)
      (s : Running KernelCall.Answer (Server σ (Fin k.threads)) (Fin k.threads) EndPoint)
  | ended (status : ℕ)

namespace ServerProcess
variable {σ : Type}

/-- The server when `Loop` is called. -/
def Begins {W : Type} [DecidableEq W] (e : Setting σ) (k : Kernel) (idlefd : ℤ)
    (s : Server σ W) : Prop :=
  s.loop = k.loopState idlefd ∧ s.pool = .start ∧ s.disk = e.disk ∧
    (∀ c, (s.rx c, s.tx c) = e.client c) ∧ s.answered = []

inductive Step (e : Setting σ) : ServerProcess σ → ServerProcess σ → Prop
  | call {k k' c next r} : k.Call e.limit e.files c r k' →
      Step e (.launching k (.call c next)) (.launching k' (next r))
  | usage {k} : Step e (.launching k (.done .usage)) (.ended 0)
  | errExit {k m} : Step e (.launching k (.done (.errExit m))) (.ended 1)
  | loop {k listenSock idlefd s} : Begins e k idlefd s →
      Step e (.launching k (.done (.loop listenSock idlefd))) (.serving k ⟨s, fun _ => none⟩)
  | serve {k s t} : (Server.system (Fin k.threads) e).step s t →
      Step e (.serving k s) (.serving k t)
  -- `ERR_EXIT("accept4")`
  | exited {k} {s : Running KernelCall.Answer (Server σ (Fin k.threads)) (Fin k.threads) EndPoint} :
      s.shared.loop.pc = .exited → Step e (.serving k s) (.ended 1)

end ServerProcess

/-- The runs of `./http_server`, with its arguments. -/
def serverProcess {σ : Type} (e : Setting σ) (argv : List Bytes) : System (ServerProcess σ) where
  init p := ∃ k, k.Start e.limit ∧ p = .launching k (Launch.main argv)
  step := ServerProcess.Step e

end MyHttpServer
