/-
  The whole server: `Loop`, the pool and the workers, on one descriptor table.

  The loop is that of `LoopState`, and its thread is the one that pushes into the
  pool: an accepted connection is pushed before the next call of `accept4`.  A
  worker of the pool that has come to `HanderTask` makes the calls of
  `Worker.handlerRequest`, one at a time, and those of all threads may be mixed in
  any way.  `open` and `pipe` give any free descriptors.  They, and `fork`, may be
  refused at any time.  `SIGCHLD` is ignored.

  What the threads print is left out, but for what a child is left with of it:
  it may be anything.  (The standard descriptors are open, so that it does not get
  to a client.)  A program uses no descriptors but 0 and 1.  The exchange with it
  is one call, and nothing says that it comes to an end.

  Connections are numbered as in `Loop`.  `serving` and `answered` are records of
  the run that nobody reads: for every worker, what its handler was started with
  and what has come of its calls, and the same for every connection that has been
  closed by a worker.
-/
import MyHttpServer.Model.Loop
import MyHttpServer.Model.ThreadPool
import MyHttpServer.Model.Worker

namespace MyHttpServer

/-- A call of `HandlerRequest(sock)`, with its memory as it was. -/
structure Serving where
  sock : ℤ
  unset : Unset
  /-- for each `open`, `pipe` and `fork` so far, whether it has been refused -/
  met : List Bool
  /-- what each of its children was left with -/
  left : List Leftover
  /-- the descriptors that it has opened, and not closed -/
  own : List ℕ

/-- The state that all threads share. -/
structure Server (σ W : Type) where
  loop : LoopState
  pool : Pool W Unit
  disk : σ
  /-- what can be read through a descriptor that a worker has opened -/
  content : ℕ → Bytes
  rx : ℕ → RecvSide
  tx : ℕ → SendSide
  serving : W → Serving
  answered : List (ℕ × Serving)

/-- What the server is run on. -/
structure Setting (σ : Type) where
  machine : Machine σ
  disk : σ
  /-- the number of descriptors that the process may have -/
  limit : ℕ
  /-- the paths that name a file in the working directory -/
  files : Bytes → Bool
  /-- the two directions of each connection, as it comes in -/
  client : ℕ → RecvSide × SendSide

namespace Server
variable {σ W : Type}

section
variable (s : Server σ W)

/-- What a descriptor is. -/
def file : ℤ → Option OpenFile
  | .ofNat fd => s.loop.fds fd
  | .negSucc _ => none

/-- The connection that a descriptor stands for. -/
def conn (fd : ℤ) : Option ℕ :=
  match s.file fd with
  | some (.conn c) => some c
  | _ => none

/-- What can be read through a descriptor. -/
def contentOf (fd : ℤ) : Option Bytes :=
  match s.file fd with
  | some .other => some (s.content fd.toNat)
  | _ => none

section
variable [DecidableEq W] (w : W)

/-- What has come of a call of `w` is recorded. -/
def note (f : Serving → Serving) : Server σ W :=
  { s with serving := Function.update s.serving w (f (s.serving w)) }

/-- The kernel has refused a call of `w`, or not. -/
def meet (refused : Bool) : Server σ W := s.note w fun r => { r with met := r.met ++ [refused] }

/-- A child of `w` has been left with something. -/
def leave (left : Leftover) : Server σ W := s.note w fun r => { r with left := r.left ++ [left] }

/-- `w` has opened `fd`. -/
def alloc (fd : ℕ) (content : Bytes) : Server σ W :=
  { s.note w fun r => { r with own := r.own ++ [fd] } with
    loop := { s.loop with fds := Function.update s.loop.fds fd (some .other) }
    content := Function.update s.content fd content }

/-- `w` has closed `fd`. -/
def closeFd (fd : ℕ) : Server σ W :=
  { s.note w fun r => { r with own := r.own.filter (· ≠ fd) } with
    loop := { s.loop with fds := s.loop.fds.close (some fd) } }

end

end

variable [DecidableEq W]

/-- A call of `w`, with its answer. -/
inductive Call (e : Setting σ) (w : W) : Server σ W → (c : KernelCall) → c.Answer →
    Server σ W → Prop
  | receive {s sock ep c} : s.conn sock = some c →
      Call e w s (.receive sock ep) (ep.recvHttpRequest (s.rx c)).1
        { s with rx := Function.update s.rx c (ep.recvHttpRequest (s.rx c)).2 }
  | receive_error {s sock ep} : s.conn sock = none →
      Call e w s (.receive sock ep) ({ ep with stop := true } : EndPoint) s
  | send {s sock bs c} : s.conn sock = some c →
      Call e w s (.send sock bs) ((s.tx c).send bs).1
        { s with tx := Function.update s.tx c ((s.tx c).send bs).2 }
  | send_error {s sock bs} : s.conn sock = none → Call e w s (.send sock bs) (-1 : ℤ) s
  | sendfile {s sock fd count c} : s.conn sock = some c →
      Call e w s (.sendfile sock fd count) ((s.tx c).sendfile (s.contentOf fd) count).1
        { s with tx := Function.update s.tx c ((s.tx c).sendfile (s.contentOf fd) count).2 }
  | sendfile_error {s sock fd count} : s.conn sock = none →
      Call e w s (.sendfile sock fd count) (-1 : ℤ) s
  | stat {s path} : Call e w s (.stat path) (e.machine.lookup s.disk (cStr path)) s
  | open {s path f fd} : e.machine.lookup s.disk (cStr path) = some f → f.readable = true →
      s.loop.fds.Free e.limit fd →
      Call e w s (.open path) ((fd : ℕ) : ℤ) ((s.alloc w fd f.content).meet w false)
  | open_missing {s path} :
      (∀ f, e.machine.lookup s.disk (cStr path) = some f → f.readable = false) →
      Call e w s (.open path) (-1 : ℤ) (s.meet w false)
  | open_refused {s path} : Call e w s (.open path) (-1 : ℤ) (s.meet w true)
  | close {s fd} : (∀ c, s.file fd ≠ some (.conn c)) →
      Call e w s (.close fd) () (if 0 ≤ fd then s.closeFd w fd.toNat else s)
  | close_conn {s fd c} : s.file fd = some (.conn c) →
      Call e w s (.close fd) ()
        { s.closeFd w fd.toNat with answered := s.answered ++ [(c, s.serving w)] }
  | pipe {s r r'} : s.loop.fds.Free e.limit r → s.loop.fds.Free e.limit r' → r ≠ r' →
      Call e w s .pipe (some (r, r')) (((s.alloc w r []).alloc w r' []).meet w false)
  | pipe_refused {s} : Call e w s .pipe none (s.meet w true)
  | fork {s} : Call e w s .fork true (s.meet w false)
  | fork_refused {s} : Call e w s .fork false (s.meet w true)
  -- the exchange with the child, if it comes to its end
  | exec {s path inp run} (left : Leftover) :
      left.childRun e.machine s.disk (cStr path) inp = run →
      Call e w s (.exec path inp) (run.output, run.ending) { s.leave w left with disk := run.disk }
  | waitpid {s ending} : Call e w s (.waitpid ending) none s

/-- A step of the loop, of the pool, or of a client. -/
inductive Env (e : Setting σ) : Server σ W → Server σ W → Prop
  -- `accept4` returns a socket, and `PushTask` is called
  | accept4 {s fd c queue} : s.loop.pc = .accept4 → s.pool.producer () = .accept →
      s.loop.fds.Free e.limit fd → s.loop.queue = c :: queue →
      Env e s { s with
        loop := { s.loop with
          fds := Function.update s.loop.fds fd (some (.conn c)), queue
          outcomes := s.loop.outcomes ++ [.sock] }
        pool := s.pool.setProducer () (.lock ⟨fd⟩) }
  -- the loop does anything else
  | loop {s l} : s.pool.producer () = .accept → s.loop.Step e.limit e.files l →
      l.pc ≠ s.loop.pc → Env e s { s with loop := l }
  | connect {s} : Env e s { s with loop := { s.loop with
      queue := s.loop.queue ++ [s.loop.connected], connected := s.loop.connected + 1 } }
  -- a statement of `PushTask` or `ThreadRoutine`, but for `HanderTask`
  | pool {s p} : s.pool.Step p → p.handled = s.pool.handled →
      (s.pool.producer () = .accept → p.producer () = .accept) → Env e s { s with pool := p }

/-- `Loop` is called, in a program with the three standard descriptors. -/
def Start (e : Setting σ) (s : Server σ W) : Prop :=
  s.loop.Start e.limit ∧ s.pool = .start ∧ s.disk = e.disk ∧
    (∀ fd < 3, s.loop.fds fd = some .other) ∧ (∀ c, (s.rx c, s.tx c) = e.client c) ∧ s.answered = []

/-- How the workers come by their handlers, and the handlers by their answers. -/
def host (W : Type) [DecidableEq W] (e : Setting σ) :
    Host KernelCall.Answer (Server σ W) W EndPoint where
  init := Start e
  env := Env e
  -- `t.HanderTask()`
  start w s p t := ∃ task u, s.pool.worker w = .handerTask task ∧
    p = Worker.handlerRequest task.1.sock u ∧
    t = { s with serving := Function.update s.serving w ⟨task.1.sock, u, [], [], []⟩ }
  call w := Call e w
  finish w s _ t := ∃ task, s.pool.worker w = .handerTask task ∧
    t = { s with pool := { s.pool.setWorker w .lock with handled := s.pool.handled ++ [task] } }

/-- The runs of the server with the workers `W`. -/
def system (W : Type) [DecidableEq W] (e : Setting σ) :
    System (Running KernelCall.Answer (Server σ W) W EndPoint) :=
  (host W e).system

end Server

end MyHttpServer
