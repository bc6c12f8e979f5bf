/-
  http_server.cc: `InitServer`, and `Loop` with the descriptor table and the
  listen queue.

  A step of `Loop` is a system call of the loop, a connection that comes in, or an `open`
  or `close` of another thread, which closes nothing that the loop holds.
  `accept4`, `accept` and `open` fail with `EMFILE` if and only if none of the
  `limit` descriptors is free; `accept` fails for no other reason, and waits
  while nothing is pending.  What the loop does with an accepted connection, and
  what it logs, is left out.

  Connections are numbered in the order in which they come in.  `outcomes` and
  `handled` are records of the run that nobody reads.
-/
import MyHttpServer.Lib.System
import MyHttpServer.Model.Os

namespace MyHttpServer

/-- `InitServer`: `signal(SIGCHLD, SIG_IGN)`.  (What it does to `SIGPIPE` plays no
    part here, and the singletons are made in `Startup`.) -/
def HttpServer.initServer {σ : Type} (os : Os σ) : Os σ := { os with sigchld := .ignore }

/-- What a descriptor of the server is. -/
inductive OpenFile
  | null
  | listen
  | conn (c : ℕ)
  | other
  deriving DecidableEq

/-- The descriptor table. -/
abbrev OpenFiles := ℕ → Option OpenFile

namespace OpenFiles

/-- `close(fd)`, where `none` is -1. -/
def close (t : OpenFiles) : Option ℕ → OpenFiles
  | some fd => Function.update t fd none
  | none => t

def Free (limit : ℕ) (t : OpenFiles) (fd : ℕ) : Prop := fd < limit ∧ t fd = none

def Full (limit : ℕ) (t : OpenFiles) : Prop := ∀ fd < limit, t fd ≠ none

instance (limit : ℕ) (t : OpenFiles) (fd : ℕ) : Decidable (t.Free limit fd) :=
  inferInstanceAs (Decidable (_ ∧ _))

instance (limit : ℕ) (t : OpenFiles) : Decidable (t.Full limit) :=
  inferInstanceAs (Decidable (∀ fd < limit, t fd ≠ none))

end OpenFiles

/-- How a call of `accept4` ends. -/
inductive Accept4
  | sock
  | EMFILE
  | error
  deriving DecidableEq

/-- Where the loop is, and in the treatment of an `EMFILE` whether a connection
    was pending at its `accept4`, and which one has been accepted. -/
inductive LoopPc
  | accept4
  /-- `close(idlefd);`, the first one -/
  | closeIdle (pending : Bool)
  /-- `idlefd = accept(listen_sock, NULL, NULL);` -/
  | accept (pending : Bool)
  /-- `close(idlefd);`, the second one -/
  | closeAccepted (pending : Bool) (conn : Option ℕ)
  /-- `idlefd = open("dev/null", O_RDONLY | O_CLOEXEC);` -/
  | openNull (pending : Bool) (conn : Option ℕ)
  /-- `ERR_EXIT("accept4")` -/
  | exited
  deriving DecidableEq

/-- In the treatment of an `EMFILE`. -/
def LoopPc.handling : LoopPc → Bool
  | .accept4 | .exited => false
  | _ => true

/-- An `EMFILE` that has been treated. -/
structure Treatment where
  pending : Bool
  conn : Option ℕ
  deriving DecidableEq

structure LoopState where
  fds : OpenFiles
  /-- the connections that are pending -/
  queue : List ℕ
  connected : ℕ
  /-- `none` is -1 -/
  idlefd : Option ℕ
  pc : LoopPc
  outcomes : List Accept4
  handled : List Treatment

namespace LoopState

/-- The constructor has opened `/dev/null`, and `Loop` is called. -/
def Start (limit : ℕ) (s : LoopState) : Prop :=
  (∃ fd, s.idlefd = some fd ∧ s.fds fd = some .null) ∧ s.pc = .accept4 ∧
    (∀ fd, s.fds fd ≠ none → fd < limit) ∧ (∀ fd c, s.fds fd ≠ some (.conn c)) ∧
    s.queue = [] ∧ s.connected = 0 ∧ s.outcomes = [] ∧ s.handled = []

/-- What only the loop closes. -/
def Holds (s : LoopState) (f : OpenFile) : Prop :=
  f = .listen ∨ f = .null ∨ ∃ p c, s.pc = .closeAccepted p (some c) ∧ f = .conn c

/-- One step; `files` are the paths that name a file. -/
inductive Step (limit : ℕ) (files : Bytes → Bool) : LoopState → LoopState → Prop
  | accept4_sock {s fd c queue} : s.pc = .accept4 → s.fds.Free limit fd → s.queue = c :: queue →
      Step limit files s { s with
        fds := Function.update s.fds fd (some (.conn c)), queue, outcomes := s.outcomes ++ [.sock] }
  | accept4_EMFILE {s} : s.pc = .accept4 → s.fds.Full limit →
      Step limit files s { s with
        pc := .closeIdle (s.queue ≠ []), outcomes := s.outcomes ++ [.EMFILE] }
  | accept4_error {s} : s.pc = .accept4 →
      Step limit files s { s with pc := .exited, outcomes := s.outcomes ++ [.error] }
  | closeIdle {s p} : s.pc = .closeIdle p →
      Step limit files s { s with fds := s.fds.close s.idlefd, pc := .accept p }
  | accept {s p fd c queue} : s.pc = .accept p → s.fds.Free limit fd → s.queue = c :: queue →
      Step limit files s { s with
        fds := Function.update s.fds fd (some (.conn c)), queue
        idlefd := some fd, pc := .closeAccepted p (some c) }
  | accept_EMFILE {s p} : s.pc = .accept p → s.fds.Full limit →
      Step limit files s { s with idlefd := none, pc := .closeAccepted p none }
  | closeAccepted {s p conn} : s.pc = .closeAccepted p conn →
      Step limit files s { s with fds := s.fds.close s.idlefd, pc := .openNull p conn }
  | openNull {s p conn fd} : s.pc = .openNull p conn → files (str "dev/null") = true →
      s.fds.Free limit fd →
      Step limit files s { s with
        fds := Function.update s.fds fd (some .null)
        idlefd := some fd, pc := .accept4, handled := s.handled ++ [⟨p, conn⟩] }
  | openNull_error {s p conn} : s.pc = .openNull p conn →
      files (str "dev/null") = false ∨ s.fds.Full limit →
      Step limit files s { s with
        idlefd := none, pc := .accept4, handled := s.handled ++ [⟨p, conn⟩] }
  | connect {s} : Step limit files s { s with
      queue := s.queue ++ [s.connected], connected := s.connected + 1 }
  | other_open {s fd} : s.fds.Free limit fd →
      Step limit files s { s with fds := Function.update s.fds fd (some .other) }
  | other_close {s fd f} : s.fds fd = some f → ¬ s.Holds f →
      Step limit files s { s with fds := s.fds.close (some fd) }

/-- The runs of the loop. -/
def loop (limit : ℕ) (files : Bytes → Bool) : System LoopState where
  init := Start limit
  step := Step limit files

end LoopState

end MyHttpServer
