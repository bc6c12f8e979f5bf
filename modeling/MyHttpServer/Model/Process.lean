/-
  `CgiProcess` in any number of workers at once: who holds which end of which
  pipe.

  The workers are threads of one process and share its descriptor table.  `fork`
  copies the whole table.  `pipe` sets no close-on-exec, so that `execl` keeps
  every descriptor; a CGI program does not fork, but may copy and close what it
  has.

  A descriptor table says which end of a pipe a descriptor is, if it is one:
  sockets and files are left out, and `pipe` returns any two descriptors that
  are no ends of pipes.  Pipes and processes are numbered in the order in which
  they are made.  `closed` is a record of the run that nobody reads.
-/
import MyHttpServer.Lib.System

namespace MyHttpServer

/-- One of the ends of a pipe. -/
structure PipeEnd where
  pipe : ℕ
  writes : Bool
  deriving DecidableEq

/-- `int input[2]` or `int output[2]`, with the number of the pipe. -/
structure Pipe where
  pipe : ℕ
  /-- `[0]` -/
  fd0 : ℕ
  /-- `[1]` -/
  fd1 : ℕ
  deriving DecidableEq

namespace Pipe

def readEnd (p : Pipe) : PipeEnd := ⟨p.pipe, false⟩
def writeEnd (p : Pipe) : PipeEnd := ⟨p.pipe, true⟩

end Pipe

/-- A descriptor table. -/
abbrev Fds := ℕ → Option PipeEnd

namespace Fds

def close (t : Fds) (fd : ℕ) : Fds := Function.update t fd none

def dup2 (t : Fds) (old new : ℕ) : Fds := Function.update t new (t old)

/-- `pipe(p)` -/
def pipe (t : Fds) (p : Pipe) : Fds :=
  Function.update (Function.update t p.fd0 (some p.readEnd)) p.fd1 (some p.writeEnd)

/-- `p` can be what `pipe` returns: a new pipe, with descriptors that are free. -/
def Free (t : Fds) (pipes : ℕ) (p : Pipe) : Prop :=
  p.pipe = pipes ∧ p.fd0 ≠ p.fd1 ∧ t p.fd0 = none ∧ t p.fd1 = none

end Fds

/-- Where a worker is in `CgiProcess`. -/
inductive CgiPc where
  /-- `pipe(input)` -/
  | pipeInput
  /-- `pipe(output)` -/
  | pipeOutput (input : Pipe)
  /-- `pid = fork()` -/
  | fork (input output : Pipe)
  /-- `close(input[0])` -/
  | closeInput0 (input output : Pipe) (pid : ℕ)
  /-- `close(output[1])` -/
  | closeOutput1 (input output : Pipe) (pid : ℕ)
  /-- the loops that write the body and read the output -/
  | read (input output : Pipe) (pid : ℕ)
  /-- `waitpid(pid, &status, 0)` -/
  | waitpid (input output : Pipe) (pid : ℕ)
  /-- `close(output[0])` -/
  | closeOutput0 (input output : Pipe)
  /-- `close(input[1])` -/
  | closeInput1 (input : Pipe)
  deriving DecidableEq

/-- Where a child is. -/
inductive ChildPc where
  /-- `close(input[1])` -/
  | closeInput1
  /-- `close(output[0])` -/
  | closeOutput0
  /-- `dup2(input[0], 0)` -/
  | dupInput
  /-- `dup2(output[1], 1)` -/
  | dupOutput
  /-- `execl(path.c_str(), path.c_str(), nullptr)` -/
  | execl
  /-- in the CGI program -/
  | program
  | exited
  deriving DecidableEq

/-- A child, with its copy of `input` and `output`. -/
structure Child where
  fds : Fds
  pc : ChildPc
  input : Pipe
  output : Pipe

/-- One step of a child. -/
inductive Child.Step : Child → Child → Prop
  | closeInput1 {c} : c.pc = .closeInput1 →
      Step c { c with fds := c.fds.close c.input.fd1, pc := .closeOutput0 }
  | closeOutput0 {c} : c.pc = .closeOutput0 →
      Step c { c with fds := c.fds.close c.output.fd0, pc := .dupInput }
  | dupInput {c} : c.pc = .dupInput →
      Step c { c with fds := c.fds.dup2 c.input.fd0 0, pc := .dupOutput }
  | dupOutput {c} : c.pc = .dupOutput →
      Step c { c with fds := c.fds.dup2 c.output.fd1 1, pc := .execl }
  | execl {c} : c.pc = .execl → Step c { c with pc := .program }
  | program {c fds} : c.pc = .program → (∀ fd e, fds fd = some e → ∃ fd', c.fds fd' = some e) →
      Step c { c with fds }
  -- `exit`, behind `execl` or in the program, or a signal
  | exit {c} : c.pc ≠ .exited → Step c { c with fds := fun _ => none, pc := .exited }

/-- The process of the server, with its workers, and their children. -/
structure Processes (W : Type) where
  fds : Fds
  worker : W → CgiPc
  children : ℕ → Option Child
  pipes : ℕ
  pids : ℕ
  /-- the output pipe and the child of every request whose parent has closed `output[1]` -/
  closed : List (ℕ × ℕ)

namespace Processes
variable {W : Type} [DecidableEq W]

def start : Processes W where
  fds _ := none
  worker _ := .pipeInput
  children _ := none
  pipes := 0
  pids := 0
  closed := []

def setWorker (s : Processes W) (w : W) (pc : CgiPc) : Processes W :=
  { s with worker := Function.update s.worker w pc }

/-- A worker has forked: the child has a copy of the descriptor table. -/
def fork (s : Processes W) (w : W) (input output : Pipe) : Processes W :=
  { s.setWorker w (.closeInput0 input output s.pids) with
    children := Function.update s.children s.pids (some ⟨s.fds, .closeInput1, input, output⟩)
    pids := s.pids + 1 }

/-- The child `pid` has exited. -/
def Exited (s : Processes W) (pid : ℕ) : Prop := ∃ c, s.children pid = some c ∧ c.pc = .exited

/-- Some process has a descriptor for this end. -/
def Held (s : Processes W) (e : PipeEnd) : Prop :=
  (∃ fd, s.fds fd = some e) ∨ ∃ pid c fd, s.children pid = some c ∧ c.fds fd = some e

/-- One call of one worker, or one step of a child. -/
inductive Step : Processes W → Processes W → Prop
  | pipeInput {s w input} : s.worker w = .pipeInput → s.fds.Free s.pipes input →
      Step s { s.setWorker w (.pipeOutput input) with
        fds := s.fds.pipe input, pipes := s.pipes + 1 }
  | pipeOutput {s w input output} : s.worker w = .pipeOutput input →
      s.fds.Free s.pipes output →
      Step s { s.setWorker w (.fork input output) with
        fds := s.fds.pipe output, pipes := s.pipes + 1 }
  -- `return SERVER_ERROR`, with the pipe left open
  | pipeOutput_error {s w input} : s.worker w = .pipeOutput input →
      Step s (s.setWorker w .pipeInput)
  | fork {s w input output} : s.worker w = .fork input output →
      Step s (s.fork w input output)
  -- `code = 404`, with both pipes left open
  | fork_error {s w input output} : s.worker w = .fork input output →
      Step s (s.setWorker w .pipeInput)
  | closeInput0 {s w input output pid} : s.worker w = .closeInput0 input output pid →
      Step s { s.setWorker w (.closeOutput1 input output pid) with
        fds := s.fds.close input.fd0 }
  | closeOutput1 {s w input output pid} : s.worker w = .closeOutput1 input output pid →
      Step s { s.setWorker w (.read input output pid) with
        fds := s.fds.close output.fd1, closed := (output.pipe, pid) :: s.closed }
  -- `read` returns 0 when nobody can write any more
  | read_end {s w input output pid} : s.worker w = .read input output pid →
      ¬ s.Held output.writeEnd → Step s (s.setWorker w (.waitpid input output pid))
  | waitpid {s w input output pid} : s.worker w = .waitpid input output pid → s.Exited pid →
      Step s (s.setWorker w (.closeOutput0 input output))
  | closeOutput0 {s w input output} : s.worker w = .closeOutput0 input output →
      Step s { s.setWorker w (.closeInput1 input) with fds := s.fds.close output.fd0 }
  | closeInput1 {s w input} : s.worker w = .closeInput1 input →
      Step s { s.setWorker w .pipeInput with fds := s.fds.close input.fd1 }
  | child {s pid c c'} : s.children pid = some c → c.Step c' →
      Step s { s with children := Function.update s.children pid (some c') }

/-- The runs of the workers and their children. -/
def system (W : Type) [DecidableEq W] : System (Processes W) where
  init s := s = start
  step := Step

end Processes

end MyHttpServer
