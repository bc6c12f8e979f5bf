/-
  The operating system below one request: files, descriptors, child processes.

  `Machine` fixes what is on the disk for a state of it: what a path names and
  which program a path starts.  A CGI program is any function of what it is meant
  to be started with and of the disk, and may change the disk.  `Os` is the
  state of the server process, with a list that says which of the following
  `open`, `pipe` and `fork` calls the kernel refuses for lack of resources.  A
  run of a program takes its whole input and ends; waiting on full pipes is
  not modelled.

  `Os.trace` records the calls made, for stating what a run has done; no
  function of the server reads it.
-/
import MyHttpServer.Model.Cpp

namespace MyHttpServer

/-! ## Files -/

def S_IFMT : UInt32 := 0o170000
def S_IFDIR : UInt32 := 0o040000
def S_IFREG : UInt32 := 0o100000
def S_IXUSR : UInt32 := 0o100
def S_IXGRP : UInt32 := 0o010
def S_IXOTH : UInt32 := 0o001

/-- `S_ISDIR(mode)` -/
def isDir (mode : UInt32) : Bool := mode &&& S_IFMT == S_IFDIR

/-- `S_ISREG(mode)` -/
def isReg (mode : UInt32) : Bool := mode &&& S_IFMT == S_IFREG

/-- A file of any type. -/
structure Inode where
  /-- `st_mode` -/
  mode : UInt32
  /-- `st_size` -/
  size : ℕ
  /-- what can be read out of it -/
  content : Bytes
  /-- whether the server may open it for reading -/
  readable : Bool
  size_eq : isReg mode = true → size = content.length

/-! ## Programs -/

/-- What a CGI program is meant to be started with: the strings that are put into
    its environment and what it can read from descriptor 0. -/
structure CgiInput where
  env : List Bytes
  stdin : Bytes
  deriving DecidableEq

/-- What it is started with.  All strings but `method_env` have been given back by
    then, and `found` says what is there now, where the given text was. -/
def CgiInput.released (inp : CgiInput) (found : Bytes → Bytes) : CgiInput :=
  { inp with env := inp.env.take 1 ++ (inp.env.drop 1).map found }

/-- How a process ends. -/
inductive ChildEnd where
  | exited (code : ℕ)
  | signaled (sig : ℕ)
  deriving DecidableEq

/-- A finished run of a program: its output, its end, and the disk after it. -/
structure CgiRun (σ : Type) where
  output : Bytes
  ending : ChildEnd
  disk : σ

/-- A program, with what its child does before `execl`, as a function of what it is
    meant to be started with.  It may be any function: what a program makes of
    strings that are gone is one of them. -/
abbrev Program (σ : Type) := CgiInput → σ → CgiRun σ

/-- The machine, over the states `σ` of its disk. -/
structure Machine (σ : Type) where
  /-- the file a path names, links resolved -/
  lookup : σ → Bytes → Option Inode
  /-- the program that `execl` of a path starts, if it starts one -/
  program : σ → Bytes → Option (Program σ)

/-- The status word of a finished child. -/
def ChildEnd.status : ChildEnd → ℕ
  | .exited code => code % 256 * 256
  | .signaled sig => sig % 128

def WIFEXITED (status : ℕ) : Bool := status % 128 = 0

/-- `((signed char)((status & 0x7f) + 1) >> 1) > 0` -/
def WIFSIGNALED (status : ℕ) : Bool := 0 < Int.bmod (status % 128 + 1) 256 / 2

/-! ## The server process -/

/-- What a signal does. -/
inductive Disposition where
  | default
  | ignore
  deriving DecidableEq

inductive SysCall where
  | stat (path : Bytes)
  | open (path : Bytes) (fd : ℤ)
  | pipe (ends : Option (ℕ × ℕ))
  | fork (pid : Bool)
  | exec (path : Bytes) (started : Bool)
  | waitpid
  | close (fd : ℤ)
  deriving DecidableEq

structure Os (σ : Type) where
  disk : σ
  /-- the open descriptors, with what can be read through each -/
  fds : List (ℕ × Bytes)
  /-- for each following `open`, `pipe` and `fork`: does the kernel refuse it? -/
  refusals : List Bool
  /-- the disposition of `SIGCHLD` -/
  sigchld : Disposition
  trace : List SysCall := []

namespace Os
variable {σ : Type} (M : Machine σ) (os : Os σ)

/-- The descriptors in use. -/
def used : List ℕ := os.fds.map Prod.fst

def note (c : SysCall) : Os σ := { os with trace := os.trace ++ [c] }

/-- Does the kernel refuse the next call, and the state after asking. -/
def refuse : Bool × Os σ :=
  (os.refusals.headD false, { os with refusals := os.refusals.tail })

/-- The least descriptor that is not in use. -/
def lowestFree : ℕ := ((List.range (os.used.length + 1)).find? (· ∉ os.used)).getD 0

/-- A new descriptor, the lowest free one. -/
def alloc (content : Bytes) : ℕ × Os σ :=
  (os.lowestFree, { os with fds := os.fds ++ [(os.lowestFree, content)] })

/-- `stat(path, &st)` -/
def stat (path : Bytes) : Option Inode × Os σ :=
  (M.lookup os.disk (cStr path), os.note (.stat (cStr path)))

/-- `open(path, O_RDONLY)` -/
def openFile (path : Bytes) : ℤ × Os σ :=
  match os.refuse with
  | (true, os) => (-1, os.note (.open (cStr path) (-1)))
  | (false, os) =>
    match M.lookup os.disk (cStr path) with
    | some f =>
      if f.readable then
        let (fd, os) := os.alloc f.content
        (fd, os.note (.open (cStr path) fd))
      else (-1, os.note (.open (cStr path) (-1)))
    | none => (-1, os.note (.open (cStr path) (-1)))

/-- `close(fd)` -/
def close (fd : ℤ) : Os σ :=
  { os with fds := os.fds.filter fun e => (e.1 : ℤ) ≠ fd, trace := os.trace ++ [.close fd] }

/-- What can be read through `fd`; `none` if it is not open. -/
def contentOf (fd : ℤ) : Option Bytes :=
  (os.fds.find? fun e => (e.1 : ℤ) = fd).map Prod.snd

/-- `pipe(fds)`: the read end and the write end. -/
def pipe : Option (ℕ × ℕ) × Os σ :=
  match os.refuse with
  | (true, os) => (none, os.note (.pipe none))
  | (false, os) =>
    let (r, os) := os.alloc []
    let (w, os) := os.alloc []
    (some (r, w), os.note (.pipe (some (r, w))))

/-- `fork()`, in the parent: is there a child? -/
def fork : Bool × Os σ :=
  match os.refuse with
  | (true, os) => (false, os.note (.fork false))
  | (false, os) => (true, os.note (.fork true))

/-- The life of a child that calls `execl(path, path, nullptr)` and, should
    that fail, prints "execl error" and exits with 1. -/
def runChild (path : Bytes) (inp : CgiInput) : CgiRun σ × Os σ :=
  match M.program os.disk (cStr path) with
  | some prog =>
    let run := prog inp os.disk
    (run, { os with disk := run.disk, trace := os.trace ++ [.exec (cStr path) true] })
  | none => (⟨str "execl error\n", .exited 1, os.disk⟩, os.note (.exec (cStr path) false))

/-- `waitpid(pid, &status, 0)` for a child of the given end: the status, if the
    call returns the child's pid.  With `SIGCHLD` ignored the child leaves no
    status behind and the call fails with `ECHILD`. -/
def waitpid (ending : ChildEnd) : Option ℕ × Os σ :=
  match os.sigchld with
  | .ignore => (none, os.note .waitpid)
  | .default => (some ending.status, os.note .waitpid)

end Os

end MyHttpServer
