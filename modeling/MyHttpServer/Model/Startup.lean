/-
  `ThreadPool::GetThreadPool` and `TcpServer::GetTcpServer`, called by any number
  of threads.

  A step is one read or write of the static pointer, one operation on the mutex,
  one `new`, or one call of the initialisation; where such a call fails and the
  process exits, the run ends.  Instances are numbered in the order in which they
  are made.
-/
import MyHttpServer.Lib.System

namespace MyHttpServer

/-- Where a thread is. -/
inductive StartupPc
  | idle
  /-- the first `if(m_sigle_instance == nullptr)` -/
  | firstCheck
  /-- `pthread_mutex_lock(&_mutex);` -/
  | lock
  /-- the second `if(m_sigle_instance == nullptr)` -/
  | secondCheck
  /-- `new ThreadPool()` -/
  | construct
  /-- `m_sigle_instance = ` the instance that has been made -/
  | store (i : ℕ)
  /-- reads the pointer for `m_sigle_instance->InitThreadPool();` -/
  | call
  /-- in `InitThreadPool()`, with the number of calls that are to be made yet -/
  | init (i left : ℕ)
  /-- `pthread_mutex_unlock(&_mutex);` -/
  | unlock
  /-- `return m_sigle_instance;` -/
  | read
  | returned (p : Option ℕ)
  deriving DecidableEq

/-- The threads `W`, and what they share. -/
structure Startup (W : Type) where
  /-- `m_sigle_instance` or `m_tcp_svr`; `none` is `nullptr` -/
  pointer : Option ℕ
  /-- the thread that holds the mutex -/
  mutex : Option W
  constructed : ℕ
  /-- how many calls of its initialisation have been made, for each instance -/
  done : ℕ → ℕ
  pc : W → StartupPc

namespace Startup
variable {W : Type} [DecidableEq W]

def start : Startup W where
  pointer := none
  mutex := none
  constructed := 0
  done _ := 0
  pc _ := .idle

def setPc (s : Startup W) (w : W) (pc : StartupPc) : Startup W :=
  { s with pc := Function.update s.pc w pc }

/-- One step of one thread; the initialisation makes `calls` calls. -/
inductive Step (calls : ℕ) : Startup W → Startup W → Prop
  | enter {s w} : s.pc w = .idle ∨ (∃ p, s.pc w = .returned p) →
      Step calls s (s.setPc w .firstCheck)
  | firstCheck_null {s w} : s.pc w = .firstCheck → s.pointer = none →
      Step calls s (s.setPc w .lock)
  | firstCheck {s w} : s.pc w = .firstCheck → s.pointer ≠ none →
      Step calls s (s.setPc w .read)
  | lock {s w} : s.pc w = .lock → s.mutex = none →
      Step calls s { s.setPc w .secondCheck with mutex := some w }
  | secondCheck_null {s w} : s.pc w = .secondCheck → s.pointer = none →
      Step calls s (s.setPc w .construct)
  | secondCheck {s w} : s.pc w = .secondCheck → s.pointer ≠ none →
      Step calls s (s.setPc w .unlock)
  | construct {s w} : s.pc w = .construct →
      Step calls s { s.setPc w (.store s.constructed) with constructed := s.constructed + 1 }
  | store {s w i} : s.pc w = .store i →
      Step calls s { s.setPc w .call with pointer := some i }
  | call {s w i} : s.pc w = .call → s.pointer = some i →
      Step calls s (s.setPc w (.init i calls))
  | init {s w i left} : s.pc w = .init i (left + 1) →
      Step calls s { s.setPc w (.init i left) with done := Function.update s.done i (s.done i + 1) }
  | init_end {s w i} : s.pc w = .init i 0 → Step calls s (s.setPc w .unlock)
  | unlock {s w} : s.pc w = .unlock →
      Step calls s { s.setPc w .read with mutex := none }
  | read {s w} : s.pc w = .read → Step calls s (s.setPc w (.returned s.pointer))

/-- The runs of the threads. -/
def system (W : Type) [DecidableEq W] (calls : ℕ) : System (Startup W) where
  init s := s = start
  step := Step calls

end Startup

/-! ## The two functions -/

def NUM : ℕ := 3

/-- `GetThreadPool()`: `InitThreadPool` calls `pthread_create` for each thread of the pool. -/
def getThreadPool (W : Type) [DecidableEq W] : System (Startup W) := Startup.system W NUM

/-- `GetTcpServer(port)`: `InitServer` calls `Socket`, `Bind` and `Listen`. -/
def getTcpServer (W : Type) [DecidableEq W] : System (Startup W) := Startup.system W 3

end MyHttpServer
