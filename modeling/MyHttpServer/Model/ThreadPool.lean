/-
  thread_pool.h and thread_pool.cc: the queue of tasks, with any number of
  workers and of threads that push.

  A thread is at one statement of `ThreadRoutine` or `PushTask` at a time, and
  every rule of `Pool.Step` is one statement of one thread.  The mutex has an
  owner; `pthread_cond_wait` gives it up and falls asleep in one step;
  `pthread_cond_signal` wakes a sleeper if there is one.  A sleeper may also
  wake for no reason, so that a signal that wakes several is a signal and some
  wake-ups of that kind.

  The tasks are numbered in the order in which they are pushed.  `pushed`,
  `popped` and `handled` are a record of the run that no thread reads.
-/
import MyHttpServer.Lib.System

namespace MyHttpServer

/-- `Task(sock)` -/
structure Task where
  sock : ℤ
  deriving DecidableEq

/-- A task with its number. -/
abbrev Numbered := Task × ℕ

/-- Where a worker is in `ThreadRoutine`. -/
inductive WorkerPc where
  /-- `thread->Lock()` -/
  | lock
  /-- `while(thread->Size() == 0)` -/
  | size
  /-- `thread->Wait()` -/
  | wait
  /-- in `pthread_cond_wait`, without the mutex and without a wake-up -/
  | asleep
  /-- in `pthread_cond_wait`, awake, before it has the mutex again -/
  | woken
  /-- `thread->PopTask(t)` -/
  | popTask
  /-- `thread->UnLock()` -/
  | unLock (t : Numbered)
  /-- `t.HanderTask()` -/
  | handerTask (t : Numbered)
  deriving DecidableEq

/-- Where a producer is in `PushTask`. -/
inductive ProducerPc where
  /-- before a call of `PushTask` -/
  | accept
  /-- `Lock()` -/
  | lock (t : Task)
  /-- `m_q.push(in)` -/
  | push (t : Task)
  /-- `UnLock()` -/
  | unLock
  /-- `if(m_q.size() > 0)` -/
  | size
  /-- `SignalThread()` -/
  | signalThread
  deriving DecidableEq

structure Pool (W P : Type) where
  q : List Numbered
  mutex : Option (W ⊕ P)
  worker : W → WorkerPc
  producer : P → ProducerPc
  pushed : List Task
  popped : List Numbered
  handled : List Numbered

namespace Pool
variable {W P : Type} [DecidableEq W] [DecidableEq P]

/-- The state after `InitThreadPool`. -/
def start : Pool W P where
  q := []
  mutex := none
  worker _ := .lock
  producer _ := .accept
  pushed := []
  popped := []
  handled := []

def setWorker (s : Pool W P) (w : W) (pc : WorkerPc) : Pool W P :=
  { s with worker := Function.update s.worker w pc }

def setProducer (s : Pool W P) (p : P) (pc : ProducerPc) : Pool W P :=
  { s with producer := Function.update s.producer p pc }

/-- One statement of one thread, or a wake-up. -/
inductive Step : Pool W P → Pool W P → Prop
  -- ThreadRoutine
  | lock {s w} : s.worker w = .lock → s.mutex = none →
      Step s { s.setWorker w .size with mutex := some (.inl w) }
  | size_zero {s w} : s.worker w = .size → s.q = [] → Step s (s.setWorker w .wait)
  | size_pos {s w} : s.worker w = .size → s.q ≠ [] → Step s (s.setWorker w .popTask)
  | wait {s w} : s.worker w = .wait → Step s { s.setWorker w .asleep with mutex := none }
  | wake {s w} : s.worker w = .asleep → Step s (s.setWorker w .woken)
  | relock {s w} : s.worker w = .woken → s.mutex = none →
      Step s { s.setWorker w .size with mutex := some (.inl w) }
  | popTask {s w t q} : s.worker w = .popTask → s.q = t :: q →
      Step s { s.setWorker w (.unLock t) with q, popped := s.popped ++ [t] }
  | unLock {s w t} : s.worker w = .unLock t →
      Step s { s.setWorker w (.handerTask t) with mutex := none }
  | handerTask {s w t} : s.worker w = .handerTask t →
      Step s { s.setWorker w .lock with handled := s.handled ++ [t] }
  -- PushTask
  | accept {s p} (t : Task) : s.producer p = .accept → Step s (s.setProducer p (.lock t))
  | push_lock {s p t} : s.producer p = .lock t → s.mutex = none →
      Step s { s.setProducer p (.push t) with mutex := some (.inr p) }
  | push {s p t} : s.producer p = .push t →
      Step s { s.setProducer p .unLock with
        q := s.q ++ [(t, s.pushed.length)], pushed := s.pushed ++ [t] }
  | push_unLock {s p} : s.producer p = .unLock →
      Step s { s.setProducer p .size with mutex := none }
  | push_size_pos {s p} : s.producer p = .size → 0 < s.q.length →
      Step s (s.setProducer p .signalThread)
  | push_size_zero {s p} : s.producer p = .size → ¬ 0 < s.q.length →
      Step s (s.setProducer p .accept)
  | signal {s p w} : s.producer p = .signalThread → s.worker w = .asleep →
      Step s ((s.setWorker w .woken).setProducer p .accept)
  | signal_none {s p} : s.producer p = .signalThread → (∀ w, s.worker w ≠ .asleep) →
      Step s (s.setProducer p .accept)

/-- The runs of the pool. -/
def system (W P : Type) [DecidableEq W] [DecidableEq P] : System (Pool W P) where
  init s := s = start
  step := Step

end Pool

end MyHttpServer
