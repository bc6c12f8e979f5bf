/-
  Runs of calls on a `TimeHeap`, from outside and from the callbacks of `tick`.

  A callback may itself call the heap whose `tick` has called it, so that a call of
  `tick` is not over at once.  A run is a sequence of actions: the calls, and what
  the `tick` that was called last does next.
-/
import MyHttpServer.Model.Timer

namespace MyHttpServer

/-- How a `TimeHeap` is made. -/
inductive HeapStart
  | new (cap : ℕ)
  | ofArray (initArray : Cells) (size capacity : ℕ)

/-- The heap, if it is not refused. -/
def HeapStart.make (mem : Timers) : HeapStart → Except HeapFault (Option TimeHeap)
  | .new cap => .ok (some (.new cap))
  | .ofArray initArray size capacity => TimeHeap.ofArray mem initArray size capacity

/-- What happens to a timer. -/
inductive TimerEvent
  | added (p : TimerPtr)
  /-- its callback is called -/
  | ran (p : TimerPtr)
  | deleted (p : TimerPtr)
  deriving DecidableEq

/-- A call of `tick` that has not returned. -/
structure TickCall where
  tmp : Option TimerPtr
  cur : ℤ
  /-- the timer whose callback has been called and has not returned; without one
  `tick` is at the head of its loop -/
  running : Option TimerPtr := none
  deriving DecidableEq

structure HeapRun where
  mem : Timers
  heap : TimeHeap
  /-- the last call first -/
  ticks : List TickCall := []
  events : List TimerEvent := []

/-- A call on the heap; the clock reads `cur` at a `tick`. -/
inductive HeapCall
  | add (timer : Option TimerPtr)
  | pop
  | del (timer : Option TimerPtr)
  | tick (cur : ℤ)
  deriving DecidableEq

inductive HeapAction
  | call (c : HeapCall)
  /-- `tick` goes on: from the head of its loop, or when the callback returns -/
  | go
  deriving DecidableEq

namespace HeapRun

/-- `tick` is at the head of its loop, so that no call can be made. -/
def busy (s : HeapRun) : Bool :=
  match s.ticks with
  | [] => false
  | t :: _ => t.running.isNone

def addTimer (s : HeapRun) (timer : Option TimerPtr) : Except HeapFault HeapRun := do
  let heap ← s.heap.addTimer s.mem timer
  return { s with heap, events := s.events ++ timer.toList.map .added }

def popTimer (s : HeapRun) : Except HeapFault HeapRun := do
  let p ← s.heap.top
  let (mem, heap) ← TimeHeap.popTimer s.mem s.heap
  return { s with mem, heap, events := s.events ++ p.toList.map .deleted }

def delTimer (s : HeapRun) (timer : Option TimerPtr) : Except HeapFault HeapRun := do
  let mem ← TimeHeap.delTimer s.mem timer
  return { s with mem }

/-- `HeapTimer* tmp = array[0]; time_t cur = time(NULL);` -/
def tick (s : HeapRun) (cur : ℤ) : Except HeapFault HeapRun := do
  let tmp ← s.heap.array.load 0
  return { s with ticks := { tmp, cur } :: s.ticks }

/-- `pop_timer(); tmp = array[0];` -/
def finish (s : HeapRun) (t : TickCall) (ticks : List TickCall) : Except HeapFault HeapRun := do
  let s ← s.popTimer
  let tmp ← s.heap.array.load 0
  return { s with ticks := { t with tmp, running := none } :: ticks }

/-- The body of `while(!empty())`, up to the callback if there is one. -/
def enter (s : HeapRun) (t : TickCall) (ticks : List TickCall) : Except HeapFault HeapRun :=
  if s.heap.empty then .ok { s with ticks }
  else if t.tmp = none then .ok { s with ticks }
  else do
    let timer ← deref s.mem t.tmp
    if timer.expire > t.cur then return { s with ticks }
    else
      let p ← s.heap.array.load 0
      let first ← deref s.mem p
      match first.cbFunc with
      | none => s.finish t ticks
      | some _ => return { s with
          ticks := { t with running := p } :: ticks
          events := s.events ++ p.toList.map .ran }

/-- What the last `tick` does next. -/
def go (s : HeapRun) : Except HeapFault HeapRun :=
  match s.ticks with
  | [] => .ok s
  | t :: ticks => if t.running.isSome then s.finish t ticks else s.enter t ticks

def call (s : HeapRun) : HeapCall → Except HeapFault HeapRun
  | .add timer => s.addTimer timer
  | .pop => s.popTimer
  | .del timer => s.delTimer timer
  | .tick cur => s.tick cur

/-- One action.  A call that cannot be made now is left out. -/
def act (s : HeapRun) : HeapAction → Except HeapFault HeapRun
  | .call c => if s.busy then .ok s else s.call c
  | .go => s.go

def run (s : HeapRun) (as : List HeapAction) : Except HeapFault HeapRun := as.foldlM act s

end HeapRun

end MyHttpServer
