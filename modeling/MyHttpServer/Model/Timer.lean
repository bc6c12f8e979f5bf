/-
  timer.h and timer.cc: timers in a heap, least `expire` first.

  The file does not compile as it stands: `percalate_down`, `chile`,
  `timer->->cb_func` and `TimeHeap::::tick` are read as `percolate_down`,
  `child`, `timer->cb_func` and `TimeHeap::tick`.  Sizes and indices are natural
  numbers: the capacities and every `hole*2+1` are taken to fit an `int`, as they do
  with up to 2^30 timers in at most 2^31 - 1 cells.
-/
import MyHttpServer.Lib.Fallible

namespace MyHttpServer

/-! ## Memory -/

/-- The address of a `HeapTimer`. -/
abbrev TimerPtr := ℕ

structure HeapTimer where
  expire : ℤ
  /-- the function, or `NULL` -/
  cbFunc : Option ℕ
  userData : ℕ
  deriving DecidableEq

/-- The timers that have been made and not been deleted. -/
abbrev Timers := TimerPtr → Option HeapTimer

/-- What C++ leaves undefined. -/
inductive HeapFault
  /-- an index outside of the array -/
  | index
  /-- `NULL` is followed -/
  | null
  /-- the address of a deleted timer is followed, or deleted again -/
  | deleted
  deriving DecidableEq

/-- `p->..` -/
def deref (mem : Timers) : Option TimerPtr → Except HeapFault HeapTimer
  | none => .error .null
  | some p => match mem p with
    | some t => .ok t
    | none => .error .deleted

/-- `delete p` -/
def delete (mem : Timers) (p : TimerPtr) : Except HeapFault Timers :=
  match mem p with
  | some _ => .ok (Function.update mem p none)
  | none => .error .deleted

/-- What a `HeapTimer**` points to. -/
abbrev Cells := List (Option TimerPtr)

namespace Cells

/-- `array[i]` -/
def load (array : Cells) (i : ℕ) : Except HeapFault (Option TimerPtr) :=
  match array[i]? with
  | some p => .ok p
  | none => .error .index

/-- `array[i] = p` -/
def store (array : Cells) (i : ℕ) (p : Option TimerPtr) : Except HeapFault Cells :=
  if i < array.length then .ok (array.set i p) else .error .index

/-- `array[i]->expire` -/
def expireAt (mem : Timers) (array : Cells) (i : ℕ) : Except HeapFault ℤ := do
  let p ← array.load i
  let t ← deref mem p
  return t.expire

end Cells

/-! ## The heap -/

structure TimeHeap where
  array : Cells
  capacity : ℕ
  curSize : ℕ
  deriving DecidableEq

namespace TimeHeap

/-- `TimeHeap(int cap)` -/
def new (cap : ℕ) : TimeHeap := { array := List.replicate cap none, capacity := cap, curSize := 0 }

def empty (h : TimeHeap) : Bool := h.curSize = 0

/-- `top()` -/
def top (h : TimeHeap) : Except HeapFault (Option TimerPtr) :=
  if h.empty then .ok none else h.array.load 0

def resize (h : TimeHeap) : Except HeapFault TimeHeap := do
  let temp : Cells := List.replicate (2 * h.capacity) none
  let temp ← (List.range h.curSize).foldlM
    (fun (temp : Cells) i => do temp.store i (← h.array.load i)) temp
  return { h with array := temp, capacity := 2 * h.capacity }

/-! ### Adding a timer -/

/-- The loop `for(; hole > 0; hole = parent)` of `add_timer`, on `hole` and
    `array`. -/
def addTimerLoop (mem : Timers) (timer : TimerPtr) : FallibleLoop HeapFault (ℕ × Cells) where
  cond s := 0 < s.1
  body := fun (hole, array) => do
    let parent := (hole - 1) / 2
    let above ← array.expireAt mem parent
    let t ← deref mem (some timer)
    if above ≤ t.expire then return none
    else
      let p ← array.load parent
      let array ← array.store hole p
      return some (parent, array)
  variant s := s.1
  variant_lt {s t} hc h := by
    obtain ⟨above, -, h⟩ := Except.bind_eq_ok.1 h
    obtain ⟨t, -, h⟩ := Except.bind_eq_ok.1 h
    split at h
    · cases h
    · obtain ⟨p, -, h⟩ := Except.bind_eq_ok.1 h
      obtain ⟨array, -, h⟩ := Except.bind_eq_ok.1 h
      cases h
      simp only [decide_eq_true_eq] at hc
      simp only; omega

/-- `if(cur_size >= capacity) resize();` -/
def makeRoom (h : TimeHeap) : Except HeapFault TimeHeap :=
  if h.curSize ≥ h.capacity then h.resize else .ok h

def addTimer (h : TimeHeap) (mem : Timers) : Option TimerPtr → Except HeapFault TimeHeap
  | none => .ok h
  | some timer => do
    let h ← h.makeRoom
    let (hole, array) ← (addTimerLoop mem timer).run (h.curSize, h.array)
    let array ← array.store hole (some timer)
    return { h with array, curSize := h.curSize + 1 }

/-! ### Cancelling a timer -/

/-- `timer->cb_func = NULL` -/
def delTimer (mem : Timers) : Option TimerPtr → Except HeapFault Timers
  | none => .ok mem
  | some timer => do
    let t ← deref mem (some timer)
    return Function.update mem timer (some { t with cbFunc := none })

/-! ### Taking the first timer off -/

/-- The child of `hole` with the earlier timer. -/
def childOf (mem : Timers) (curSize hole : ℕ) (array : Cells) : Except HeapFault ℕ :=
  let child := hole * 2 + 1
  if child + 1 < curSize then do
    let right ← array.expireAt mem (child + 1)
    let left ← array.expireAt mem child
    return if right < left then child + 1 else child
  else return child

theorem childOf_range {mem : Timers} {curSize hole child : ℕ} {array : Cells}
    (h : childOf mem curSize hole array = .ok child) :
    child = hole * 2 + 1 ∨ child = hole * 2 + 2 := by
  unfold childOf at h
  dsimp only at h
  split at h
  · obtain ⟨right, -, h⟩ := Except.bind_eq_ok.1 h
    obtain ⟨left, -, h⟩ := Except.bind_eq_ok.1 h
    cases h
    split_ifs <;> simp
  · cases h
    exact .inl rfl

/-- The loop `for(; ((hole*2+1) <= (cur_size-1)); hole = child)` of
    `percolate_down`, on `hole` and `array`. -/
def percolateDownLoop (mem : Timers) (curSize : ℕ) (temp : Option TimerPtr) :
    FallibleLoop HeapFault (ℕ × Cells) where
  cond s := s.1 * 2 + 1 < curSize
  body := fun (hole, array) => do
    let child ← childOf mem curSize hole array
    let below ← array.expireAt mem child
    let t ← deref mem temp
    if below < t.expire then
      let p ← array.load child
      let array ← array.store hole p
      return some (child, array)
    else return none
  variant s := curSize - s.1
  variant_lt {s t} hc h := by
    obtain ⟨child, hchild, h⟩ := Except.bind_eq_ok.1 h
    obtain ⟨below, -, h⟩ := Except.bind_eq_ok.1 h
    obtain ⟨t, -, h⟩ := Except.bind_eq_ok.1 h
    split at h
    · obtain ⟨p, -, h⟩ := Except.bind_eq_ok.1 h
      obtain ⟨array, -, h⟩ := Except.bind_eq_ok.1 h
      cases h
      have := childOf_range hchild
      simp only [decide_eq_true_eq] at hc
      simp only; omega
    · cases h

def percolateDown (mem : Timers) (h : TimeHeap) (hole : ℕ) : Except HeapFault TimeHeap := do
  let temp ← h.array.load hole
  let (hole, array) ← (percolateDownLoop mem h.curSize temp).run (hole, h.array)
  let array ← array.store hole temp
  return { h with array }

def popTimer (mem : Timers) (h : TimeHeap) : Except HeapFault (Timers × TimeHeap) :=
  if h.empty then .ok (mem, h)
  else do
    match ← h.array.load 0 with
    | none => return (mem, h)
    | some p =>
      let mem ← delete mem p
      let last ← h.array.load (h.curSize - 1)
      let array ← h.array.store 0 last
      let h ← percolateDown mem { h with array, curSize := h.curSize - 1 } 0
      return (mem, h)

theorem popTimer_curSize {mem mem' : Timers} {h h' : TimeHeap}
    (hp : popTimer mem h = .ok (mem', h')) (he : h.empty = false) :
    h'.curSize + 1 = h.curSize ∨ h' = h ∧ h.array.load 0 = .ok none := by
  rw [popTimer, if_neg (by simp [he])] at hp
  obtain ⟨p, hload, hp⟩ := Except.bind_eq_ok.1 hp
  cases p with
  | none =>
    cases hp
    exact .inr ⟨rfl, hload⟩
  | some p =>
    obtain ⟨mem₁, -, hp⟩ := Except.bind_eq_ok.1 hp
    obtain ⟨last, -, hp⟩ := Except.bind_eq_ok.1 hp
    obtain ⟨array, -, hp⟩ := Except.bind_eq_ok.1 hp
    obtain ⟨h₁, hd, hp⟩ := Except.bind_eq_ok.1 hp
    cases hp
    obtain ⟨temp, -, hd⟩ := Except.bind_eq_ok.1 hd
    obtain ⟨r, -, hd⟩ := Except.bind_eq_ok.1 hd
    obtain ⟨array', -, hd⟩ := Except.bind_eq_ok.1 hd
    cases hd
    simp only [empty, decide_eq_false_iff_not] at he
    exact .inl (by simp only; omega)

/-! ### A heap of given timers -/

/-- `TimeHeap(HeapTimer** init_array, int size, int capacity)`; `none` if it
    throws. -/
def ofArray (mem : Timers) (initArray : Cells) (size capacity : ℕ) :
    Except HeapFault (Option TimeHeap) :=
  if capacity < size then .ok none
  else
    let array : Cells := List.replicate capacity none
    if size ≠ 0 then do
      let array ← (List.range size).foldlM
        (fun (array : Cells) i => do array.store i (← initArray.load i)) array
      -- `for(int i = (cur_size-1)/2; i >= 0; i--)`
      let h ← (List.range ((size - 1) / 2 + 1)).reverse.foldlM (percolateDown mem)
        { array, capacity, curSize := size }
      return some h
    else return some { array, capacity, curSize := size }

/-- `~TimeHeap()`, with the timers that are left; `delete NULL` does nothing. -/
def destroy (mem : Timers) (h : TimeHeap) : Except HeapFault Timers :=
  (List.range h.curSize).foldlM
    (fun mem i => do
      match ← h.array.load i with
      | none => return mem
      | some p => delete mem p)
    mem

end TimeHeap

/-! ## `tick` -/

/-- What the functions `cb_func` do, in an environment of their own. -/
abbrev Callbacks (ε : Type) := ℕ → ℕ → ε × Timers × TimeHeap → ε × Timers × TimeHeap

/-- The callbacks do not touch the timers. -/
def Callbacks.Quiet {ε : Type} (call : Callbacks ε) : Prop :=
  ∀ cb data s, (call cb data s).2 = s.2

/-- The variables of `tick` at the head of its loop, and the timers whose
    callbacks it has called. -/
structure TickState (ε : Type) where
  tmp : Option TimerPtr
  env : ε
  mem : Timers
  heap : TimeHeap
  fired : List TimerPtr

namespace TimeHeap
variable {ε : Type}

/-- `if(array[0]->cb_func) array[0]->cb_func(array[0]->user_data);` -/
def fire (call : Callbacks ε) (s : TickState ε) : Except HeapFault (TickState ε) := do
  let p ← s.heap.array.load 0
  let t ← deref s.mem p
  match t.cbFunc with
  | none => return s
  | some cb =>
    let (env, mem, heap) := call cb t.userData (s.env, s.mem, s.heap)
    return { s with env, mem, heap, fired := s.fired ++ p.toList }

/-- The body of `while(!empty())`; `none` is its `break`. -/
def tickBody (call : Callbacks ε) (cur : ℤ) (s : TickState ε) :
    Except HeapFault (Option (TickState ε)) :=
  if s.tmp = none then .ok none
  else do
    let t ← deref s.mem s.tmp
    if t.expire > cur then return none
    else
      let s ← fire call s
      let (mem, heap) ← popTimer s.mem s.heap
      let tmp ← heap.array.load 0
      return some { s with mem, heap, tmp }

theorem fire_quiet {call : Callbacks ε} (hq : call.Quiet) {s t : TickState ε}
    (h : fire call s = .ok t) : t.mem = s.mem ∧ t.heap = s.heap := by
  obtain ⟨p, -, h⟩ := Except.bind_eq_ok.1 h
  obtain ⟨timer, -, h⟩ := Except.bind_eq_ok.1 h
  split at h
  · cases h
    exact ⟨rfl, rfl⟩
  · rename_i cb _
    cases h
    have hs := hq cb timer.userData (s.env, s.mem, s.heap)
    exact ⟨congrArg Prod.fst hs, congrArg Prod.snd hs⟩

/-- A round of `tick` takes a timer off the heap, or reads a `NULL`. -/
theorem tickBody_lt {call : Callbacks ε} (hq : call.Quiet) {cur : ℤ} {s t : TickState ε}
    (he : s.heap.empty = false) (h : tickBody call cur s = .ok (some t)) :
    2 * t.heap.curSize + t.tmp.toList.length < 2 * s.heap.curSize + s.tmp.toList.length := by
  unfold tickBody at h
  split at h
  · cases h
  rename_i htmp
  obtain ⟨timer, -, h⟩ := Except.bind_eq_ok.1 h
  split at h
  · cases h
  obtain ⟨s₁, hfire, h⟩ := Except.bind_eq_ok.1 h
  obtain ⟨⟨mem, heap⟩, hpop, h⟩ := Except.bind_eq_ok.1 h
  obtain ⟨tmp, hload, h⟩ := Except.bind_eq_ok.1 h
  cases h
  have hheap := (fire_quiet hq hfire).2
  rw [hheap] at hpop
  obtain ⟨p, hp⟩ := Option.ne_none_iff_exists'.1 htmp
  have hlen : tmp.toList.length ≤ 1 := by cases tmp <;> simp
  rcases popTimer_curSize hpop he with hn | ⟨rfl, hnull⟩
  · simp only [hp, Option.toList_some, List.length_singleton]
    omega
  · rw [hnull] at hload
    cases hload
    simp [hp]

def tickLoop (call : Callbacks ε) (hq : call.Quiet) (cur : ℤ) :
    FallibleLoop HeapFault (TickState ε) where
  cond s := ! s.heap.empty
  body := tickBody call cur
  variant s := 2 * s.heap.curSize + s.tmp.toList.length
  variant_lt hc h := tickBody_lt hq (by simpa using hc) h

/-- `tick()` when the clock reads `cur`. -/
def tick (call : Callbacks ε) (hq : call.Quiet) (cur : ℤ) (env : ε) (mem : Timers)
    (heap : TimeHeap) : Except HeapFault (TickState ε) := do
  let tmp ← heap.array.load 0
  (tickLoop call hq cur).run { tmp, env, mem, heap, fired := [] }

end TimeHeap

/-! ## Calls from outside -/

/-- A call on a `TimeHeap`; the clock reads `cur` at a `tick`. -/
inductive TimerCall
  | add (timer : TimerPtr)
  | del (timer : TimerPtr)
  | tick (cur : ℤ)
  deriving DecidableEq

structure TimerSystem (ε : Type) where
  env : ε
  mem : Timers
  heap : TimeHeap

namespace TimerSystem
variable {ε : Type} (call : Callbacks ε) (hq : call.Quiet)

/-- One call, with the timers it fires. -/
def perform (s : TimerSystem ε) : TimerCall → Except HeapFault (List TimerPtr × TimerSystem ε)
  | .add timer => do
    let heap ← s.heap.addTimer s.mem (some timer)
    return ([], { s with heap })
  | .del timer => do
    let mem ← TimeHeap.delTimer s.mem (some timer)
    return ([], { s with mem })
  | .tick cur => do
    let t ← TimeHeap.tick call hq cur s.env s.mem s.heap
    return (t.fired, { env := t.env, mem := t.mem, heap := t.heap })

/-- The calls one after the other, with what each of them fires. -/
def performAll (s : TimerSystem ε) :
    List TimerCall → Except HeapFault (List (List TimerPtr) × TimerSystem ε)
  | [] => .ok ([], s)
  | c :: cs => do
    let (now, s) ← s.perform call hq c
    let (later, s) ← performAll s cs
    return (now :: later, s)

end TimerSystem

end MyHttpServer
