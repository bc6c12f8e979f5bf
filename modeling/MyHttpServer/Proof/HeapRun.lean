/-
  The heap of timers in every run, with calls from outside and from callbacks.

  A run goes on as long as it does not follow `NULL` or a deleted timer.  What it
  does until then is what it would do if no timer was ever deleted (`undeleted`), so
  that nothing need be assumed of the timers that are added.

  * `addTimer_ok`, `popTimer_ok`: what a call has done if it returns;
  * `Sound.act`: the heap stays one of the timers that have been added and not
    deleted;
  * `heap_run`: every run from both of the constructors.
-/
import MyHttpServer.Model.HeapRun
import MyHttpServer.Proof.Timer

namespace MyHttpServer

open Function

/-! ## More timers in memory -/

namespace Timers
variable {key : TimerPtr → ℤ} {mem mem' : Timers}

/-- The timers of `mem` are timers of `mem'`. -/
def Within (mem mem' : Timers) : Prop := ∀ p t, mem p = some t → mem' p = some t

/-- The timers expire at the times `key`. -/
def Timed (key : TimerPtr → ℤ) (mem : Timers) : Prop := ∀ p t, mem p = some t → t.expire = key p

/-- The memory in which no timer has been deleted. -/
def undeleted (key : TimerPtr → ℤ) (mem : Timers) : Timers :=
  fun p => some ((mem p).getD { expire := key p, cbFunc := none, userData := 0 })

theorem within_undeleted (key : TimerPtr → ℤ) (mem : Timers) : mem.Within (mem.undeleted key) := by
  intro p t h
  rw [undeleted, h, Option.getD_some]

theorem alive_undeleted (key : TimerPtr → ℤ) (mem : Timers) (p : TimerPtr) :
    (mem.undeleted key).Alive p := ⟨_, rfl⟩

theorem Timed.expire_undeleted (h : mem.Timed key) : (mem.undeleted key).expire = key := by
  funext p
  cases hp : mem p with
  | none => simp [expire, undeleted, hp]
  | some t => simp [expire, undeleted, hp, h p t hp]

theorem timed_expire (mem : Timers) : mem.Timed mem.expire := by
  intro p t h
  simp [expire, h]

theorem Timed.expire_eq (h : mem.Timed key) {p : TimerPtr} (ha : mem.Alive p) :
    mem.expire p = key p := by
  obtain ⟨t, ht⟩ := ha
  simp [expire, ht, h p t ht]

theorem Timed.delete (h : mem.Timed key) (p : TimerPtr) :
    Timed key (update mem p none) := by
  intro q t hq
  by_cases hqp : q = p
  · subst hqp
    simp at hq
  · rw [update_of_ne hqp] at hq
    exact h q t hq

end Timers

theorem deref_ok {mem : Timers} {p : Option TimerPtr} {t : HeapTimer} (h : deref mem p = .ok t) :
    ∃ q, p = some q ∧ mem q = some t := by
  cases p with
  | none => cases h
  | some q =>
    refine ⟨q, rfl, ?_⟩
    rw [deref] at h
    split at h
    · rename_i hq
      cases h
      exact hq
    · cases h

theorem delete_ok {mem mem' : Timers} {p : TimerPtr} (h : delete mem p = .ok mem') :
    mem.Alive p ∧ mem' = update mem p none := by
  rw [delete] at h
  split at h
  · rename_i t ht
    cases h
    exact ⟨⟨t, ht⟩, rfl⟩
  · cases h

namespace TimeHeap

section
variable {mem mem' : Timers} (h : mem.Within mem')
include h

/-! ### The same result -/

theorem deref_within (p : Option TimerPtr) : (deref mem p).Within (deref mem' p) := by
  intro t ht
  obtain ⟨q, rfl, hq⟩ := deref_ok ht
  rw [deref, h q t hq]

theorem expireAt_within (array : Cells) (i : ℕ) :
    (array.expireAt mem i).Within (array.expireAt mem' i) :=
  (Except.Within.refl _).bind fun _ => (deref_within h _).bind fun _ => .refl _

theorem addTimer_within (heap : TimeHeap) (x : TimerPtr) :
    (addTimer heap mem (some x)).Within (addTimer heap mem' (some x)) := by
  have hloop : ∀ s, ((addTimerLoop mem x).run s).Within ((addTimerLoop mem' x).run s) := by
    refine FallibleLoop.run_within (fun _ => rfl) ?_
    rintro ⟨hole, array⟩
    exact (expireAt_within h _ _).bind fun _ => (deref_within h _).bind fun _ =>
      .ite (.refl _) (.refl _)
  exact (Except.Within.refl _).bind fun _ => (hloop _).bind fun _ => .refl _

theorem childOf_within (n hole : ℕ) (array : Cells) :
    (childOf mem n hole array).Within (childOf mem' n hole array) :=
  .ite ((expireAt_within h _ _).bind fun _ => (expireAt_within h _ _).bind fun _ => .refl _)
    (.refl _)

theorem percolateDown_within (heap : TimeHeap) (hole : ℕ) :
    (percolateDown mem heap hole).Within (percolateDown mem' heap hole) := by
  have hloop : ∀ temp s, ((percolateDownLoop mem heap.curSize temp).run s).Within
      ((percolateDownLoop mem' heap.curSize temp).run s) := by
    intro temp
    refine FallibleLoop.run_within (fun _ => rfl) ?_
    rintro ⟨hole, array⟩
    exact (childOf_within h _ _ _).bind fun _ => (expireAt_within h _ _).bind fun _ =>
      (deref_within h _).bind fun _ => .ite (.refl _) (.refl _)
  exact (Except.Within.refl _).bind fun _ => (hloop _ _).bind fun _ => .refl _

theorem ofArray_within (initArray : Cells) (size capacity : ℕ) :
    (ofArray mem initArray size capacity).Within (ofArray mem' initArray size capacity) :=
  .ite (.refl _) (.ite
    ((Except.Within.refl _).bind fun _ =>
      (Except.Within.foldlM (fun _ _ => percolateDown_within h _ _) _ _).bind fun _ => .refl _)
    (.refl _))

end

/-! ### What a call has done if it returns -/

section
variable {key : TimerPtr → ℤ} {mem mem' : Timers} {C : Multiset TimerPtr} {h h' : TimeHeap}
  {f : ℕ → TimerPtr}

/-- **`add_timer`, if it returns**, has added the timer; the first one stays the
    first, unless the new one expires before it. -/
theorem addTimer_ok (hs : Sorted key C h f) (hk : mem.Timed key) {x : TimerPtr}
    (hr : addTimer h mem (some x) = .ok h') :
    ∃ g, Sorted key (x ::ₘ C) h' g ∧ (0 < h.curSize → key (f 0) ≤ key x → g 0 = f 0) := by
  have hexp := hk.expire_undeleted
  rw [← hexp] at hs
  obtain ⟨h₁, he, g, hg, hfirst⟩ :=
    addTimer_spec hs (mem.alive_undeleted key x) fun p _ => mem.alive_undeleted key p
  rw [addTimer_within (mem.within_undeleted key) h x h' hr] at he
  cases he
  rw [hexp] at hg hfirst
  exact ⟨g, hg, hfirst⟩

/-- **`pop_timer`, if it returns**, has taken the first timer off and deleted it. -/
theorem popTimer_ok (hs : Sorted key C h f) (hk : mem.Timed key) (hpos : 0 < h.curSize)
    (hr : popTimer mem h = .ok (mem', h')) :
    mem.Alive (f 0) ∧ mem' = update mem (f 0) none ∧ ∃ g, Sorted key (C.erase (f 0)) h' g := by
  obtain ⟨n, hn⟩ : ∃ n, h.curSize = n + 1 := Nat.exists_eq_succ_of_ne_zero hpos.ne'
  rw [hs.popTimer_eq hn] at hr
  obtain ⟨mem₁, hdelete, hr⟩ := Except.bind_eq_ok.1 hr
  obtain ⟨h₁, hd, hr⟩ := Except.bind_eq_ok.1 hr
  cases hr
  obtain ⟨halive, rfl⟩ := delete_ok hdelete
  have hk' := hk.delete (f 0)
  obtain ⟨h₂, he, hg⟩ := hs.percolateDown_last hn (Timers.undeleted key _) fun p _ =>
    ⟨Timers.alive_undeleted key (update mem (f 0) none) p, by rw [hk'.expire_undeleted]⟩
  rw [percolateDown_within (Timers.within_undeleted key _) _ 0 _ hd] at he
  cases he
  exact ⟨halive, rfl, hg⟩

theorem ofArray_ok {initArray : Cells} {size capacity : ℕ} (hk : mem.Timed key)
    (hcap : 0 < capacity) (hle : size ≤ capacity)
    (hinit : ∀ i < size, initArray[i]? = some (some (f i)))
    (hr : ofArray mem initArray size capacity = .ok (some h)) :
    ∃ g, Sorted key (Heap.contents f size) h g := by
  obtain ⟨h₁, he, hg⟩ := @ofArray_spec (mem.undeleted key) initArray f size capacity hcap hle hinit
    fun p _ => mem.alive_undeleted key p
  rw [ofArray_within (mem.within_undeleted key) _ _ _ _ hr] at he
  cases he
  rw [hk.expire_undeleted] at hg
  exact hg

end

end TimeHeap

/-! ## Runs -/

namespace HeapRun

/-- The timers that have been added, in this order. -/
def added (s : HeapRun) : List TimerPtr :=
  s.events.filterMap fun | .added p => some p | _ => none

/-- The timers that have been deleted. -/
def deleted (s : HeapRun) : List TimerPtr :=
  s.events.filterMap fun | .deleted p => some p | _ => none

theorem not_busy {s : HeapRun} (h : s.busy = false) : ∀ t ∈ s.ticks.head?, t.running ≠ none := by
  intro t ht
  cases hs : s.ticks with
  | nil => simp [hs] at ht
  | cons t' ticks =>
    simp only [hs, List.head?_cons, Option.mem_some_iff] at ht
    subst ht
    simp only [busy, hs, Option.isNone_eq_false_iff] at h
    exact Option.isSome_iff_ne_none.1 h

/-! ### The heap -/

theorem coe_concat (l : List TimerPtr) (p : TimerPtr) :
    ((l ++ [p] : List TimerPtr) : Multiset TimerPtr) = p ::ₘ (l : Multiset TimerPtr) :=
  Multiset.coe_eq_coe.2 (List.perm_append_singleton p l)

/-- The entries `f` are the timers `C`: those of `timers` and those added, but for
    those deleted. -/
structure Held (key : TimerPtr → ℤ) (timers C : Multiset TimerPtr) (f : ℕ → TimerPtr)
    (s : HeapRun) : Prop where
  sorted : TimeHeap.Sorted key C s.heap f
  timed : s.mem.Timed key
  count : C + (s.deleted : Multiset TimerPtr) = timers + (s.added : Multiset TimerPtr)

/-- The timers `C` are distinct, and exist. -/
def Live (C : Multiset TimerPtr) (mem : Timers) : Prop := C.Nodup ∧ ∀ p ∈ C, mem.Alive p

theorem Live.erase {C : Multiset TimerPtr} {mem : Timers} (h : Live C mem) (p : TimerPtr) :
    Live (C.erase p) (update mem p none) := by
  refine ⟨h.1.erase p, ?_⟩
  intro q hq
  have hne : q ≠ p := by
    rintro rfl
    exact h.1.notMem_erase hq
  obtain ⟨t, ht⟩ := h.2 q (Multiset.mem_of_mem_erase hq)
  exact ⟨t, by rw [update_of_ne hne, ht]⟩

namespace Held
variable {key : TimerPtr → ℤ} {timers C : Multiset TimerPtr} {f : ℕ → TimerPtr} {s s' : HeapRun}

theorem addTimer (h : Held key timers C f s) {x : TimerPtr} (hr : s.addTimer (some x) = .ok s') :
    ∃ heap g, s' = { s with heap, events := s.events ++ [.added x] } ∧
      Held key timers (x ::ₘ C) g s' ∧
      (0 < s.heap.curSize → key (f 0) ≤ key x → g 0 = f 0) := by
  obtain ⟨heap, hadd, hr⟩ := Except.bind_eq_ok.1 hr
  cases hr
  obtain ⟨g, hg, hfirst⟩ := TimeHeap.addTimer_ok h.sorted h.timed hadd
  refine ⟨heap, g, rfl, ⟨hg, h.timed, ?_⟩, hfirst⟩
  have hadded : added { s with heap, events := s.events ++ [.added x] } = s.added ++ [x] := by
    simp [added]
  have hdeleted : deleted { s with heap, events := s.events ++ [.added x] } = s.deleted := by
    simp [deleted]
  simp only [Option.toList_some, List.map_singleton]
  rw [hadded, hdeleted, coe_concat, Multiset.add_cons, Multiset.cons_add, h.count]

theorem popTimer (h : Held key timers C f s) (hr : s.popTimer = .ok s') :
    (s.heap.curSize = 0 ∧ s' = s) ∨ (0 < s.heap.curSize ∧ s.mem.Alive (f 0) ∧ ∃ heap g,
      s' = { s with mem := update s.mem (f 0) none, heap,
                    events := s.events ++ [.deleted (f 0)] } ∧
      Held key timers (C.erase (f 0)) g s') := by
  obtain ⟨p, htop, hr⟩ := Except.bind_eq_ok.1 hr
  obtain ⟨⟨mem, heap⟩, hpop, hr⟩ := Except.bind_eq_ok.1 hr
  cases hr
  rcases Nat.eq_zero_or_pos s.heap.curSize with hz | hpos
  · rw [TimeHeap.top, if_pos (by simp [TimeHeap.empty, hz])] at htop
    rw [TimeHeap.popTimer, if_pos (by simp [TimeHeap.empty, hz])] at hpop
    cases htop
    cases hpop
    exact .inl ⟨hz, by simp⟩
  · rw [TimeHeap.top, if_neg (by simp [TimeHeap.empty, hpos.ne']),
      Cells.load_eq (h.sorted.cells 0 hpos)] at htop
    cases htop
    obtain ⟨halive, rfl, g, hg⟩ := TimeHeap.popTimer_ok h.sorted h.timed hpos hpop
    refine .inr ⟨hpos, halive, heap, g, rfl, ⟨hg, h.timed.delete _, ?_⟩⟩
    have hadded : ∀ mem, added { s with mem, heap, events := s.events ++ [.deleted (f 0)] } =
        s.added := by simp [added]
    have hdeleted : ∀ mem, deleted { s with mem, heap, events := s.events ++ [.deleted (f 0)] } =
        s.deleted ++ [f 0] := by simp [deleted]
    simp only [Option.toList_some, List.map_singleton]
    rw [hadded, hdeleted, coe_concat, Multiset.add_cons, ← Multiset.cons_add,
      Multiset.cons_erase (h.sorted.first_mem hpos), h.count]

/-- What is left after `pop_timer`, whether the heap was empty or not. -/
theorem popped (h : Held key timers C f s) (hr : s.popTimer = .ok s') :
    ∃ C' g, Held key timers C' g s' ∧ s'.ticks = s.ticks ∧ (Live C s.mem → Live C' s'.mem) := by
  rcases h.popTimer hr with ⟨-, rfl⟩ | ⟨-, -, heap, g, rfl, hg⟩
  · exact ⟨C, f, h, rfl, id⟩
  · exact ⟨_, g, hg, rfl, fun hl => hl.erase (f 0)⟩

theorem delTimer (h : Held key timers C f s) {x : Option TimerPtr} (hr : s.delTimer x = .ok s') :
    ∃ mem, s' = { s with mem } ∧ Held key timers C f s' ∧ ∀ p, mem.Alive p ↔ s.mem.Alive p := by
  obtain ⟨mem, hdel, hr⟩ := Except.bind_eq_ok.1 hr
  cases hr
  cases x with
  | none =>
    cases hdel
    exact ⟨s.mem, rfl, h, fun _ => Iff.rfl⟩
  | some x =>
    obtain ⟨t, ht, hdel⟩ := Except.bind_eq_ok.1 hdel
    cases hdel
    obtain ⟨_, ⟨⟩, ht⟩ := deref_ok ht
    refine ⟨_, rfl, ⟨h.sorted, ?_, h.count⟩, ?_⟩
    · intro p t' hp
      by_cases hpx : p = x
      · subst hpx
        simp only [update_self] at hp
        cases hp
        exact h.timed p t ht
      · simp only [update_of_ne hpx] at hp
        exact h.timed p t' hp
    · intro p
      by_cases hpx : p = x
      · subst hpx
        simp [Timers.Alive, ht]
      · simp only [Timers.Alive, update_of_ne hpx]

theorem ran (h : Held key timers C f s) (ticks : List TickCall) (p : TimerPtr) :
    Held key timers C f { s with ticks, events := s.events ++ [.ran p] } where
  sorted := h.sorted
  timed := h.timed
  count := by simpa [deleted, added] using h.count

end Held

/-! ### The calls of `tick` -/

theorem finish_ok {s s' : HeapRun} {t : TickCall} {ticks : List TickCall}
    (hr : s.finish t ticks = .ok s') :
    ∃ s₁ tmp, s.popTimer = .ok s₁ ∧ s₁.heap.array[0]? = some tmp ∧
      s' = { s₁ with ticks := { t with tmp, running := none } :: ticks } := by
  obtain ⟨s₁, hpop, hr⟩ := Except.bind_eq_ok.1 hr
  obtain ⟨tmp, hload, hr⟩ := Except.bind_eq_ok.1 hr
  cases hr
  exact ⟨s₁, tmp, hpop, Cells.load_ok hload, rfl⟩

/-- What `tick` does from the head of its loop: it returns, takes off a timer
    without a callback, or calls the callback of a timer that is due. -/
theorem enter_ok {s s' : HeapRun} {t : TickCall} {ticks : List TickCall}
    (htmp : s.heap.array[0]? = some t.tmp) (hr : s.enter t ticks = .ok s') :
    (s' = { s with ticks } ∧ (s.heap.curSize = 0 ∨ t.tmp = none ∨
      ∃ p timer, t.tmp = some p ∧ s.mem p = some timer ∧ t.cur < timer.expire)) ∨
    0 < s.heap.curSize ∧ ∃ p timer, t.tmp = some p ∧ s.mem p = some timer ∧
      timer.expire ≤ t.cur ∧ ((timer.cbFunc = none ∧ s.finish t ticks = .ok s') ∨
        (timer.cbFunc ≠ none ∧ s' = { s with
          ticks := { t with running := some p } :: ticks, events := s.events ++ [.ran p] })) := by
  unfold enter at hr
  split at hr
  · rename_i he
    cases hr
    exact .inl ⟨rfl, .inl (by simpa [TimeHeap.empty] using he)⟩
  rename_i he
  split at hr
  · rename_i hnull
    cases hr
    exact .inl ⟨rfl, .inr (.inl hnull)⟩
  obtain ⟨timer, htimer, hr⟩ := Except.bind_eq_ok.1 hr
  obtain ⟨p, hp, hmem⟩ := deref_ok htimer
  split at hr
  · rename_i hlt
    cases hr
    exact .inl ⟨rfl, .inr (.inr ⟨p, timer, hp, hmem, hlt⟩)⟩
  rename_i hle
  rw [Cells.load_eq (htmp.trans (congrArg some hp))] at hr
  simp only [Except.ok_bind, deref, hmem] at hr
  refine .inr ⟨Nat.pos_of_ne_zero (by simpa [TimeHeap.empty] using he), p, timer, hp, hmem,
    not_lt.1 hle, ?_⟩
  split at hr
  · rename_i hcb
    exact .inl ⟨hcb, hr⟩
  · rename_i hcb
    cases hr
    exact .inr ⟨by simp [hcb], rfl⟩

/-- The last call of `tick` has read the first entry, if it is at the head of its
    loop; the others are running a callback. -/
structure Placed (s : HeapRun) : Prop where
  head : ∀ t ∈ s.ticks.head?, t.running = none → s.heap.array[0]? = some t.tmp
  rest : ∀ t ∈ s.ticks.tail, t.running ≠ none

section
variable {key : TimerPtr → ℤ} {timers C : Multiset TimerPtr} {f : ℕ → TimerPtr} {s s' : HeapRun}
  {t : TickCall} {ticks : List TickCall}

theorem Held.finish (h : Held key timers C f s) (hr : s.finish t ticks = .ok s') :
    ∃ C' g, Held key timers C' g s' ∧ (Live C s.mem → Live C' s'.mem) := by
  obtain ⟨s₁, tmp, hpop, -, rfl⟩ := finish_ok hr
  obtain ⟨C', g, hg, -, hl⟩ := h.popped hpop
  exact ⟨C', g, ⟨hg.sorted, hg.timed, hg.count⟩, hl⟩

namespace Placed

theorem tail (hp : Placed s) (hs : s.ticks = t :: ticks) : ∀ t ∈ ticks, t.running ≠ none := by
  have hrest := hp.rest
  rw [hs] at hrest
  exact hrest

theorem of_not_busy (hp : Placed s) (hb : s.busy = false) (ht : s'.ticks = s.ticks) :
    Placed s' where
  head t h hn := absurd hn (not_busy hb t (ht ▸ h))
  rest := by
    rw [ht]
    exact hp.rest

/-- A call of `tick` has read the first entry. -/
theorem push (hrest : ∀ t ∈ ticks, t.running ≠ none) {mem : Timers} {heap : TimeHeap}
    {events : List TimerEvent} (ht : t.running = none → heap.array[0]? = some t.tmp) :
    Placed { mem, heap, ticks := t :: ticks, events } where
  head t' h := by
    cases h
    exact ht
  rest := hrest

/-- When a call can be made, every `tick` is running a callback. -/
theorem running (hp : Placed s) (hb : s.busy = false) : ∀ t ∈ s.ticks, t.running ≠ none := by
  intro t ht
  cases hs : s.ticks with
  | nil => simp [hs] at ht
  | cons t' ticks =>
    rw [hs] at ht
    rcases List.mem_cons.1 ht with rfl | ht
    · exact not_busy hb t (by simp [hs])
    · exact hp.tail hs t ht

theorem finish (hp : Placed s) (hs : s.ticks = t :: ticks) (hr : s.finish t ticks = .ok s') :
    Placed s' := by
  obtain ⟨s₁, tmp, -, htmp, rfl⟩ := finish_ok hr
  exact push (hp.tail hs) fun _ => htmp

end Placed

/-- A timer that is added exists and is not in the heap; one that is cancelled
    exists. -/
def Allows (s : HeapRun) : HeapCall → Prop
  | .add (some x) => s.mem.Alive x ∧ some x ∉ s.heap.array.take s.heap.curSize
  | .del (some x) => s.mem.Alive x
  | _ => True

def Permits (s : HeapRun) : HeapAction → Prop
  | .call c => s.busy = false → s.Allows c
  | .go => True

def Legal : HeapRun → List HeapAction → Prop
  | _, [] => True
  | s, a :: as => s.Permits a ∧ ∀ s', s.act a = .ok s' → Legal s' as

theorem Held.notMem (h : Held key timers C f s) {x : TimerPtr}
    (hx : some x ∉ s.heap.array.take s.heap.curSize) : x ∉ C := by
  intro hxC
  obtain ⟨i, hi, rfl⟩ := h.sorted.mem_contents.1 hxC
  refine hx (List.mem_of_getElem? (i := i) ?_)
  rw [List.getElem?_take_of_lt hi]
  exact h.sorted.cells i hi

theorem Held.go (h : Held key timers C f s) (hp : Placed s) (hr : s.go = .ok s') :
    ∃ C' g, Held key timers C' g s' ∧ Placed s' ∧ (Live C s.mem → Live C' s'.mem) := by
  unfold HeapRun.go at hr
  split at hr
  · cases hr
    exact ⟨C, f, h, hp, id⟩
  rename_i t ticks hs
  have hrest := hp.tail hs
  have hfinish : s.finish t ticks = .ok s' →
      ∃ C' g, Held key timers C' g s' ∧ Placed s' ∧ (Live C s.mem → Live C' s'.mem) := by
    intro hr
    obtain ⟨C', g, hg, hl⟩ := h.finish hr
    exact ⟨C', g, hg, hp.finish hs hr, hl⟩
  split at hr
  · exact hfinish hr
  rename_i hrun
  have htmp : s.heap.array[0]? = some t.tmp :=
    hp.head t (by simp [hs]) (by simpa using hrun)
  rcases enter_ok htmp hr with ⟨rfl, -⟩ | ⟨-, p, timer, -, -, -, ⟨-, hr⟩ | ⟨-, rfl⟩⟩
  · refine ⟨C, f, ⟨h.sorted, h.timed, h.count⟩, ⟨?_, ?_⟩, id⟩
    · intro t' ht' hn
      exact absurd hn (hrest t' (List.mem_of_mem_head? ht'))
    · intro t' ht'
      exact hrest t' (List.mem_of_mem_tail ht')
  · exact hfinish hr
  · exact ⟨C, f, h.ran _ p, .push hrest nofun, id⟩

theorem Held.call (h : Held key timers C f s) (hp : Placed s) (hb : s.busy = false)
    {c : HeapCall} (hr : s.call c = .ok s') :
    ∃ C' g, Held key timers C' g s' ∧ Placed s' ∧
      (Live C s.mem → s.Allows c → Live C' s'.mem) := by
  cases c with
  | add x =>
    cases x with
    | none =>
      cases hr
      exact ⟨C, f, ⟨h.sorted, h.timed, by simpa [deleted, added] using h.count⟩,
        hp.of_not_busy hb rfl, fun hl _ => hl⟩
    | some x =>
      obtain ⟨heap, g, rfl, hg, -⟩ := h.addTimer hr
      refine ⟨_, g, hg, hp.of_not_busy hb rfl, ?_⟩
      rintro hl ⟨hx, hnot⟩
      refine ⟨Multiset.nodup_cons.2 ⟨h.notMem hnot, hl.1⟩, ?_⟩
      intro p hp
      rcases Multiset.mem_cons.1 hp with rfl | hp
      · exact hx
      · exact hl.2 p hp
  | pop =>
    obtain ⟨C', g, hg, ht, hl⟩ := h.popped hr
    exact ⟨C', g, hg, hp.of_not_busy hb ht, fun h _ => hl h⟩
  | del x =>
    obtain ⟨mem, rfl, hg, halive⟩ := h.delTimer hr
    refine ⟨C, f, hg, hp.of_not_busy hb rfl, ?_⟩
    intro hl _
    exact ⟨hl.1, fun p hp => (halive p).2 (hl.2 p hp)⟩
  | tick cur =>
    obtain ⟨tmp, hload, hr⟩ := Except.bind_eq_ok.1 hr
    cases hr
    exact ⟨C, f, ⟨h.sorted, h.timed, h.count⟩, .push (hp.running hb) fun _ => Cells.load_ok hload,
      fun hl _ => hl⟩

/-- **Every action** leaves a heap of the timers that have been added and not been
    deleted. -/
theorem Held.act (h : Held key timers C f s) (hp : Placed s) {a : HeapAction}
    (hr : s.act a = .ok s') :
    ∃ C' g, Held key timers C' g s' ∧ Placed s' ∧
      (Live C s.mem → s.Permits a → Live C' s'.mem) := by
  cases a with
  | call c =>
    rw [HeapRun.act] at hr
    split at hr
    · cases hr
      exact ⟨C, f, h, hp, fun hl _ => hl⟩
    · rename_i hb
      have hb : s.busy = false := by simpa using hb
      obtain ⟨C', g, hg, hp', hl⟩ := h.call hp hb hr
      exact ⟨C', g, hg, hp', fun hl' ha => hl hl' (ha hb)⟩
  | go =>
    obtain ⟨C', g, hg, hp', hl⟩ := h.go hp hr
    exact ⟨C', g, hg, hp', fun h _ => hl h⟩

theorem run_cons (s : HeapRun) (a : HeapAction) (as : List HeapAction) :
    s.run (a :: as) = s.act a >>= (·.run as) := List.foldlM_cons

/-- The heap in a run that does not fail. -/
theorem Held.run (h : Held key timers C f s) (hp : Placed s) {as : List HeapAction}
    (hr : s.run as = .ok s') : ∃ C' g, Held key timers C' g s' := by
  induction as generalizing s C f with
  | nil =>
    cases hr
    exact ⟨C, f, h⟩
  | cons a as ih =>
    rw [run_cons] at hr
    obtain ⟨s₁, ha, hr⟩ := Except.bind_eq_ok.1 hr
    obtain ⟨C₁, f₁, h₁, hp₁, -⟩ := h.act hp ha
    exact ih h₁ hp₁ hr

/-! ### Runs that do not fail -/

/-- `pop_timer` does not fail. -/
theorem Live.exists_popTimer {heap : TimeHeap} {mem : Timers} (hl : Live C mem)
    (hs : TimeHeap.Sorted key C heap f) (hk : mem.Timed key) :
    ∃ r, TimeHeap.popTimer mem heap = .ok r := by
  rcases Nat.eq_zero_or_pos heap.curSize with hz | hpos
  · exact ⟨_, by rw [TimeHeap.popTimer, if_pos (by simp [TimeHeap.empty, hz])]⟩
  · have hs := hs.congr fun p hp => (hk.expire_eq (hl.2 p hp)).symm
    obtain ⟨heap', hpop, -⟩ := TimeHeap.popTimer_spec hs hl.2 hl.1 hpos
    exact ⟨_, hpop⟩

theorem Held.exists_popTimer (h : Held key timers C f s) (hl : Live C s.mem) :
    ∃ s', s.popTimer = .ok s' := by
  obtain ⟨⟨mem, heap⟩, hpop⟩ := hl.exists_popTimer h.sorted h.timed
  obtain ⟨p, htop⟩ : ∃ p, s.heap.top = .ok p := by
    unfold TimeHeap.top
    split
    · exact ⟨_, rfl⟩
    · exact ⟨_, Cells.load_eq h.sorted.load_first⟩
  exact ⟨_, by simp only [HeapRun.popTimer, htop, hpop, Except.ok_bind]; rfl⟩

theorem Held.exists_finish (h : Held key timers C f s) (hl : Live C s.mem) (t : TickCall)
    (ticks : List TickCall) : ∃ s', s.finish t ticks = .ok s' := by
  obtain ⟨s₁, hpop⟩ := h.exists_popTimer hl
  obtain ⟨C', g, hg, -, -⟩ := h.popped hpop
  simp only [HeapRun.finish, hpop, Cells.load_eq hg.sorted.load_first, Except.ok_bind]
  exact ⟨_, rfl⟩

theorem Held.exists_enter (h : Held key timers C f s) (hl : Live C s.mem) {t : TickCall}
    (htmp : s.heap.array[0]? = some t.tmp) (ticks : List TickCall) :
    ∃ s', s.enter t ticks = .ok s' := by
  by_cases he : s.heap.empty = true
  · exact ⟨_, by rw [enter, if_pos he]⟩
  have hpos : 0 < s.heap.curSize := Nat.pos_of_ne_zero (by simpa [TimeHeap.empty] using he)
  have hcell := h.sorted.cells 0 hpos
  have hsome : t.tmp = some (f 0) := by
    rw [htmp] at hcell
    exact Option.some.inj hcell
  obtain ⟨timer, ht⟩ := hl.2 _ (h.sorted.first_mem hpos)
  have hderef : deref s.mem (some (f 0)) = .ok timer := by rw [deref, ht]
  rw [enter, if_neg he, if_neg (by simp [hsome]), hsome, hderef, Except.ok_bind]
  split
  · exact ⟨_, rfl⟩
  rw [Cells.load_eq hcell, Except.ok_bind, hderef, Except.ok_bind]
  cases timer.cbFunc with
  | none => exact h.exists_finish hl t ticks
  | some cb => exact ⟨_, rfl⟩

theorem Held.exists_call (h : Held key timers C f s) (hl : Live C s.mem) {c : HeapCall}
    (ha : s.Allows c) : ∃ s', s.call c = .ok s' := by
  cases c with
  | add x =>
    cases x with
    | none => exact ⟨_, rfl⟩
    | some x =>
      have hs := h.sorted.congr fun p hp => (h.timed.expire_eq (hl.2 p hp)).symm
      obtain ⟨heap, hadd, -⟩ := TimeHeap.addTimer_spec hs ha.1 hl.2
      simp only [HeapRun.call, HeapRun.addTimer, hadd, Except.ok_bind]
      exact ⟨_, rfl⟩
  | pop => exact h.exists_popTimer hl
  | del x =>
    cases x with
    | none => exact ⟨_, rfl⟩
    | some x =>
      obtain ⟨t, ht⟩ := ha
      simp only [HeapRun.call, HeapRun.delTimer, TimeHeap.delTimer, deref, ht, Except.ok_bind]
      exact ⟨_, rfl⟩
  | tick cur =>
    simp only [HeapRun.call, HeapRun.tick, Cells.load_eq h.sorted.load_first, Except.ok_bind]
    exact ⟨_, rfl⟩

/-- **No action fails** on distinct timers that exist. -/
theorem Held.exists_act (h : Held key timers C f s) (hp : Placed s) (hl : Live C s.mem)
    {a : HeapAction} (ha : s.Permits a) : ∃ s', s.act a = .ok s' := by
  cases a with
  | call c =>
    rw [HeapRun.act]
    split
    · exact ⟨s, rfl⟩
    · rename_i hb
      exact h.exists_call hl (ha (by simpa using hb))
  | go =>
    rw [HeapRun.act, HeapRun.go]
    split
    · exact ⟨s, rfl⟩
    rename_i t ticks hs
    split
    · exact h.exists_finish hl t ticks
    · rename_i hn
      exact h.exists_enter hl (hp.head t (by simp [hs]) (by simpa using hn)) ticks

/-- A run on distinct timers that exist does not fail, and leaves such timers in
    the heap. -/
theorem Held.exists_run (h : Held key timers C f s) (hp : Placed s) (hl : Live C s.mem)
    {as : List HeapAction} (ha : s.Legal as) :
    ∃ s', s.run as = .ok s' ∧ ∃ C' g, Held key timers C' g s' ∧ Live C' s'.mem := by
  induction as generalizing s C f with
  | nil => exact ⟨s, rfl, C, f, h, hl⟩
  | cons a as ih =>
    obtain ⟨hperm, hrest⟩ := ha
    obtain ⟨s₁, hact⟩ := h.exists_act hp hl hperm
    obtain ⟨C₁, f₁, h₁, hp₁, hl₁⟩ := h.act hp hact
    obtain ⟨s', hr, hend⟩ := ih h₁ hp₁ (hl₁ hl hperm) (hrest s₁ hact)
    exact ⟨s', by rw [run_cons, hact]; exact hr, hend⟩

end

/-! ### A `tick` that is not interrupted -/

theorem run_append (s : HeapRun) (as bs : List HeapAction) :
    s.run (as ++ bs) = s.run as >>= (·.run bs) := List.foldlM_append

/-- The timers whose callbacks have been called. -/
def fired (es : List TimerEvent) : List TimerPtr :=
  es.filterMap fun | .ran p => some p | _ => none

theorem fired_append (es es' : List TimerEvent) : fired (es ++ es') = fired es ++ fired es' :=
  List.filterMap_append

section
variable {ε : Type} {cur : ℤ}

/-- From the run `s` a `tick` has come to the head of its loop in the state `t`. -/
def ComesTo (s : HeapRun) (cur : ℤ) (t : TickState ε) (ticks : List TickCall) : Prop :=
  ∃ n es, s.run (.call (.tick cur) :: List.replicate n .go) =
    .ok { mem := t.mem, heap := t.heap, ticks, events := s.events ++ es } ∧ fired es = t.fired

theorem ComesTo.go {s : HeapRun} {t t' : TickState ε} {ticks ticks' : List TickCall}
    (es : List TimerEvent) (h : ComesTo s cur t ticks)
    (hgo : ∀ events, HeapRun.go { mem := t.mem, heap := t.heap, ticks, events } =
      .ok { mem := t'.mem, heap := t'.heap, ticks := ticks', events := events ++ es })
    (hf : t'.fired = t.fired ++ fired es) : ComesTo s cur t' ticks' := by
  obtain ⟨n, es₀, hrun, hfired⟩ := h
  refine ⟨n + 1, es₀ ++ es, ?_, ?_⟩
  · rw [List.replicate_succ', ← List.cons_append, run_append, hrun, Except.ok_bind, run_cons,
      HeapRun.act, hgo, List.append_assoc]
    rfl
  · rw [fired_append, hf, hfired]

/-- `pop_timer` and reading the first entry. -/
theorem finish_eq {mem mem' : Timers} {heap heap' : TimeHeap} {tmp : Option TimerPtr}
    {p : TimerPtr} (htop : heap.top = .ok (some p))
    (hpop : TimeHeap.popTimer mem heap = .ok (mem', heap'))
    (hload : heap'.array.load 0 = .ok tmp) (t : TickCall) (ticks ticks' : List TickCall)
    (events : List TimerEvent) :
    HeapRun.finish { mem, heap, ticks := ticks', events } t ticks =
      .ok { mem := mem', heap := heap', ticks := { t with tmp, running := none } :: ticks,
            events := events ++ [.deleted p] } := by
  simp only [finish, popTimer, htop, hpop, hload, Except.ok_bind, Except.pure_eq_ok,
    Option.toList_some, List.map_singleton]

/-- **A `tick` whose callbacks leave the heap alone** is a run in which it goes on
    until it returns. -/
theorem tick_run {call : Callbacks ε} (hq : call.Quiet) (s : HeapRun) (hb : s.busy = false)
    (env : ε) {t : TickState ε}
    (ht : TimeHeap.tick call hq cur env s.mem s.heap = .ok t) : ComesTo s cur t s.ticks := by
  obtain ⟨tmp, hload, hloop⟩ := Except.bind_eq_ok.1 ht
  have hspec := FallibleLoop.run_ensures (L := TimeHeap.tickLoop call hq cur)
    (A := fun _ => True)
    (I := fun t => ComesTo s cur t (⟨t.tmp, cur, none⟩ :: s.ticks))
    (Q := fun t => ComesTo s cur t s.ticks)
    (s := { tmp, env, mem := s.mem, heap := s.heap, fired := [] }) ?_ ?_ ?_
  · exact hspec.of_ok hloop
  · intro t h hc
    have he : t.heap.empty = true := by simpa [TimeHeap.tickLoop] using hc
    exact h.go [] (fun events => by simp [HeapRun.go, enter, he]) (by simp [fired])
  · intro t h hc
    have he : t.heap.empty = false := by simpa [TimeHeap.tickLoop] using hc
    show (TimeHeap.tickBody call cur t).Ensures _ _
    unfold TimeHeap.tickBody
    split
    · rename_i hnull
      exact h.go [] (fun events => by simp [HeapRun.go, enter, he, hnull]) (by simp [fired])
    rename_i hnull
    refine (Except.Ensures.self _).bind fun timer htimer => ?_
    split
    · rename_i hlt
      exact h.go []
        (fun events => by simp [HeapRun.go, enter, he, hnull, htimer, hlt]) (by simp [fired])
    rename_i hle
    refine (Except.Ensures.self _).bind fun t₁ hfire => ?_
    refine (Except.Ensures.self _).bind fun r hpop => ?_
    refine (Except.Ensures.self _).bind fun tmp hload => ?_
    obtain ⟨mem, heap⟩ := r
    obtain ⟨hmem, hheap⟩ := TimeHeap.fire_quiet hq hfire
    rw [hmem, hheap] at hpop
    obtain ⟨q, hq, hfire⟩ := Except.bind_eq_ok.1 hfire
    obtain ⟨first, hfirst, hfire⟩ := Except.bind_eq_ok.1 hfire
    obtain ⟨p, rfl, hp⟩ := deref_ok hfirst
    have htop : t.heap.top = .ok (some p) := by rw [TimeHeap.top, he]; exact hq
    cases hcb : first.cbFunc with
    | none =>
      rw [hcb] at hfire
      cases hfire
      refine h.go [.deleted p] ?_ (by simp [fired])
      intro events
      simp [HeapRun.go, enter, he, hnull, htimer, hle, hq, hfirst, hcb,
        finish_eq htop hpop hload]
    | some cb =>
      rw [hcb] at hfire
      cases hfire
      have hran : ComesTo s cur { t with fired := t.fired ++ [p] }
          (⟨t.tmp, cur, some p⟩ :: s.ticks) := by
        refine h.go [.ran p] ?_ (by simp [fired])
        intro events
        simp [HeapRun.go, enter, he, hnull, htimer, hle, hq, hfirst, hcb]
      refine hran.go [.deleted p] ?_ (by simp [fired])
      intro events
      simp [HeapRun.go, finish_eq htop hpop hload]
  · refine ⟨0, [], ?_, rfl⟩
    rw [List.replicate_zero, run_cons, HeapRun.act, if_neg (by simp [hb]), HeapRun.call,
      HeapRun.tick, hload]
    simp [run]

end

end HeapRun

/-! ## What the heap holds -/

namespace TimeHeap.Sorted
variable {key : TimerPtr → ℤ} {C : Multiset TimerPtr} {h : TimeHeap} {f : ℕ → TimerPtr}

end TimeHeap.Sorted

/-! ## From the constructors on -/

namespace HeapStart

/-- There is room for a timer, and for those that are given; none of them is
    `NULL`. -/
def Proper : HeapStart → Prop
  | .new cap => 1 ≤ cap
  | .ofArray initArray size capacity =>
    1 ≤ capacity ∧ size ≤ capacity ∧ ∀ i < size, ∃ p, initArray[i]? = some (some p)

/-- The timers that are given. -/
def timers : HeapStart → Multiset TimerPtr
  | .new _ => 0
  | .ofArray initArray size _ => (initArray.take size).reduceOption

variable {start : HeapStart} {mem : Timers}

theorem Proper.entries {initArray : Cells} {size capacity : ℕ}
    (h : (ofArray initArray size capacity).Proper) :
    ∃ f : ℕ → TimerPtr, ∀ i < size, initArray[i]? = some (some (f i)) := by
  refine ⟨fun i => (initArray[i]?.join).getD 0, ?_⟩
  intro i hi
  obtain ⟨p, hp⟩ := h.2.2 i hi
  simp [hp]

/-- A heap that is made holds the timers that are given. -/
theorem Proper.held (h : start.Proper) {heap : TimeHeap} (hm : start.make mem = .ok (some heap)) :
    ∃ f, HeapRun.Held mem.expire start.timers start.timers f { mem, heap } := by
  cases start with
  | new cap =>
    cases hm
    exact ⟨_, TimeHeap.sorted_new mem.expire h, mem.timed_expire, rfl⟩
  | ofArray initArray size capacity =>
    obtain ⟨f, hf⟩ := h.entries
    obtain ⟨g, hg⟩ := TimeHeap.ofArray_ok mem.timed_expire h.1 h.2.1 hf hm
    rw [← Cells.reduceOption_take hf] at hg
    exact ⟨g, hg, mem.timed_expire, rfl⟩

end HeapStart

end MyHttpServer
