/-
  The heap of timers.

  `Sorted` is its invariant between the calls: the entries stand in the first
  cells of the array, ordered by `expire`.  In the loops one of them is on its
  way, and there is a `Hole` in the array.

  * `addTimer_spec`: `add_timer` adds a timer, whether the array is full or not;
  * `percolateDown_cells`: `percolate_down` puts a subtree in order;
  * `popTimer_spec`: `pop_timer` takes the first timer off;
  * `ofArray_spec`: the heap that is made of given timers.
-/
import MyHttpServer.Lib.Heap
import MyHttpServer.Model.Timer

namespace MyHttpServer

open Function

/-! ## Timers in memory -/

namespace Timers

/-- When a timer expires. -/
def expire (mem : Timers) (p : TimerPtr) : ℤ := ((mem p).map HeapTimer.expire).getD 0

/-- The timer exists. -/
def Alive (mem : Timers) (p : TimerPtr) : Prop := ∃ t, mem p = some t

theorem Alive.deref {mem : Timers} {p : TimerPtr} (h : mem.Alive p) :
    ∃ t, MyHttpServer.deref mem (some p) = .ok t ∧ mem p = some t ∧ t.expire = mem.expire p := by
  obtain ⟨t, ht⟩ := h
  exact ⟨t, by simp [MyHttpServer.deref, ht], ht, by simp [expire, ht]⟩

end Timers

namespace Cells

/-- The first `n` cells hold the entries `f`, but for the one at `hole`. -/
def Holds (array : Cells) (f : ℕ → TimerPtr) (n hole : ℕ) : Prop :=
  ∀ i < n, i ≠ hole → array[i]? = some (some (f i))

/-- The first `n` cells, if none of them is `NULL`. -/
theorem take_eq {array : Cells} {f : ℕ → TimerPtr} {n : ℕ}
    (h : ∀ i < n, array[i]? = some (some (f i))) :
    array.take n = ((List.range n).map f).map some := by
  refine List.ext_getElem? ?_
  intro i
  by_cases hi : i < n
  · rw [List.getElem?_take_of_lt hi, h i hi]
    simp [List.getElem?_range hi]
  · rw [List.getElem?_eq_none (by simp; omega), List.getElem?_eq_none (by simp; omega)]

theorem reduceOption_take {array : Cells} {f : ℕ → TimerPtr} {n : ℕ}
    (h : ∀ i < n, array[i]? = some (some (f i))) :
    ((array.take n).reduceOption : Multiset TimerPtr) = Heap.contents f n := by
  rw [take_eq h]
  show (List.filterMap id (((List.range n).map f).map some) : Multiset TimerPtr) = _
  rw [List.filterMap_map]
  simp [Heap.contents, Multiset.range]

theorem load_eq {array : Cells} {i : ℕ} {p : Option TimerPtr} (h : array[i]? = some p) :
    array.load i = .ok p := by simp [load, h]

theorem load_ok {array : Cells} {i : ℕ} {p : Option TimerPtr} (h : array.load i = .ok p) :
    array[i]? = some p := by
  rw [load] at h
  split at h
  · cases h
    assumption
  · cases h

theorem store_eq {array : Cells} {i : ℕ} (h : i < array.length) (p : Option TimerPtr) :
    array.store i p = .ok (array.set i p) := by simp [store, h]

theorem expireAt_eq {mem : Timers} {array : Cells} {i : ℕ} {p : TimerPtr}
    (h : array[i]? = some (some p)) (ha : mem.Alive p) :
    array.expireAt mem i = .ok (mem.expire p) := by
  obtain ⟨t, ht, -, he⟩ := ha.deref
  simp [expireAt, load_eq h, ht, he]

theorem Holds.fill {array : Cells} {f : ℕ → TimerPtr} {n hole : ℕ} (h : array.Holds f n hole)
    (hl : hole < array.length) (x : TimerPtr) :
    ∀ i < n, (array.set hole (some x))[i]? = some (some (update f hole x i)) := by
  intro i hi
  by_cases hih : i = hole
  · subst hih
    simp [List.getElem?_set_self hl]
  · rw [List.getElem?_set_ne (Ne.symm hih), update_of_ne hih]
    exact h i hi hih

end Cells

namespace TimeHeap

/-! ## The loops -/

/-- The hole of a loop, and everything around it: `C` are the entries, with `x`
    put into the hole. -/
structure Hole (mem : Timers) (n len : ℕ) (C : Multiset TimerPtr) (x : TimerPtr)
    (f : ℕ → TimerPtr) (s : ℕ × Cells) : Prop where
  length : s.2.length = len
  le : n ≤ len
  lt : s.1 < n
  cells : s.2.Holds f n s.1
  contents : Heap.contents (update f s.1 x) n = C
  alive : ∀ p ∈ C, mem.Alive p

namespace Hole
variable {mem : Timers} {n len : ℕ} {C : Multiset TimerPtr} {x : TimerPtr} {f : ℕ → TimerPtr}
  {s : ℕ × Cells}

theorem inRange (h : Hole mem n len C x f s) : s.1 < s.2.length := by
  rw [h.length]
  exact h.lt.trans_le h.le

theorem alive_entry (h : Hole mem n len C x f s) {i : ℕ} (hi : i < n) (hne : i ≠ s.1) :
    mem.Alive (f i) := by
  refine h.alive _ ?_
  rw [← h.contents, Heap.mem_contents]
  exact ⟨i, hi, by rw [update_of_ne hne]⟩

theorem alive_x (h : Hole mem n len C x f s) : mem.Alive x := by
  refine h.alive _ ?_
  rw [← h.contents, Heap.mem_contents]
  exact ⟨s.1, h.lt, by rw [update_self]⟩

theorem expireAt (h : Hole mem n len C x f s) {i : ℕ} (hi : i < n) (hne : i ≠ s.1) :
    s.2.expireAt mem i = .ok (mem.expire (f i)) :=
  Cells.expireAt_eq (h.cells i hi hne) (h.alive_entry hi hne)

/-- The entry at `i` moves into the hole. -/
theorem move (h : Hole mem n len C x f s) {i : ℕ} (hi : i < n) (hne : i ≠ s.1) :
    Hole mem n len C x (update f s.1 (f i)) (i, s.2.set s.1 (some (f i))) where
  length := by simpa using h.length
  le := h.le
  lt := hi
  cells := by
    intro j hj _
    exact h.cells.fill h.inRange (f i) j hj
  contents := by
    rw [Heap.contents_move f x h.lt hi (Ne.symm hne)]
    exact h.contents
  alive := h.alive

end Hole

section
variable {mem : Timers} {n len : ℕ} {C : Multiset TimerPtr} {x : TimerPtr}

/-- The loop of `add_timer` ends with the hole where `x` belongs; that is behind
    the first entry, unless `x` expires before it. -/
theorem addTimerLoop_spec {f₀ : ℕ → TimerPtr} {s : ℕ × Cells} (h : Hole mem n len C x f₀ s)
    (ho : Heap.Rising mem.expire f₀ n s.1 x) :
    ∃ t, (addTimerLoop mem x).run s = .ok t ∧ ∃ g, Hole mem n len C x g t ∧
      Heap.Ordered mem.expire (update g t.1 x) n ∧
      (0 < s.1 → mem.expire (f₀ 0) ≤ mem.expire x → update g t.1 x 0 = f₀ 0) := by
  refine FallibleLoop.run_spec (L := addTimerLoop mem x)
    (I := fun t => ∃ f, Hole mem n len C x f t ∧ Heap.Rising mem.expire f n t.1 x ∧
      (0 < s.1 → mem.expire (f₀ 0) ≤ mem.expire x → 0 < t.1 ∧ f 0 = f₀ 0))
    ?_ ?_ ⟨f₀, h, ho, fun hs _ => ⟨hs, rfl⟩⟩
  · rintro t ⟨f, h, ho, hroot⟩ hc
    refine ⟨f, h, ho.fill ?_, ?_⟩
    · intro hpos
      simp [addTimerLoop, hpos] at hc
    · intro hs hx
      rw [update_of_ne (hroot hs hx).1.ne]
      exact (hroot hs hx).2
  · rintro ⟨hole, array⟩ ⟨f, h, ho, hroot⟩ hc
    have hpos : 0 < hole := by simpa [addTimerLoop] using hc
    have hlt : Heap.parent hole < hole := Heap.parent_lt hpos
    have hpn : Heap.parent hole < n := hlt.trans h.lt
    obtain ⟨t, ht, -, htx⟩ := h.alive_x.deref
    have habove := h.expireAt hpn hlt.ne
    have hload := Cells.load_eq (h.cells _ hpn hlt.ne)
    have hl : hole < array.length := h.inRange
    simp only [Heap.parent] at habove hload
    simp only [addTimerLoop, habove, ht, htx, hload, Cells.store_eq hl, Except.ok_bind]
    by_cases hle : mem.expire (f (Heap.parent hole)) ≤ mem.expire x
    · refine .inl ⟨if_pos hle, f, h, ho.fill fun _ => hle, ?_⟩
      intro hs hx
      rw [update_of_ne hpos.ne]
      exact (hroot hs hx).2
    · refine .inr ⟨_, if_neg hle, _, h.move hpn hlt.ne, ho.move hpos (not_le.1 hle), ?_⟩
      intro hs hx
      refine ⟨Nat.pos_of_ne_zero ?_, by rw [update_of_ne hpos.ne]; exact (hroot hs hx).2⟩
      intro hz
      have hz : Heap.parent hole = 0 := hz
      rw [hz, (hroot hs hx).2] at hle
      exact hle hx

/-- `childOf` is a child of the hole that expires first. -/
theorem childOf_spec {f : ℕ → TimerPtr} {hole : ℕ} {array : Cells}
    (h : Hole mem n len C x f (hole, array)) (hc : hole * 2 + 1 < n) :
    ∃ c, childOf mem n hole array = .ok c ∧ hole < c ∧ c < n ∧ Heap.parent c = hole ∧
      ∀ d, 0 < d → d < n → Heap.parent d = hole → mem.expire (f c) ≤ mem.expire (f d) := by
  have hparent : ∀ {d}, 0 < d → (Heap.parent d = hole ↔ d = 2 * hole + 1 ∨ d = 2 * hole + 2) :=
    fun hd => Heap.parent_eq_iff hd
  have hleft := h.expireAt hc (by simp only; omega)
  simp only at hleft
  by_cases hr : hole * 2 + 1 + 1 < n
  · have hright := h.expireAt hr (by simp only; omega)
    simp only at hright
    simp only [childOf, if_pos hr, hleft, hright, Except.ok_bind]
    by_cases hlt : mem.expire (f (hole * 2 + 1 + 1)) < mem.expire (f (hole * 2 + 1))
    · refine ⟨hole * 2 + 1 + 1, by simp [hlt], by omega, hr, (hparent (by omega)).2 (by omega), ?_⟩
      intro d hd hdn hp
      rcases (hparent hd).1 hp with rfl | rfl
      · rw [Nat.mul_comm] at hlt ⊢; exact hlt.le
      · rw [Nat.mul_comm]
    · refine ⟨hole * 2 + 1, by simp [hlt], by omega, hc, (hparent (by omega)).2 (by omega), ?_⟩
      intro d hd hdn hp
      rcases (hparent hd).1 hp with rfl | rfl
      · rw [Nat.mul_comm]
      · rw [Nat.mul_comm] at hlt ⊢; exact not_lt.1 hlt
  · refine ⟨hole * 2 + 1, by simp [childOf, hr], by omega, hc,
      (hparent (by omega)).2 (by omega), ?_⟩
    intro d hd hdn hp
    rcases (hparent hd).1 hp with rfl | rfl
    · rw [Nat.mul_comm]
    · omega

/-- The loop of `percolate_down` ends with the hole where `x` belongs, and leaves
    alone what is not below `top`. -/
theorem percolateDownLoop_spec {f₀ : ℕ → TimerPtr} {top : ℕ} {s : ℕ × Cells}
    (h : Hole mem n len C x f₀ s) (ho : Heap.Sinking mem.expire f₀ n top s.1 x) :
    ∃ t, (percolateDownLoop mem n (some x)).run s = .ok t ∧ ∃ g, Hole mem n len C x g t ∧
      Heap.OrderedFrom mem.expire (update g t.1 x) n top ∧
      ∀ i, ¬ Heap.Below top i → update g t.1 x i = f₀ i := by
  have hoff : ∀ {f : ℕ → TimerPtr} {p : ℕ} (y : TimerPtr), Heap.Below top p →
      (∀ i, ¬ Heap.Below top i → f i = f₀ i) →
      ∀ i, ¬ Heap.Below top i → update f p y i = f₀ i := by
    intro f p y hp hf i hi
    rw [update_of_ne (by rintro rfl; exact hi hp)]
    exact hf i hi
  refine FallibleLoop.run_spec (L := percolateDownLoop mem n (some x))
    (I := fun s => ∃ f, Hole mem n len C x f s ∧ Heap.Sinking mem.expire f n top s.1 x ∧
      ∀ i, ¬ Heap.Below top i → f i = f₀ i)
    ?_ ?_ ⟨f₀, h, ho, fun _ _ => rfl⟩
  · rintro s ⟨f, h, ho, hf⟩ hc
    refine ⟨f, h, ho.fill ?_, hoff x ho.inside hf⟩
    intro c hc0 hcn hp
    have := (Heap.parent_eq_iff hc0).1 hp
    simp only [percolateDownLoop, decide_eq_false_iff_not] at hc
    omega
  · rintro ⟨hole, array⟩ ⟨f, h, ho, hf⟩ hc
    have hc' : hole * 2 + 1 < n := by simpa [percolateDownLoop] using hc
    obtain ⟨c, hchild, hlt, hcn, hp, hmin⟩ := childOf_spec h hc'
    obtain ⟨t, ht, -, htx⟩ := h.alive_x.deref
    have hbelow := h.expireAt hcn hlt.ne'
    have hload := Cells.load_eq (h.cells _ hcn hlt.ne')
    have hl : hole < array.length := h.inRange
    simp only at hbelow hload
    simp only [percolateDownLoop, hchild, hbelow, ht, htx, hload, Cells.store_eq hl,
      Except.ok_bind]
    by_cases hless : mem.expire (f c) < mem.expire x
    · exact .inr ⟨_, if_pos hless, _, h.move hcn hlt.ne',
        ho.move (by omega) hcn hp hmin hless, hoff _ ho.inside hf⟩
    · refine .inl ⟨if_neg hless, f, h, ho.fill ?_, hoff x ho.inside hf⟩
      intro d hd hdn hpd
      exact (not_lt.1 hless).trans (hmin d hd hdn hpd)

end

/-! ## The calls -/

/-- The array has room, and its first cells hold the entries `f`. -/
structure Stores (h : TimeHeap) (f : ℕ → TimerPtr) : Prop where
  length : h.array.length = h.capacity
  le : h.curSize ≤ h.capacity
  cells : ∀ i < h.curSize, h.array[i]? = some (some (f i))

/-- The entries `f` are a heap of the timers `C`, by the times `key`. -/
structure Sorted (key : TimerPtr → ℤ) (C : Multiset TimerPtr) (h : TimeHeap)
    (f : ℕ → TimerPtr) : Prop extends Stores h f where
  pos : 0 < h.capacity
  ordered : Heap.Ordered key f h.curSize
  contents : Heap.contents f h.curSize = C

/-- Copying the entries one by one. -/
theorem copy_spec {array : Cells} {f : ℕ → TimerPtr} {n m : ℕ} (hm : n ≤ m)
    (h : ∀ i < n, array[i]? = some (some (f i))) :
    ∃ temp, (List.range n).foldlM (fun (temp : Cells) i => do temp.store i (← array.load i))
        (List.replicate m none) = .ok temp ∧
      temp.length = m ∧ ∀ i < n, temp[i]? = some (some (f i)) := by
  induction n with
  | zero => exact ⟨_, rfl, by simp, by simp⟩
  | succ n ih =>
    obtain ⟨temp, he, hl, hc⟩ := ih (by omega) fun i hi => h i (by omega)
    refine ⟨temp.set n (some (f n)), ?_, by simpa using hl, ?_⟩
    · rw [List.range_succ, List.foldlM_append, he]
      simp [Cells.load_eq (h n (by omega)), Cells.store_eq (show n < temp.length by omega)]
    · intro i hi
      by_cases hin : i = n
      · subst hin
        rw [List.getElem?_set_self (by omega)]
      · rw [List.getElem?_set_ne (Ne.symm hin)]
        exact hc i (by omega)

theorem resize_spec {h : TimeHeap} {f : ℕ → TimerPtr} (hs : Stores h f) :
    ∃ h', h.resize = .ok h' ∧ Stores h' f ∧ h'.curSize = h.curSize ∧
      h'.capacity = 2 * h.capacity := by
  have hle := hs.le
  obtain ⟨temp, he, hl, hc⟩ := copy_spec (show h.curSize ≤ 2 * h.capacity by omega) hs.cells
  refine ⟨{ h with array := temp, capacity := 2 * h.capacity }, ?_, ⟨hl, ?_, hc⟩, rfl, rfl⟩
  · simp only [resize, he, Except.ok_bind, Except.pure_eq_ok]
  · simp only; omega

/-- `add_timer` up to its loop: there is a free cell. -/
theorem makeRoom_spec {h : TimeHeap} {f : ℕ → TimerPtr} (hs : Stores h f) (hpos : 0 < h.capacity) :
    ∃ h', h.makeRoom = .ok h' ∧ Stores h' f ∧
      h'.curSize = h.curSize ∧ h'.curSize < h'.capacity := by
  have hle := hs.le
  by_cases hfull : h.curSize ≥ h.capacity
  · obtain ⟨h', he, hs', hn, hcap⟩ := resize_spec hs
    exact ⟨h', by rw [makeRoom, if_pos hfull, he], hs', hn, by omega⟩
  · exact ⟨h, by rw [makeRoom, if_neg hfull], hs, rfl, by omega⟩

/-- **`add_timer` adds the timer**; the first one stays the first, unless the new
    one expires before it. -/
theorem addTimer_spec {mem : Timers} {C : Multiset TimerPtr} {h : TimeHeap} {f : ℕ → TimerPtr}
    (hs : Sorted mem.expire C h f) {x : TimerPtr} (hx : mem.Alive x) (hC : ∀ p ∈ C, mem.Alive p) :
    ∃ h', addTimer h mem (some x) = .ok h' ∧ ∃ g, Sorted mem.expire (x ::ₘ C) h' g ∧
      (0 < h.curSize → mem.expire (f 0) ≤ mem.expire x → g 0 = f 0) := by
  obtain ⟨h₁, he, hs₁, hn, hlt⟩ := makeRoom_spec hs.toStores hs.pos
  have hhole : Hole mem (h₁.curSize + 1) h₁.capacity (x ::ₘ C) x f (h₁.curSize, h₁.array) := by
    refine ⟨hs₁.length, hlt, Nat.lt_succ_self _, ?_, ?_, ?_⟩
    · intro i hi hne
      simp only at hne
      exact hs₁.cells i (by omega)
    · rw [Heap.contents_succ, update_self, ← hs.contents, ← hn]
      congr 1
      refine Heap.contents_congr ?_
      intro i hi
      rw [update_of_ne hi.ne]
    · intro p hp
      rcases Multiset.mem_cons.1 hp with rfl | hp
      · exact hx
      · exact hC p hp
  have hord : Heap.Ordered mem.expire f h₁.curSize := by
    rw [hn]
    exact hs.ordered
  obtain ⟨⟨hole, array⟩, hrun, g, hg, hgo, hroot⟩ := addTimerLoop_spec hhole (.start hord x)
  have hl : hole < array.length := hg.inRange
  refine ⟨{ h₁ with array := array.set hole (some x), curSize := h₁.curSize + 1 }, ?_,
    update g hole x, ⟨⟨?_, hlt, hg.cells.fill hl x⟩, ?_, hgo, hg.contents⟩,
    fun hpos => hroot (by rw [hn]; exact hpos)⟩
  · simp only [addTimer, he, Except.ok_bind, hrun, Cells.store_eq hl, Except.pure_eq_ok]
  · simpa using hg.length
  · simp only; omega

/-- **`percolate_down` puts the subtree at `hole` in order**, if it was but for
    its top, and leaves alone what is not below it. -/
theorem percolateDown_cells {mem : Timers} {h : TimeHeap} {f : ℕ → TimerPtr} {hole : ℕ}
    (hle : h.curSize ≤ h.array.length) (hcells : ∀ i < h.curSize, h.array[i]? = some (some (f i)))
    (hlt : hole < h.curSize)
    (ho : ∀ i, 0 < i → i < h.curSize → Heap.Below hole (Heap.parent i) → Heap.parent i ≠ hole →
      mem.expire (f (Heap.parent i)) ≤ mem.expire (f i))
    (ha : ∀ p ∈ Heap.contents f h.curSize, mem.Alive p) :
    ∃ array, percolateDown mem h hole = .ok { h with array } ∧ array.length = h.array.length ∧
      ∃ g, (∀ i < h.curSize, array[i]? = some (some (g i))) ∧
        Heap.OrderedFrom mem.expire g h.curSize hole ∧
        Heap.contents g h.curSize = Heap.contents f h.curSize ∧
        ∀ i, ¬ Heap.Below hole i → g i = f i := by
  have hhole : Hole mem h.curSize h.array.length (Heap.contents f h.curSize) (f hole) f
      (hole, h.array) := by
    refine ⟨rfl, hle, hlt, fun i hi _ => hcells i hi, ?_, ha⟩
    rw [update_eq_self]
  obtain ⟨⟨p, array⟩, hrun, g, hg, hgo, hout⟩ :=
    percolateDownLoop_spec hhole (.start hlt ho (f hole))
  have hl : p < array.length := hg.inRange
  refine ⟨array.set p (some (f hole)), ?_, by simpa using hg.length, update g p (f hole),
    hg.cells.fill hl _, hgo, hg.contents, hout⟩
  simp only [percolateDown, Cells.load_eq (hcells hole hlt), Except.ok_bind, hrun,
    Cells.store_eq hl, Except.pure_eq_ok]

/-- `percolate_down` on an array that has room. -/
theorem percolateDown_spec {mem : Timers} {h : TimeHeap} {f : ℕ → TimerPtr} {hole : ℕ}
    (hs : Stores h f) (hlt : hole < h.curSize)
    (ho : ∀ i, 0 < i → i < h.curSize → Heap.Below hole (Heap.parent i) → Heap.parent i ≠ hole →
      mem.expire (f (Heap.parent i)) ≤ mem.expire (f i))
    (ha : ∀ p ∈ Heap.contents f h.curSize, mem.Alive p) :
    ∃ array, percolateDown mem h hole = .ok { h with array } ∧
      ∃ g, Stores { h with array } g ∧ Heap.OrderedFrom mem.expire g h.curSize hole ∧
        Heap.contents g h.curSize = Heap.contents f h.curSize ∧
        ∀ i, ¬ Heap.Below hole i → g i = f i := by
  obtain ⟨array, hrun, hlen, g, hg, hgo, hc, hout⟩ :=
    percolateDown_cells (by rw [hs.length]; exact hs.le) hs.cells hlt ho ha
  exact ⟨array, hrun, g, ⟨hlen.trans hs.length, hs.le, hg⟩, hgo, hc, hout⟩

theorem percolateDown_empty (mem : Timers) {h : TimeHeap} {p : Option TimerPtr}
    (hz : h.curSize = 0) (hl : h.array[0]? = some p) :
    percolateDown mem h 0 = .ok { h with array := h.array.set 0 p } := by
  have hrun : (percolateDownLoop mem h.curSize p).run (0, h.array) = .ok (0, h.array) :=
    FallibleLoop.run_exit (by simp [percolateDownLoop, hz])
  have hlt : 0 < h.array.length := (List.getElem?_eq_some_iff.1 hl).1
  simp only [percolateDown, Cells.load_eq hl, Except.ok_bind, hrun, Cells.store_eq hlt,
    Except.pure_eq_ok]

theorem Sorted.mem_contents {key : TimerPtr → ℤ} {C : Multiset TimerPtr} {h : TimeHeap}
    {f : ℕ → TimerPtr} (hs : Sorted key C h f) {p : TimerPtr} :
    p ∈ C ↔ ∃ i < h.curSize, f i = p := by
  rw [← hs.contents, Heap.mem_contents]

theorem Sorted.first_mem {key : TimerPtr → ℤ} {C : Multiset TimerPtr} {h : TimeHeap}
    {f : ℕ → TimerPtr} (hs : Sorted key C h f) (hpos : 0 < h.curSize) : f 0 ∈ C :=
  hs.mem_contents.2 ⟨0, hpos, rfl⟩

theorem Sorted.first_le {key : TimerPtr → ℤ} {C : Multiset TimerPtr} {h : TimeHeap}
    {f : ℕ → TimerPtr} (hs : Sorted key C h f) {p : TimerPtr} (hp : p ∈ C) :
    0 < h.curSize ∧ key (f 0) ≤ key p := by
  obtain ⟨i, hi, rfl⟩ := hs.mem_contents.1 hp
  exact ⟨by omega, hs.ordered.root_le hi⟩

theorem Sorted.congr {key key' : TimerPtr → ℤ} {C : Multiset TimerPtr} {h : TimeHeap}
    {f : ℕ → TimerPtr} (hs : Sorted key C h f) (he : ∀ p ∈ C, key p = key' p) :
    Sorted key' C h f where
  toStores := hs.toStores
  pos := hs.pos
  ordered i hi hin := by
    rw [← he _ (hs.mem_contents.2 ⟨_, (Heap.parent_lt hi).trans hin, rfl⟩),
      ← he _ (hs.mem_contents.2 ⟨i, hin, rfl⟩)]
    exact hs.ordered i hi hin
  contents := hs.contents

/-- The first cell can be read, also when the heap is empty. -/
theorem Sorted.load_first {key : TimerPtr → ℤ} {C : Multiset TimerPtr} {h : TimeHeap}
    {f : ℕ → TimerPtr} (hs : Sorted key C h f) : h.array[0]? = some h.array[0]?.join := by
  have hlt : 0 < h.array.length := by
    rw [hs.length]
    exact hs.pos
  simp [List.getElem?_eq_getElem hlt]

/-- What `pop_timer` gives to `percolate_down`: the last entry in the place of the
    first. -/
theorem Sorted.lastFirst {key : TimerPtr → ℤ} {C : Multiset TimerPtr} {h : TimeHeap}
    {f : ℕ → TimerPtr} (hs : Sorted key C h f) {n : ℕ} (hn : h.curSize = n + 1) :
    Stores { h with array := h.array.set 0 (some (f n)), curSize := n } (update f 0 (f n)) ∧
      C = f 0 ::ₘ Heap.contents (update f 0 (f n)) n := by
  have hle := hs.le
  refine ⟨⟨by simpa using hs.length, by simp only; omega, ?_⟩, ?_⟩
  · intro i hi
    have hcells : h.array.Holds f n 0 := fun i hi _ => hs.cells i (by omega)
    exact hcells.fill (by rw [hs.length]; exact hs.pos) (f n) i hi
  · rw [← hs.contents, hn, Heap.contents_pop]

/-- `pop_timer` on a heap that is not empty. -/
theorem Sorted.popTimer_eq {key : TimerPtr → ℤ} {C : Multiset TimerPtr} {h : TimeHeap}
    {f : ℕ → TimerPtr} (hs : Sorted key C h f) {n : ℕ} (hn : h.curSize = n + 1) (mem : Timers) :
    popTimer mem h = do
      let mem ← delete mem (f 0)
      let h ← percolateDown mem
        { h with array := h.array.set 0 (some (f n)), curSize := n } 0
      return (mem, h) := by
  have hlen : 0 < h.array.length := by
    rw [hs.length]
    exact hs.pos
  have hlast : h.array.load n = .ok (some (f n)) := Cells.load_eq (hs.cells n (by omega))
  rw [popTimer, if_neg (by simp [empty, hn]), Cells.load_eq (hs.cells 0 (by omega))]
  simp only [Except.ok_bind, Cells.store_eq hlen, hn, Nat.add_sub_cancel, hlast]

/-- The rest of the heap is put in order again. -/
theorem Sorted.percolateDown_last {key : TimerPtr → ℤ} {C : Multiset TimerPtr} {h : TimeHeap}
    {f : ℕ → TimerPtr} (hs : Sorted key C h f) {n : ℕ} (hn : h.curSize = n + 1) (mem : Timers)
    (hmem : ∀ p ∈ C.erase (f 0), mem.Alive p ∧ mem.expire p = key p) :
    ∃ h', percolateDown mem { h with array := h.array.set 0 (some (f n)), curSize := n } 0 =
        .ok h' ∧ ∃ g, Sorted key (C.erase (f 0)) h' g := by
  obtain ⟨hstores, hcont⟩ := hs.lastFirst hn
  set f' := update f 0 (f n) with hf'
  set h₁ : TimeHeap := { h with array := h.array.set 0 (some (f n)), curSize := n } with hh₁
  have hlen : 0 < h.array.length := by
    rw [hs.length]
    exact hs.pos
  have herase : Heap.contents f' n = C.erase (f 0) := by
    rw [hcont, Multiset.erase_cons_head]
  rcases Nat.eq_zero_or_pos n with hz | hnpos
  · have hl : h₁.array[0]? = some (some (f n)) := List.getElem?_set_self hlen
    refine ⟨_, percolateDown_empty _ hz hl, f',
      ⟨⟨by simpa using hstores.length, hstores.le, ?_⟩, hs.pos, ?_, herase⟩⟩
    · intro i hi
      simp only [hh₁] at hi; omega
    · intro i _ hi
      simp only [hh₁] at hi; omega
  · have hkey : ∀ i < n, mem.expire (f' i) = key (f' i) := by
      intro i hi
      exact (hmem _ (herase ▸ Heap.mem_contents.2 ⟨i, hi, rfl⟩)).2
    have hsub : ∀ i, 0 < i → i < n → Heap.Below 0 (Heap.parent i) → Heap.parent i ≠ 0 →
        mem.expire (f' (Heap.parent i)) ≤ mem.expire (f' i) := by
      intro i hi hin _ hp
      rw [hkey _ ((Heap.parent_lt hi).trans hin), hkey i hin, hf', update_of_ne hp,
        update_of_ne hi.ne']
      exact hs.ordered i hi (by omega)
    obtain ⟨array, hd, g, hg, ho, hc, -⟩ :=
      percolateDown_spec hstores hnpos hsub fun p hp => (hmem p (herase ▸ hp)).1
    have hg' : Sorted mem.expire (C.erase (f 0)) { h₁ with array } g :=
      ⟨hg, hs.pos, Heap.orderedFrom_zero.1 ho, hc.trans herase⟩
    exact ⟨_, hd, g, hg'.congr fun p hp => (hmem p hp).2⟩

/-- **`pop_timer` takes the first timer off** and deletes it. -/
theorem popTimer_spec {mem : Timers} {C : Multiset TimerPtr} {h : TimeHeap} {f : ℕ → TimerPtr}
    (hs : Sorted mem.expire C h f) (hC : ∀ p ∈ C, mem.Alive p) (hnd : C.Nodup)
    (hpos : 0 < h.curSize) :
    ∃ h', popTimer mem h = .ok (update mem (f 0) none, h') ∧
      ∃ g, Sorted mem.expire (C.erase (f 0)) h' g := by
  obtain ⟨n, hn⟩ : ∃ n, h.curSize = n + 1 := Nat.exists_eq_succ_of_ne_zero hpos.ne'
  obtain ⟨t, ht⟩ := hC (f 0) (hs.first_mem hpos)
  have hdelete : delete mem (f 0) = .ok (update mem (f 0) none) := by simp [delete, ht]
  -- deleting the first timer leaves the others as they are
  have hmem : ∀ p ∈ C.erase (f 0), update mem (f 0) none p = mem p := by
    intro p hp
    refine update_of_ne ?_ _ _
    rintro rfl
    exact hnd.notMem_erase hp
  obtain ⟨h', hd, hg⟩ := hs.percolateDown_last hn (update mem (f 0) none) (by
    intro p hp
    obtain ⟨t, ht⟩ := hC p (Multiset.mem_of_mem_erase hp)
    exact ⟨⟨t, (hmem p hp).trans ht⟩, by rw [Timers.expire, hmem p hp, Timers.expire]⟩)
  refine ⟨h', ?_, hg⟩
  rw [hs.popTimer_eq hn, hdelete, Except.ok_bind, hd]
  rfl

/-! ## New heaps -/

theorem sorted_new (key : TimerPtr → ℤ) {cap : ℕ} (h : 0 < cap) :
    Sorted key 0 (new cap) fun _ => 0 where
  length := by simp [new]
  le := Nat.zero_le _
  cells i hi := by simp [new] at hi
  pos := h
  ordered i _ hi := by simp [new] at hi
  contents := rfl

/-- The loop of the constructor puts subtree after subtree in order, from the last
    one to the first. -/
theorem build_spec {mem : Timers} {h : TimeHeap} {f : ℕ → TimerPtr} {k : ℕ} (hs : Stores h f)
    (hk : k ≤ h.curSize) (ho : Heap.OrderedAfter mem.expire f h.curSize k)
    (ha : ∀ p ∈ Heap.contents f h.curSize, mem.Alive p) :
    ∃ array, (List.range k).reverse.foldlM (percolateDown mem) h = .ok { h with array } ∧
      ∃ g, Stores { h with array } g ∧ Heap.Ordered mem.expire g h.curSize ∧
        Heap.contents g h.curSize = Heap.contents f h.curSize := by
  induction k generalizing h f with
  | zero => exact ⟨h.array, rfl, f, hs, ho.ordered, rfl⟩
  | succ k ih =>
    have hsub : ∀ i, 0 < i → i < h.curSize → Heap.Below k (Heap.parent i) → Heap.parent i ≠ k →
        mem.expire (f (Heap.parent i)) ≤ mem.expire (f i) := by
      intro i hi hn hb hne
      have := hb.le
      exact ho i hi hn (by omega)
    obtain ⟨array, hd, g, hg, hgo, hc, hout⟩ := percolateDown_spec hs hk hsub ha
    obtain ⟨array', hrun, g', hg', hgo', hc'⟩ :=
      ih hg (Nat.le_of_succ_le hk) (ho.sink hgo hout) (by rw [hc]; exact ha)
    refine ⟨array', ?_, g', hg', hgo', hc'.trans hc⟩
    rw [List.range_succ, List.reverse_append, List.reverse_singleton, List.singleton_append,
      List.foldlM_cons, hd]
    exact hrun

/-- **A heap is made of the first timers of an array.** -/
theorem ofArray_spec {mem : Timers} {initArray : Cells} {f : ℕ → TimerPtr} {size capacity : ℕ}
    (hcap : 0 < capacity) (hle : size ≤ capacity)
    (hinit : ∀ i < size, initArray[i]? = some (some (f i)))
    (ha : ∀ p ∈ Heap.contents f size, mem.Alive p) :
    ∃ h, ofArray mem initArray size capacity = .ok (some h) ∧
      ∃ g, Sorted mem.expire (Heap.contents f size) h g := by
  rw [ofArray, if_neg (not_lt.2 hle)]
  by_cases hz : size = 0
  · subst hz
    exact ⟨.new capacity, by simp [new], _, sorted_new mem.expire hcap⟩
  · obtain ⟨array, he, hlen, hcells⟩ := copy_spec hle hinit
    have hs : Stores { array, capacity, curSize := size } f := ⟨hlen, hle, hcells⟩
    obtain ⟨array', hrun, g, hg, hgo, hc⟩ := build_spec (k := (size - 1) / 2 + 1) hs
      (by simp only; omega) (.half (by simp only; omega)) ha
    refine ⟨_, ?_, g, ⟨hg, hcap, hgo, hc⟩⟩
    rw [if_pos hz, he, Except.ok_bind, hrun]
    rfl

end TimeHeap

end MyHttpServer
