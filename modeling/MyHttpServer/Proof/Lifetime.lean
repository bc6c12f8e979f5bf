/-
  The timers of a heap, from its constructor to its destructor.

  * `Freed.act`: what an action deletes exists, and is gone behind it;
  * `destroy_spec`: the destructor deletes what the heap holds;
  * `timers_freed`: each timer that is handed to a heap is deleted once.
-/
import MyHttpServer.Proof.HeapRun

namespace MyHttpServer

open Function (update update_self update_of_ne)

/-! ## What a run deletes -/

namespace HeapRun
variable {mem : Timers} {s s' : HeapRun}

/-- The timers of `mem` that have not been deleted exist, and none has been deleted
    twice. -/
structure Freed (mem : Timers) (s : HeapRun) : Prop where
  alive : ∀ p, s.mem.Alive p ↔ mem.Alive p ∧ p ∉ s.deleted
  nodup : s.deleted.Nodup

theorem Freed.congr (h : Freed mem s) (halive : ∀ p, s'.mem.Alive p ↔ s.mem.Alive p)
    (hdel : s'.deleted = s.deleted) : Freed mem s' where
  alive p := by rw [halive, h.alive, hdel]
  nodup := by rw [hdel]; exact h.nodup

theorem Freed.delete (h : Freed mem s) {p : TimerPtr} {mem' : Timers}
    (hd : MyHttpServer.delete s.mem p = .ok mem') (hmem : s'.mem = mem')
    (hdel : s'.deleted = s.deleted ++ [p]) : Freed mem s' := by
  obtain ⟨hp, rfl⟩ := delete_ok hd
  have hnot := ((h.alive p).1 hp).2
  refine ⟨fun q => ?_, ?_⟩
  · rw [hmem, hdel]
    by_cases hq : q = p
    · subst hq
      simp [Timers.Alive]
    · have := h.alive q
      simp only [Timers.Alive, update_of_ne hq] at this ⊢
      simp [this, hq]
  · rw [hdel]
    exact h.nodup.append (by simp) (by simpa using hnot)

/-- `pop_timer` deletes `top()`, if there is one. -/
theorem Freed.popTimer (h : Freed mem s) (hr : s.popTimer = .ok s') : Freed mem s' := by
  obtain ⟨p, htop, hr⟩ := Except.bind_eq_ok.1 hr
  obtain ⟨⟨mem', heap⟩, hpop, hr⟩ := Except.bind_eq_ok.1 hr
  cases hr
  rw [TimeHeap.top] at htop
  rw [TimeHeap.popTimer] at hpop
  split at htop
  · rename_i he
    cases htop
    rw [if_pos he] at hpop
    cases hpop
    exact h.congr (fun _ => Iff.rfl) (by simp [deleted])
  · rename_i he
    rw [if_neg he, htop, Except.ok_bind] at hpop
    cases p with
    | none =>
      cases hpop
      exact h.congr (fun _ => Iff.rfl) (by simp [deleted])
    | some p =>
      obtain ⟨mem₁, hd, hpop⟩ := Except.bind_eq_ok.1 hpop
      obtain ⟨last, -, hpop⟩ := Except.bind_eq_ok.1 hpop
      obtain ⟨array, -, hpop⟩ := Except.bind_eq_ok.1 hpop
      obtain ⟨h₁, -, hpop⟩ := Except.bind_eq_ok.1 hpop
      cases hpop
      exact h.delete hd rfl (by simp [deleted])

theorem Freed.delTimer (h : Freed mem s) {x : Option TimerPtr} (hr : s.delTimer x = .ok s') :
    Freed mem s' := by
  obtain ⟨mem', hdel, hr⟩ := Except.bind_eq_ok.1 hr
  cases hr
  cases x with
  | none =>
    cases hdel
    exact h.congr (fun _ => Iff.rfl) rfl
  | some x =>
    obtain ⟨t, ht, hdel⟩ := Except.bind_eq_ok.1 hdel
    cases hdel
    obtain ⟨_, ⟨⟩, ht⟩ := deref_ok ht
    refine h.congr (fun p => ?_) rfl
    by_cases hp : p = x
    · subst hp
      simp [Timers.Alive, ht]
    · simp only [Timers.Alive, update_of_ne hp]

theorem Freed.finish (h : Freed mem s) {t : TickCall} {ticks : List TickCall}
    (hr : s.finish t ticks = .ok s') : Freed mem s' := by
  obtain ⟨s₁, hpop, hr⟩ := Except.bind_eq_ok.1 hr
  obtain ⟨tmp, -, hr⟩ := Except.bind_eq_ok.1 hr
  cases hr
  exact (h.popTimer hpop).congr (fun _ => Iff.rfl) rfl

theorem Freed.enter (h : Freed mem s) {t : TickCall} {ticks : List TickCall}
    (hr : s.enter t ticks = .ok s') : Freed mem s' := by
  have hsame {r : HeapRun} (hmem : r.mem = s.mem) (hdel : r.deleted = s.deleted) : Freed mem r :=
    h.congr (fun _ => by rw [hmem]) hdel
  unfold HeapRun.enter at hr
  split_ifs at hr
  · cases hr
    exact hsame rfl rfl
  · cases hr
    exact hsame rfl rfl
  obtain ⟨timer, -, hr⟩ := Except.bind_eq_ok.1 hr
  split_ifs at hr
  · cases hr
    exact hsame rfl rfl
  obtain ⟨p, -, hr⟩ := Except.bind_eq_ok.1 hr
  obtain ⟨first, -, hr⟩ := Except.bind_eq_ok.1 hr
  split at hr
  · exact h.finish hr
  · cases hr
    refine hsame rfl ?_
    cases p <;> simp [deleted]

/-- **What an action deletes** exists, and is gone behind it. -/
theorem Freed.act (h : Freed mem s) {a : HeapAction} (hr : s.act a = .ok s') : Freed mem s' := by
  cases a with
  | go =>
    rw [HeapRun.act, HeapRun.go] at hr
    split at hr
    · cases hr
      exact h
    · split_ifs at hr
      · exact h.finish hr
      · exact h.enter hr
  | call c =>
    rw [HeapRun.act] at hr
    split_ifs at hr
    · cases hr
      exact h
    cases c with
    | add x =>
      obtain ⟨heap, -, hr⟩ := Except.bind_eq_ok.1 hr
      cases hr
      refine h.congr (fun _ => Iff.rfl) ?_
      cases x <;> simp [deleted]
    | pop => exact h.popTimer hr
    | del x => exact h.delTimer hr
    | tick cur =>
      obtain ⟨tmp, -, hr⟩ := Except.bind_eq_ok.1 hr
      cases hr
      exact h.congr (fun _ => Iff.rfl) rfl

theorem Freed.run (h : Freed mem s) {as : List HeapAction} (hr : s.run as = .ok s') :
    Freed mem s' := by
  induction as generalizing s with
  | nil =>
    cases hr
    exact h
  | cons a as ih =>
    rw [run_cons] at hr
    obtain ⟨s₁, ha, hr⟩ := Except.bind_eq_ok.1 hr
    exact ih (h.act ha) hr

end HeapRun

/-! ## The destructor -/

section
variable {mem : Timers}

/-- The destructor of a heap with `n` distinct timers that exist. -/
theorem destroy_cells {array : Cells} {capacity n : ℕ} {f : ℕ → TimerPtr}
    (hcells : ∀ i < n, array[i]? = some (some (f i))) (hnd : (Heap.contents f n).Nodup)
    (halive : ∀ p ∈ Heap.contents f n, mem.Alive p) :
    ∃ mem', TimeHeap.destroy mem { array, capacity, curSize := n } = .ok mem' ∧
      ∀ p, mem'.Alive p ↔ mem.Alive p ∧ p ∉ Heap.contents f n := by
  induction n with
  | zero => exact ⟨mem, rfl, by simp [Heap.contents]⟩
  | succ n ih =>
    rw [Heap.contents_succ] at hnd halive
    obtain ⟨hnot, hnd⟩ := Multiset.nodup_cons.1 hnd
    obtain ⟨mem₁, hrun, h₁⟩ := ih (fun i hi => hcells i (by omega)) hnd
      fun p hp => halive p (Multiset.mem_cons_of_mem hp)
    -- the last entry has not been deleted with those in front of it
    obtain ⟨t, ht⟩ := (h₁ (f n)).2 ⟨halive _ (Multiset.mem_cons_self _ _), hnot⟩
    refine ⟨update mem₁ (f n) none, ?_, fun p => ?_⟩
    · rw [TimeHeap.destroy] at hrun ⊢
      rw [List.range_succ, List.foldlM_append, hrun, Except.ok_bind, List.foldlM_cons,
        Cells.load_eq (hcells n (by omega))]
      simp [delete, ht]
    · rw [Heap.contents_succ, Multiset.mem_cons, not_or]
      by_cases hp : p = f n
      · subst hp
        simp [Timers.Alive]
      · have := h₁ p
        simp only [Timers.Alive, update_of_ne hp] at this ⊢
        rw [this]
        tauto

/-- **The destructor** deletes the timers that the heap holds, and no others. -/
theorem TimeHeap.Sorted.destroy_spec {key : TimerPtr → ℤ} {C : Multiset TimerPtr} {h : TimeHeap}
    {f : ℕ → TimerPtr} (hs : Sorted key C h f) (hl : HeapRun.Live C mem) :
    ∃ mem', h.destroy mem = .ok mem' ∧ ∀ p, mem'.Alive p ↔ mem.Alive p ∧ p ∉ C := by
  obtain ⟨hnd, halive⟩ := hl
  rw [← hs.contents] at hnd halive ⊢
  exact destroy_cells hs.cells hnd halive

end

/-! ## From the constructor to the destructor -/

/-- **Each timer that is handed to a heap is deleted once**, by a run in which only
    timers are added and cancelled that exist, or by the destructor behind it; no
    timer is handed over twice, and none but these is deleted. -/
theorem timers_freed {mem : Timers} {start : HeapStart} (hp : start.Proper)
    (hnd : start.timers.Nodup) (ha : ∀ p ∈ start.timers, mem.Alive p) {heap : TimeHeap}
    (hm : start.make mem = .ok (some heap)) {as : List HeapAction}
    (hl : HeapRun.Legal { mem, heap } as) :
    ∃ s mem', HeapRun.run { mem, heap } as = .ok s ∧ s.heap.destroy s.mem = .ok mem' ∧
      (start.timers + (s.added : Multiset TimerPtr)).Nodup ∧
      ∀ p, mem'.Alive p ↔ mem.Alive p ∧ p ∉ start.timers + (s.added : Multiset TimerPtr) := by
  obtain ⟨f, h⟩ := hp.held hm
  obtain ⟨s, hr, C, g, hg, hlive⟩ := h.exists_run ⟨nofun, nofun⟩ ⟨hnd, ha⟩ hl
  have hstart : HeapRun.Freed mem { mem, heap } := ⟨by simp [HeapRun.deleted], by
    simp [HeapRun.deleted]⟩
  have hfreed := hstart.run hr
  obtain ⟨mem', hdestroy, hmem'⟩ := hg.sorted.destroy_spec hlive
  refine ⟨s, mem', hr, hdestroy, ?_, fun p => ?_⟩
  · -- what is left exists, so that it has not been deleted before
    rw [← hg.count]
    refine Multiset.nodup_add.2 ⟨hlive.1, Multiset.coe_nodup.2 hfreed.nodup, ?_⟩
    rw [Multiset.disjoint_left]
    intro p hpC
    exact ((hfreed.alive p).1 (hlive.2 p hpC)).2
  · rw [hmem', hfreed.alive, ← hg.count, Multiset.mem_add, not_or, Multiset.mem_coe]
    tauto

/-- A timer is given, a second one is added, and one of them is taken off. -/
theorem timers_freed_two :
    ∃ s mem', HeapRun.run { mem := threeTimers, heap := ⟨[some 2], 1, 1⟩ }
        [.call (.add (some 0)), .call .pop] = .ok s ∧
      s.heap.destroy s.mem = .ok mem' ∧ s.deleted = [0] ∧
      ∀ p, mem'.Alive p ↔ threeTimers.Alive p ∧ p ∉ ({2, 0} : Multiset TimerPtr) := by
  have hp : (HeapStart.ofArray [some 2] 1 1).Proper := by
    refine ⟨le_rfl, le_rfl, ?_⟩
    rintro (_ | i) hi
    · exact ⟨2, rfl⟩
    · omega
  have ha : ∀ p ∈ (HeapStart.ofArray [some 2] 1 1).timers, threeTimers.Alive p := by
    intro p hp
    rw [show (HeapStart.ofArray [some 2] 1 1).timers = {2} from rfl, Multiset.mem_singleton] at hp
    exact ⟨_, by rw [hp]; rfl⟩
  have hl : HeapRun.Legal { mem := threeTimers, heap := ⟨[some 2], 1, 1⟩ }
      [.call (.add (some 0)), .call .pop] :=
    ⟨fun _ => ⟨⟨_, rfl⟩, by decide⟩, fun _ _ => ⟨fun _ => trivial, fun _ _ => trivial⟩⟩
  obtain ⟨s, mem', hr, hd, -, halive⟩ :=
    @timers_freed threeTimers _ hp (Multiset.nodup_singleton 2) ha ⟨[some 2], 1, 1⟩ rfl _ hl
  refine ⟨s, mem', hr, hd, ?_⟩
  cases hr
  exact ⟨rfl, halive⟩

end MyHttpServer
