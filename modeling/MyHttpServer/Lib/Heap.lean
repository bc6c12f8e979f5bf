/-
  Binary heaps with a hole.

  The entries stand at the positions `0, 1, ..`; those of `i` are below its
  parent `(i - 1) / 2`.  An entry `x` is sifted by moving a hole: `f` are the
  entries with anything at the hole, and `update f hole x` is what the heap
  would be with `x` put there.

  * `Rising`, `Sinking`: what holds while the hole moves up, or down the subtree
    at `top`; `move` is one step and `fill` the end of it;
  * `MovesBelow`: permutations of the positions of a subtree;
  * `contents_move`, `contents_pop`: which entries there are, but for their
    positions;
  * `Ordered.root_le`: the first entry is a least one;
  * `OrderedAfter.sink`: building a heap from its end.
-/
import Mathlib.Tactic

namespace Heap

open Function

/-! ## Positions -/

/-- The parent of a position (of `0`, `0`). -/
def parent (i : ℕ) : ℕ := (i - 1) / 2

theorem parent_lt {i : ℕ} (h : 0 < i) : parent i < i := by unfold parent; omega

theorem parent_eq_iff {i p : ℕ} (h : 0 < i) : parent i = p ↔ i = 2 * p + 1 ∨ i = 2 * p + 2 := by
  unfold parent; omega

/-- The positions of the subtree at `top`. -/
inductive Below (top : ℕ) : ℕ → Prop
  | top : Below top top
  | child {i} : 0 < i → Below top (parent i) → Below top i

theorem Below.zero (i : ℕ) : Below 0 i := by
  induction i using Nat.strong_induction_on with
  | _ i ih =>
    rcases Nat.eq_zero_or_pos i with rfl | h
    · exact .top
    · exact .child h (ih _ (parent_lt h))

theorem Below.le {top i : ℕ} (h : Below top i) : top ≤ i := by
  induction h with
  | top => exact le_rfl
  | child hi _ ih => exact ih.trans (parent_lt hi).le

theorem Below.parent {top i : ℕ} (h : Below top i) (hne : i ≠ top) :
    0 < i ∧ Below top (parent i) := by
  cases h with
  | top => exact absurd rfl hne
  | child hi h => exact ⟨hi, h⟩

/-! ## Exchanging positions -/

/-- `σ` moves positions of the subtree at `top` only, among the first `n`. -/
def MovesBelow (σ : Equiv.Perm ℕ) (n top : ℕ) : Prop := ∀ i, σ i ≠ i → Below top i ∧ i < n

namespace MovesBelow
variable {σ : Equiv.Perm ℕ} {n top : ℕ}

theorem one (n top : ℕ) : MovesBelow 1 n top := fun _ h => absurd rfl h

end MovesBelow

section
variable {α : Type*}

/-- The first `n` entries, in any order. -/
def contents (f : ℕ → α) (n : ℕ) : Multiset α := (Multiset.range n).map f

theorem contents_congr {f g : ℕ → α} {n : ℕ} (h : ∀ i < n, f i = g i) :
    contents f n = contents g n :=
  Multiset.map_congr rfl fun i hi => h i (Multiset.mem_range.1 hi)

theorem contents_succ (f : ℕ → α) (n : ℕ) : contents f (n + 1) = f n ::ₘ contents f n := by
  rw [contents, Multiset.range_succ, Multiset.map_cons, contents]

theorem mem_contents {f : ℕ → α} {n : ℕ} {a : α} : a ∈ contents f n ↔ ∃ i < n, f i = a := by
  simp [contents]

theorem contents_swap (f : ℕ → α) {n i j : ℕ} (hi : i < n) (hj : j < n) :
    contents (f ∘ Equiv.swap i j) n = contents f n := by
  have hlt : ∀ k, Equiv.swap i j k < n ↔ k < n := by
    intro k
    rw [Equiv.swap_apply_def]
    split_ifs <;> omega
  have hr : (Multiset.range n).map (Equiv.swap i j) = Multiset.range n := by
    refine (Multiset.Nodup.ext ((Multiset.nodup_range n).map (Equiv.swap i j).injective)
      (Multiset.nodup_range n)).2 ?_
    intro k
    simp only [Multiset.mem_map, Multiset.mem_range]
    constructor
    · rintro ⟨l, hl, rfl⟩
      exact (hlt l).2 hl
    · intro hk
      exact ⟨Equiv.swap i j k, (hlt k).2 hk, Equiv.swap_apply_self i j k⟩
  rw [contents, ← Multiset.map_map, hr, contents]

/-- **Moving the hole** from `i` to `j` keeps the entries. -/
theorem contents_move (f : ℕ → α) (x : α) {n i j : ℕ} (hi : i < n) (hj : j < n) (hne : i ≠ j) :
    contents (update (update f i (f j)) j x) n = contents (update f i x) n := by
  have h : update (update f i (f j)) j x = update f i x ∘ Equiv.swap i j := by
    funext k
    rw [comp_apply, Equiv.swap_apply_def]
    split_ifs with h1 h2
    · subst h1; simp [hne, Ne.symm hne]
    · subst h2; simp
    · simp [h1, h2]
  rw [h, contents_swap _ hi hj]

/-- The last entry in the place of the first. -/
theorem contents_pop (f : ℕ → α) (n : ℕ) :
    contents f (n + 1) = f 0 ::ₘ contents (update f 0 (f n)) n := by
  rw [← contents_swap f (show 0 < n + 1 by omega) (Nat.lt_succ_self n), contents_succ]
  congr 1
  · simp
  · refine contents_congr ?_
    intro i hi
    rw [comp_apply, Equiv.swap_apply_def, update_apply]
    split_ifs with h1 h2
    · rfl
    · omega
    · rfl

end

/-! ## Order -/

variable {α β : Type*} [LinearOrder β] (key : α → β)

/-- No entry of the subtree at `top` is less than its parent. -/
def OrderedFrom (f : ℕ → α) (n top : ℕ) : Prop :=
  ∀ i, 0 < i → i < n → Below top (parent i) → key (f (parent i)) ≤ key (f i)

/-- The first `n` entries are a heap. -/
def Ordered (f : ℕ → α) (n : ℕ) : Prop :=
  ∀ i, 0 < i → i < n → key (f (parent i)) ≤ key (f i)

variable {key}

theorem orderedFrom_zero {f : ℕ → α} {n : ℕ} : OrderedFrom key f n 0 ↔ Ordered key f n := by
  constructor
  · intro h i hi hn
    exact h i hi hn (.zero _)
  · intro h i hi hn _
    exact h i hi hn

/-- **The first entry of a heap is a least one.** -/
theorem Ordered.root_le {f : ℕ → α} {n i : ℕ} (h : Ordered key f n) (hi : i < n) :
    key (f 0) ≤ key (f i) := by
  induction i using Nat.strong_induction_on with
  | _ i ih =>
    rcases Nat.eq_zero_or_pos i with rfl | hpos
    · exact le_rfl
    · have hp := parent_lt hpos
      exact (ih _ hp (hp.trans hi)).trans (h i hpos hi)

/-! ## Building a heap -/

/-- No entry is less than its parent, if that stands at `k` or behind it. -/
def OrderedAfter (key : α → β) (f : ℕ → α) (n k : ℕ) : Prop :=
  ∀ i, 0 < i → i < n → k ≤ parent i → key (f (parent i)) ≤ key (f i)

namespace OrderedAfter
variable {f g : ℕ → α} {n k : ℕ}

/-- The entries of the second half are no parents. -/
theorem half (h : n ≤ 2 * k + 1) : OrderedAfter key f n k := by
  intro i hi hn hk
  unfold parent at hk
  omega

theorem ordered (h : OrderedAfter key f n 0) : Ordered key f n :=
  fun i hi hn => h i hi hn (Nat.zero_le _)

/-- Putting the subtree at `k` in order does not spoil the others. -/
theorem sink (h : OrderedAfter key f n (k + 1)) (hg : OrderedFrom key g n k)
    (hout : ∀ i, ¬ Below k i → g i = f i) : OrderedAfter key g n k := by
  intro i hi hn hk
  by_cases hb : Below k (parent i)
  · exact hg i hi hn hb
  · have hlt := parent_lt hi
    have hne : parent i ≠ k := fun he => hb (he ▸ .top)
    have hbi : ¬ Below k i := fun hbi => hb (hbi.parent (by omega)).2
    rw [hout _ hb, hout _ hbi]
    exact h i hi hn (by omega)

end OrderedAfter

/-! ## Sifting up -/

/-- `x` is on its way up, the hole at `p`: the entries off the hole are in order,
    also around it, and `x` is at most those below the hole. -/
structure Rising (key : α → β) (f : ℕ → α) (n p : ℕ) (x : α) : Prop where
  lt : p < n
  off : ∀ i, 0 < i → i < n → i ≠ p → parent i ≠ p → key (f (parent i)) ≤ key (f i)
  around : 0 < p → ∀ c, 0 < c → c < n → parent c = p → key (f (parent p)) ≤ key (f c)
  below : ∀ c, 0 < c → c < n → parent c = p → key x ≤ key (f c)

namespace Rising
variable {f : ℕ → α} {n p : ℕ} {x : α}

/-- A new last entry begins at the end. -/
theorem start (h : Ordered key f n) (x : α) : Rising key f (n + 1) n x where
  lt := Nat.lt_succ_self n
  off i hi hn hne _ := h i hi (by omega)
  around _ c hc hn hp := by rw [parent_eq_iff hc] at hp; omega
  below c hc hn hp := by rw [parent_eq_iff hc] at hp; omega

theorem move (h : Rising key f n p x) (hp : 0 < p) (hx : key x < key (f (parent p))) :
    Rising key (update f p (f (parent p))) n (parent p) x := by
  have hlt := parent_lt hp
  have hup : 0 < parent p → key (f (parent (parent p))) ≤ key (f (parent p)) := by
    intro hq
    have := parent_lt hq
    exact h.off _ hq (by have := h.lt; omega) (by omega) (by omega)
  refine ⟨by have := h.lt; omega, ?_, ?_, ?_⟩
  · intro i hi hn hne hpne
    have hip : i ≠ p := by rintro rfl; exact hpne rfl
    rw [update_of_ne hip]
    by_cases hpp : parent i = p
    · rw [hpp, update_self]
      exact h.around hp i hi hn hpp
    · rw [update_of_ne hpp]
      exact h.off i hi hn hip hpp
  · intro hq c hc hn hcp
    have := parent_lt hq
    rw [update_of_ne (by omega)]
    by_cases hcp' : c = p
    · subst hcp'
      rw [update_self]
      exact hup hq
    · rw [update_of_ne hcp']
      have hc' := h.off c hc hn hcp' (by omega)
      rw [hcp] at hc'
      exact (hup hq).trans hc'
  · intro c hc hn hcp
    by_cases hcp' : c = p
    · subst hcp'
      rw [update_self]
      exact hx.le
    · rw [update_of_ne hcp']
      have hc' := h.off c hc hn hcp' (by omega)
      rw [hcp] at hc'
      exact hx.le.trans hc'

theorem fill (h : Rising key f n p x) (hx : 0 < p → key (f (parent p)) ≤ key x) :
    Ordered key (update f p x) n := by
  intro i hi hn
  by_cases hip : i = p
  · subst hip
    have := parent_lt hi
    rw [update_self, update_of_ne (by omega)]
    exact hx hi
  · rw [update_of_ne hip]
    by_cases hpp : parent i = p
    · rw [hpp, update_self]
      exact h.below i hi hn hpp
    · rw [update_of_ne hpp]
      exact h.off i hi hn hip hpp

end Rising

/-! ## Sifting down -/

/-- `x` is on its way down the subtree at `top`, the hole at `p`: the entries off
    the hole are in order, also around it, and `x` is at least the one above. -/
structure Sinking (key : α → β) (f : ℕ → α) (n top p : ℕ) (x : α) : Prop where
  lt : p < n
  inside : Below top p
  off : ∀ i, 0 < i → i < n → Below top (parent i) → i ≠ p → parent i ≠ p →
    key (f (parent i)) ≤ key (f i)
  above : p ≠ top → key (f (parent p)) ≤ key x
  around : p ≠ top → ∀ c, 0 < c → c < n → parent c = p → key (f (parent p)) ≤ key (f c)

namespace Sinking
variable {f : ℕ → α} {n top p : ℕ} {x : α}

/-- An entry begins at the top of a subtree that is in order but for it. -/
theorem start (ht : top < n)
    (h : ∀ i, 0 < i → i < n → Below top (parent i) → parent i ≠ top →
      key (f (parent i)) ≤ key (f i)) (x : α) : Sinking key f n top top x where
  lt := ht
  inside := .top
  off i hi hn hb _ hp := h i hi hn hb hp
  above hne := absurd rfl hne
  around hne := absurd rfl hne

theorem move {c : ℕ} (h : Sinking key f n top p x) (hc : 0 < c) (hn : c < n) (hp : parent c = p)
    (hmin : ∀ d, 0 < d → d < n → parent d = p → key (f c) ≤ key (f d))
    (hx : key (f c) < key x) : Sinking key (update f p (f c)) n top c x := by
  have hpc : p < c := hp ▸ parent_lt hc
  have hbelow : ∀ d, 0 < d → parent d = c → d ≠ p ∧ d ≠ c := by
    intro d hd hdc
    have := parent_lt hd
    omega
  refine ⟨hn, .child hc (hp ▸ h.inside), ?_, ?_, ?_⟩
  · intro i hi hin hb hic hpic
    by_cases hip : i = p
    · subst hip
      have := parent_lt hi
      rw [update_self, update_of_ne (by omega)]
      have hne : i ≠ top := by
        rintro rfl
        exact absurd hb.le (by omega)
      exact h.around hne c hc hn hp
    · rw [update_of_ne hip]
      by_cases hpp : parent i = p
      · rw [hpp, update_self]
        exact hmin i hi hin hpp
      · rw [update_of_ne hpp]
        exact h.off i hi hin hb hip hpp
  · intro _
    rw [hp, update_self]
    exact hx.le
  · intro _ d hd hdn hdc
    rw [hp, update_self, update_of_ne (hbelow d hd hdc).1]
    have hb : Below top (parent d) := hdc ▸ .child hc (hp ▸ h.inside)
    have := h.off d hd hdn hb (hbelow d hd hdc).1 (by omega)
    rwa [hdc] at this

theorem fill (h : Sinking key f n top p x)
    (hx : ∀ c, 0 < c → c < n → parent c = p → key x ≤ key (f c)) :
    OrderedFrom key (update f p x) n top := by
  intro i hi hn hb
  by_cases hip : i = p
  · subst hip
    have := parent_lt hi
    rw [update_self, update_of_ne (by omega)]
    refine h.above ?_
    rintro rfl
    exact absurd hb.le (by omega)
  · rw [update_of_ne hip]
    by_cases hpp : parent i = p
    · rw [hpp, update_self]
      exact hx i hi hn hpp
    · rw [update_of_ne hpp]
      exact h.off i hi hn hb hip hpp

end Sinking

end Heap
