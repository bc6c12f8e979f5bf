/-
  C strings in arrays of a fixed size.

  An array is the list of what is in it.  A string in it goes up to the first
  `nul`.  An operation that would read or write behind the end of its array has no
  result.

  * `Holds a s`: the array `a` holds the string `s`;
  * `Holds.strcat`: there is room for `t` behind `s`, or not;
  * `strncpy_blank`: a string that is cut is ended only where room is left.
-/
import Mathlib.Data.List.TakeWhile
import Mathlib.Tactic

namespace CString
variable {α : Type*} (nul : α)

/-- The array with `bs` in it from `pos` on. -/
def write (a : List α) (pos : ℕ) (bs : List α) : Option (List α) :=
  if pos + bs.length ≤ a.length then some (a.take pos ++ bs ++ a.drop (pos + bs.length)) else none

def strcpy (a src : List α) : Option (List α) := write a 0 (src ++ [nul])

def strncpy (a src : List α) (n : ℕ) : Option (List α) :=
  write a 0 (src.take n ++ List.replicate (n - src.length) nul)

/-- The array holds the string `s`. -/
def Holds (a s : List α) : Prop := nul ∉ s ∧ ∃ rest, a = s ++ nul :: rest

variable {nul} {a s t : List α} {size n : ℕ}

theorem holds_nil_iff : Holds nul a [] ↔ a.head? = some nul := by
  cases a with
  | nil => simp [Holds]
  | cons c a => simp [Holds]

/-- What is written over the end of the string. -/
theorem Holds.write (h : Holds nul a s) (ht : nul ∉ t) (hlt : s.length + t.length < a.length) :
    ∃ b, CString.write a s.length (t ++ [nul]) = some b ∧ Holds nul b (s ++ t) ∧
      b.length = a.length := by
  obtain ⟨hs, rest, rfl⟩ := h
  have hle : s.length + (t ++ [nul]).length ≤ (s ++ nul :: rest).length := by
    simp only [List.length_append, List.length_cons, List.length_nil] at hlt ⊢
    omega
  refine ⟨_, if_pos hle, ⟨?_, (s ++ nul :: rest).drop (s.length + (t ++ [nul]).length), ?_⟩, ?_⟩
  · simp [hs, ht]
  · rw [List.take_left]
    simp only [List.append_assoc, List.singleton_append]
  · simp only [List.length_append, List.length_take, List.length_drop, List.length_cons,
      List.length_nil] at hle ⊢
    omega

theorem strcpy_blank (size : ℕ) (ht : nul ∉ t) (hlt : t.length < size) :
    ∃ b, strcpy nul (List.replicate size nul) t = some b ∧ Holds nul b t ∧ b.length = size := by
  have hblank : Holds nul (List.replicate size nul) [] := by
    rw [holds_nil_iff, List.head?_replicate, if_neg (by omega)]
  obtain ⟨b, hb, hh, hl⟩ := hblank.write ht (by simpa using hlt)
  exact ⟨b, hb, hh, by simpa using hl⟩

section
variable [DecidableEq α]

/-- The string that an array holds. -/
def read (nul : α) (a : List α) : Option (List α) :=
  if nul ∈ a then some (a.takeWhile (· ≠ nul)) else none

def strcat (nul : α) (a src : List α) : Option (List α) := do
  let s ← read nul a
  write a s.length (src ++ [nul])

theorem Holds.read (h : Holds nul a s) : read nul a = some s := by
  obtain ⟨hs, rest, rfl⟩ := h
  have hall : ∀ c ∈ s, decide (c ≠ nul) = true := by
    rintro c hc
    refine decide_eq_true ?_
    rintro rfl
    exact hs hc
  rw [CString.read, if_pos (by simp), List.takeWhile_append_of_pos hall]
  simp

/-- **Room for a string behind another.** -/
theorem Holds.strcat (h : Holds nul a s) (ht : nul ∉ t) (hlt : s.length + t.length < a.length) :
    ∃ b, strcat nul a t = some b ∧ Holds nul b (s ++ t) ∧ b.length = a.length := by
  rw [CString.strcat, h.read]
  exact h.write ht hlt

theorem read_eq_none (h : nul ∉ a) : CString.read nul a = none := if_neg h

end

/-- **A string that is cut, in a blank array**: it is ended if there is room left. -/
theorem strncpy_blank (hn : n ≤ t.length) (hle : n ≤ size) :
    strncpy nul (List.replicate size nul) t n =
      some (t.take n ++ List.replicate (size - n) nul) := by
  have hlen : (t.take n).length = n := List.length_take_of_le hn
  have hpad : t.take n ++ List.replicate (n - t.length) nul = t.take n := by
    rw [Nat.sub_eq_zero_of_le hn, List.replicate_zero, List.append_nil]
  rw [strncpy, hpad, write, hlen, List.length_replicate, Nat.zero_add, if_pos hle, List.take_zero,
    List.nil_append, List.drop_replicate]

theorem holds_padded (hs : nul ∉ s) (hn : 0 < n) : Holds nul (s ++ List.replicate n nul) s := by
  obtain ⟨k, rfl⟩ := Nat.exists_eq_succ_of_ne_zero hn.ne'
  exact ⟨hs, List.replicate k nul, rfl⟩

/-- Behind the end of the array. -/
theorem strncpy_eq_none (hlt : a.length < n) : strncpy nul a t n = none := by
  refine if_neg ?_
  rw [List.length_append, List.length_take, List.length_replicate]
  omega

end CString
