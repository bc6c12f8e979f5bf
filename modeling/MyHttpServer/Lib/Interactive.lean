/-
  Programs that read and write, one step at a time.

  An `Interactive` program asks for items of its input, writes items, and ends
  with a result.  What it is asked to do next may depend on everything that it
  has read, and every path through it is finite (`wf`).

  `Goes cap c inp out d`: the program `c` has come to `d`, having read `inp`, at
  most `cap` items at a time, and written `out`.

  * `Goes.within`: a bound on what is read, along a path;
  * `Goes.of_write_exit`: the paths through a program that only writes;
  * `Goes.of_readN`: the paths through a program that first reads a given number
    of items, one by one.
-/
import Mathlib.Tactic

/-- A program over items of `A`, with results in `α`. -/
inductive Interactive (A α : Type*) where
  /-- asks for `n + 1` items, and gets at least one and at most these -/
  | read (n : ℕ) (next : List A → Interactive A α)
  | write (as : List A) (next : Interactive A α)
  | exit (a : α)

namespace Interactive
variable {A α : Type*} {cap r : ℕ} {c d : Interactive A α} {inp out : List A}

/-- The program has come to its end. -/
def Exited : Interactive A α → Prop
  | .exit _ => True
  | _ => False

@[simp] theorem exited_exit (a : α) : (.exit a : Interactive A α).Exited := trivial
@[simp] theorem not_exited_read (n : ℕ) (next : List A → Interactive A α) :
    ¬ (read n next).Exited := id
@[simp] theorem not_exited_write (as : List A) (next : Interactive A α) :
    ¬ (write as next).Exited := id

theorem Exited.exists_eq (h : c.Exited) : ∃ a, c = .exit a := by
  cases c with
  | read => exact h.elim
  | write => exact h.elim
  | exit a => exact ⟨a, rfl⟩

/-- The program reads `r` items at most: it asks only while it has got less. -/
def Within : Interactive A α → ℕ → Prop
  | .read n next, r => 0 < r ∧
      ∀ as, as ≠ [] → as.length ≤ n + 1 → as.length ≤ r → (next as).Within (r - as.length)
  | .write _ next, r => next.Within r
  | .exit _, _ => True

theorem within_exit (a : α) (r : ℕ) : (exit a : Interactive A α).Within r := trivial

/-! ## Paths -/

/-- The program `c` has come to another, having read and written. -/
inductive Goes (cap : ℕ) (c : Interactive A α) : List A → List A → Interactive A α → Prop
  | start : Goes cap c [] [] c
  | read {inp out n next as} : Goes cap c inp out (.read n next) → as ≠ [] →
      as.length ≤ n + 1 → as.length ≤ cap → Goes cap c (inp ++ as) out (next as)
  | write {inp out a as next} : Goes cap c inp out (.write (a :: as) next) →
      Goes cap c inp (out ++ [a]) (.write as next)
  | written {inp out next} : Goes cap c inp out (.write [] next) → Goes cap c inp out next

/-- **What is still to be read** along a path. -/
theorem Goes.within (h : Goes cap c inp out d) (hc : c.Within r) (hr : inp.length ≤ r) :
    d.Within (r - inp.length) := by
  induction h with
  | start => simpa using hc
  | @read inp out n next as h hne hle _ ih =>
    rw [List.length_append] at hr ⊢
    have := (ih (by omega)).2 as hne hle (by omega)
    rwa [Nat.sub_sub] at this
  | write h ih => exact ih hr
  | written h ih => exact ih hr

/-- What a program that only writes `as` can have done. -/
theorem Goes.of_write_exit {as : List A} {a : α} (h : Goes cap (.write as (.exit a)) inp out d) :
    inp = [] ∧ ((∃ bs, out ++ bs = as ∧ d = .write bs (.exit a)) ∨ out = as ∧ d = .exit a) := by
  induction h with
  | start => exact ⟨rfl, .inl ⟨as, rfl, rfl⟩⟩
  | read _ _ _ _ ih =>
    rcases ih.2 with ⟨bs, -, hd⟩ | ⟨-, hd⟩ <;> cases hd
  | write _ ih =>
    obtain ⟨hin, ⟨bs, hbs, hd⟩ | ⟨-, hd⟩⟩ := ih
    · cases hd
      exact ⟨hin, .inl ⟨_, by rw [List.append_assoc]; exact hbs, rfl⟩⟩
    · cases hd
  | written _ ih =>
    obtain ⟨hin, ⟨bs, hbs, hd⟩ | ⟨-, hd⟩⟩ := ih
    · cases hd
      exact ⟨hin, .inr ⟨by rw [← hbs, List.append_nil], rfl⟩⟩
    · cases hd

/-- `d` is what is left of `c` after one step of it. -/
inductive Next : Interactive A α → Interactive A α → Prop
  | read (n next as) : Next (next as) (.read n next)
  | write (a as next) : Next (.write as next) (.write (a :: as) next)
  | written (next) : Next next (.write [] next)

theorem acc_next (c : Interactive A α) : Acc Next c := by
  induction c with
  | read n next ih =>
    constructor
    rintro _ ⟨⟩
    exact ih _
  | write as next ih =>
    induction as with
    | nil =>
      constructor
      rintro _ ⟨⟩
      exact ih
    | cons a as ihs =>
      constructor
      rintro _ ⟨⟩
      exact ihs
  | exit a =>
    constructor
    rintro _ ⟨⟩

theorem wf : WellFounded (@Next A α) := ⟨acc_next⟩

/-! ## Reading a number of items -/

/-- Reads `n` items, one by one, behind those of `acc`, and goes on with all of
    them. -/
def readN (k : List A → Interactive A α) : ℕ → List A → Interactive A α
  | 0, acc => k acc
  | n + 1, acc => .read 0 fun as => readN k n (acc ++ as)

/-- **A program that begins with `readN`** has yet to read some of its items, or
    it has read all of them and goes on with what they are. -/
theorem Goes.of_readN {k : List A → Interactive A α} {n : ℕ}
    (h : Goes cap (readN k n []) inp out d) :
    (∃ m, 0 < m ∧ inp.length + m = n ∧ out = [] ∧ d = readN k m inp) ∨
      ∃ i j, inp = i ++ j ∧ i.length = n ∧ Goes cap (k i) j out d := by
  induction h with
  | start =>
    rcases Nat.eq_zero_or_pos n with rfl | hn
    · exact .inr ⟨[], [], rfl, rfl, .start⟩
    · exact .inl ⟨n, hn, by simp, rfl, rfl⟩
  | @read inp out n' next as h hne hle hcap ih =>
    rcases ih with ⟨m, hm, hlen, rfl, he⟩ | ⟨i, j, rfl, hi, hg⟩
    · obtain ⟨m, rfl⟩ := Nat.exists_eq_succ_of_ne_zero hm.ne'
      rw [readN] at he
      cases he
      have hone : as.length = 1 := by
        have := List.length_pos_iff.2 hne
        omega
      rcases Nat.eq_zero_or_pos m with rfl | hm
      · exact .inr ⟨inp ++ as, [], by simp, by simp; omega, .start⟩
      · exact .inl ⟨m, hm, by simp; omega, rfl, rfl⟩
    · exact .inr ⟨i, j ++ as, by simp, hi, hg.read hne hle hcap⟩
  | write h ih =>
    rcases ih with ⟨m, hm, -, -, he⟩ | ⟨i, j, rfl, hi, hg⟩
    · obtain ⟨m, rfl⟩ := Nat.exists_eq_succ_of_ne_zero hm.ne'
      cases he
    · exact .inr ⟨i, j, rfl, hi, hg.write⟩
  | written h ih =>
    rcases ih with ⟨m, hm, -, -, he⟩ | ⟨i, j, rfl, hi, hg⟩
    · obtain ⟨m, rfl⟩ := Nat.exists_eq_succ_of_ne_zero hm.ne'
      cases he
    · exact .inr ⟨i, j, rfl, hi, hg.written⟩

theorem within_readN {k : List A → Interactive A α} (hk : ∀ as, (k as).Within 0) (n : ℕ)
    (acc : List A) : (readN k n acc).Within n := by
  induction n generalizing acc with
  | zero => exact hk acc
  | succ n ih =>
    refine ⟨Nat.succ_pos n, fun as hne hle _ => ?_⟩
    have hone : as.length = 1 := by
      have := List.length_pos_iff.2 hne
      omega
    rw [hone]
    exact ih (acc ++ as)

end Interactive
