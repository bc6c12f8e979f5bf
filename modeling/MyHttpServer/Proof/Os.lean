/-
  Descriptors: what `open` gives out and what can be read through it.

  * `lowestFree_notMem`, `lowestFree_eq_zero`: the descriptor that is given out
    was free, and it is 0 exactly if 0 was;
  * `openFile_cases`: `open` gives out that descriptor or fails;
  * `contentOf_alloc`: a descriptor given out reads the file.
-/
import Mathlib.Data.List.NodupEquivFin
import MyHttpServer.Model.Os

namespace MyHttpServer

namespace Os
variable {σ : Type} {M : Machine σ} {os : Os σ}

/-- Some number up to the length of a list is not in it. -/
theorem exists_range_notMem (l : List ℕ) : ∃ n ∈ List.range (l.length + 1), n ∉ l := by
  by_contra! h
  have := (List.nodup_range.subperm h).length_le
  rw [List.length_range] at this
  omega

theorem lowestFree_notMem (os : Os σ) : os.lowestFree ∉ os.used := by
  unfold lowestFree
  obtain ⟨n, hn, hfree⟩ := exists_range_notMem os.used
  cases hf : (List.range (os.used.length + 1)).find? (· ∉ os.used) with
  | none =>
    have := List.find?_eq_none.1 hf n hn
    simp [hfree] at this
  | some m => simpa using List.find?_some hf

theorem lowestFree_eq_zero (os : Os σ) : os.lowestFree = 0 ↔ 0 ∉ os.used := by
  constructor
  · intro h
    rw [← h]; exact os.lowestFree_notMem
  · intro h
    simp [lowestFree, List.range_succ_eq_map, h]

/-- The process after an `open` of `path` with the result `fd`, which has added
    `new` to its descriptors. -/
def afterOpen (os : Os σ) (path : Bytes) (fd : ℤ) (new : List (ℕ × Bytes)) : Os σ :=
  { os with
    fds := os.fds ++ new
    refusals := os.refusals.tail
    trace := os.trace ++ [.open (cStr path) fd] }

section
variable (os : Os σ) (path : Bytes) (fd : ℤ) (new : List (ℕ × Bytes))

@[simp] theorem afterOpen_disk : (os.afterOpen path fd new).disk = os.disk := rfl
@[simp] theorem afterOpen_fds : (os.afterOpen path fd new).fds = os.fds ++ new := rfl
@[simp] theorem afterOpen_refusals : (os.afterOpen path fd new).refusals = os.refusals.tail := rfl
@[simp] theorem afterOpen_trace :
    (os.afterOpen path fd new).trace = os.trace ++ [.open (cStr path) fd] := rfl
@[simp] theorem afterOpen_used :
    (os.afterOpen path fd new).used = os.used ++ new.map Prod.fst := by simp [used]

end

/-- **`open` gives out the lowest free descriptor, or fails.** -/
theorem openFile_cases (os : Os σ) (path : Bytes) :
    (∃ f, os.refusals.headD false = false ∧ M.lookup os.disk (cStr path) = some f ∧
      f.readable = true ∧ os.openFile M path =
        ((os.lowestFree : ℤ), os.afterOpen path os.lowestFree [(os.lowestFree, f.content)])) ∨
    ((os.refusals.headD false = false → ∀ f, M.lookup os.disk (cStr path) = some f →
        f.readable = false) ∧ os.openFile M path = (-1, os.afterOpen path (-1) [])) := by
  unfold openFile refuse
  cases hr : os.refusals.headD false with
  | true => exact .inr ⟨by simp, by simp [note, afterOpen]⟩
  | false =>
    cases hl : M.lookup os.disk (cStr path) with
    | none => exact .inr ⟨by simp, by simp [hl, note, afterOpen]⟩
    | some f =>
      cases hf : f.readable with
      | true => exact .inl ⟨f, rfl, rfl, hf, by simp only [hl, hf, if_true]; rfl⟩
      | false =>
        refine .inr ⟨?_, by simp [hl, hf, note, afterOpen]⟩
        rintro - g hg
        cases hg; exact hf

section
variable {path : Bytes}

theorem openFile_granted {f : Inode} (hr : os.refusals.headD false = false)
    (hl : M.lookup os.disk (cStr path) = some f) (hf : f.readable = true) :
    os.openFile M path =
      ((os.lowestFree : ℤ), os.afterOpen path os.lowestFree [(os.lowestFree, f.content)]) := by
  rcases os.openFile_cases (M := M) path with ⟨f', -, hl', -, he⟩ | ⟨hno, -⟩
  · rw [hl] at hl'
    cases hl'
    exact he
  · rw [hno hr f hl] at hf
    cases hf

theorem openFile_denied (h : os.refusals.headD false = false →
    ∀ f, M.lookup os.disk (cStr path) = some f → f.readable = false) :
    os.openFile M path = (-1, os.afterOpen path (-1) []) := by
  rcases os.openFile_cases (M := M) path with ⟨f, hr, hl, hf, -⟩ | ⟨-, he⟩
  · rw [h hr f hl] at hf
    cases hf
  · exact he

end

/-- A descriptor just given out reads the file it was given out for. -/
theorem contentOf_alloc {content : Bytes} (os' : Os σ)
    (h : os'.fds = os.fds ++ [(os.lowestFree, content)]) :
    os'.contentOf os.lowestFree = some content := by
  have hn : os.fds.find? (fun e => decide ((e.1 : ℤ) = os.lowestFree)) = none := by
    rw [List.find?_eq_none]
    rintro ⟨n, c⟩ he hd
    have hd : n = os.lowestFree := by simpa using hd
    exact os.lowestFree_notMem (hd ▸ List.mem_map_of_mem he)
  rw [contentOf, h, List.find?_append, hn]
  simp

/-- Nothing can be read through -1. -/
theorem contentOf_neg (os : Os σ) : os.contentOf (-1) = none := by
  simp only [contentOf, Option.map_eq_none_iff, List.find?_eq_none]
  rintro ⟨n, c⟩ -
  simp

end Os

end MyHttpServer
