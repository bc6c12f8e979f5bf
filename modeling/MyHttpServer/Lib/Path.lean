/-
  Relative paths in a tree of directories.

  A location is the list of the names that lead to it, the innermost one first.
  A path is a list of segments, which `resolve` follows from a location.  Its
  normal form counts the steps up that remain once every other one has been
  cancelled against the name before it.

  * `resolve_eq`: where a path leads, by its normal form;
  * `Norm.within_iff`: when it leads to an entry of the directory it starts
    from, or to something below that entry;
  * `walk_eq`: in a tree without links a path leads there or nowhere.
-/
import Mathlib.Data.List.Infix

namespace Path

/-- A segment of a path. -/
inductive Seg (N : Type) where
  | here
  | up
  | name (n : N)
  deriving DecidableEq

variable {N : Type}

/-- The location one segment further.  The parent of the root is the root. -/
def move (l : List N) : Seg N → List N
  | .here => l
  | .up => l.tail
  | .name n => n :: l

/-- Where a path leads from `l`, if every step can be made. -/
def resolve (l : List N) (ss : List (Seg N)) : List N := ss.foldl move l

@[simp] theorem resolve_append (l : List N) (ss ss' : List (Seg N)) :
    resolve l (ss ++ ss') = resolve (resolve l ss) ss' := List.foldl_append

/-! ## Normal forms -/

/-- A path of some steps up and some names behind them, the last name first. -/
structure Norm (N : Type) where
  ups : ℕ
  names : List N
  deriving DecidableEq

/-- The normal form with one more segment. -/
def Norm.cancel : Norm N → Seg N → Norm N
  | m, .here => m
  | ⟨k, []⟩, .up => ⟨k + 1, []⟩
  | ⟨k, _ :: ns⟩, .up => ⟨k, ns⟩
  | ⟨k, ns⟩, .name n => ⟨k, n :: ns⟩

/-- The normal form of a path. -/
def norm (ss : List (Seg N)) : Norm N := ss.foldl Norm.cancel ⟨0, []⟩

/-- Where a normal form leads from `l`. -/
def Norm.apply (m : Norm N) (l : List N) : List N := m.names ++ l.drop m.ups

theorem Norm.apply_cancel (m : Norm N) (s : Seg N) (l : List N) :
    (m.cancel s).apply l = move (m.apply l) s := by
  obtain ⟨k, ns⟩ := m
  cases s with
  | here => rfl
  | name n => rfl
  | up =>
    cases ns with
    | nil => simp [cancel, apply, move]
    | cons n ns => rfl

/-- **A path leads where its normal form does.** -/
theorem resolve_eq (l : List N) (ss : List (Seg N)) : resolve l ss = (norm ss).apply l := by
  have h (m : Norm N) : (ss.foldl Norm.cancel m).apply l = resolve (m.apply l) ss := by
    induction ss generalizing m with
    | nil => rfl
    | cons s ss ih =>
      rw [List.foldl_cons, ih, Norm.apply_cancel]
      rfl
  exact (h ⟨0, []⟩).symm

/-- **A path leads to the entry `r` of the directory `l` it starts from, or
    below it**, exactly if it comes back, after its steps up, by the names of
    the directories it has left, and then goes to `r`. -/
theorem Norm.within_iff (m : Norm N) (r : N) (l : List N) :
    r :: l <:+ m.apply l ↔ r :: l.take m.ups <:+ m.names := by
  have hl : r :: l = (r :: l.take m.ups) ++ l.drop m.ups := by
    rw [List.cons_append, List.take_append_drop]
  unfold apply
  constructor
  · rintro ⟨t, ht⟩
    rw [hl, ← List.append_assoc] at ht
    exact ⟨t, List.append_cancel_right ht⟩
  · rintro ⟨t, ht⟩
    exact ⟨t, by rw [← ht, hl, List.append_assoc]⟩

/-! ## Trees -/

/-- The location that a path names from `l` in a tree whose directories are
    `dir`: every segment is looked up in a directory. -/
def walk (dir : List N → Bool) (l : List N) : List (Seg N) → Option (List N)
  | [] => some l
  | s :: ss => if dir l then walk dir (move l s) ss else none

/-- **A path names the location it resolves to, or none.** -/
theorem walk_eq {dir : List N → Bool} {l m : List N} {ss : List (Seg N)}
    (h : walk dir l ss = some m) : m = resolve l ss := by
  induction ss generalizing l with
  | nil => cases h; rfl
  | cons s ss ih =>
    rw [walk] at h
    split at h
    · exact ih h
    · cases h

end Path
