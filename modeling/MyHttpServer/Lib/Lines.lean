/-
  Text in lines, over an arbitrary alphabet with two control characters `cr`
  and `lf`.

  A line ends at `lf`, at `cr lf`, or at a `cr` that no `lf` follows
  (`EndsLine`).  `next` cuts the first complete line off a text and `split`
  gives all complete lines; what follows the last line end belongs to no
  line.

  * `next_line`: a text that begins with a line end behind a line begins with
    that line;
  * `split_eq`: the lines are the first one and the lines of the rest;
  * `Block ls bs rest`: the text `bs` consists of the lines `ls`, ended in
    any of the three ways, and of `rest`;
  * `Head.unique`: the lines of a head (non-empty lines ended by `cr lf`, then
    an empty one) are determined by the text;
  * `Head.decode`: they are what is in front of the first `cr lf cr lf`, split
    at each `cr lf`.
-/
import Mathlib.Tactic

namespace Lines
variable {α : Type*} (cr lf : α)

/-- `t` is a line end in front of `rest`. -/
inductive EndsLine : List α → List α → Prop
  | lf {rest} : EndsLine [lf] rest
  | crlf {rest} : EndsLine [cr, lf] rest
  | cr {rest} : rest.head? ≠ some lf → EndsLine [cr] rest

/-- A text of the lines `ls` followed by `rest`. -/
inductive Block : List (List α) → List α → List α → Prop
  | nil {rest} : Block [] rest rest
  | cons {l t bs ls rest} : cr ∉ l → lf ∉ l → EndsLine cr lf t bs → Block ls bs rest →
      Block (l :: ls) (l ++ t ++ bs) rest

variable [DecidableEq α]

/-- The text without a leading `lf`. -/
def dropLf : List α → List α
  | [] => []
  | c :: bs => if c = lf then bs else c :: bs

/-- The first complete line, without its end, and the text behind it. -/
def next : List α → Option (List α × List α)
  | [] => none
  | c :: bs =>
    if c = lf then some ([], bs)
    else if c = cr then some ([], dropLf lf bs)
    else (next bs).map fun r => (c :: r.1, r.2)

/-- The complete lines, without their ends. -/
def split : List α → List (List α)
  | [] => []
  | c :: bs =>
    if c = lf then [] :: split bs
    else if c = cr then
      [] :: match bs with
        | [] => []
        | d :: ds => if d = lf then split ds else split (d :: ds)
    else (split bs).modifyHead (c :: ·)

variable {cr lf}

omit [DecidableEq α] in
theorem EndsLine.ne_nil {t rest : List α} (h : EndsLine cr lf t rest) : t ≠ [] := by
  cases h <;> simp

section
variable (hcl : cr ≠ lf)
include hcl

theorem next_of_endsLine {t rest : List α} (ht : EndsLine cr lf t rest) :
    next cr lf (t ++ rest) = some ([], rest) := by
  cases ht with
  | lf => simp [next]
  | crlf => simp [next, hcl, dropLf]
  | cr h =>
    cases rest with
    | nil => simp [next, hcl, dropLf]
    | cons c rest =>
      have hc : c ≠ lf := by simpa using h
      simp [next, hcl, dropLf, hc]

theorem next_line {l t rest : List α} (hc : cr ∉ l) (hl : lf ∉ l) (ht : EndsLine cr lf t rest) :
    next cr lf (l ++ t ++ rest) = some (l, rest) := by
  induction l with
  | nil => exact next_of_endsLine hcl ht
  | cons c l ih =>
    simp only [List.mem_cons, not_or] at hc hl
    simp only [List.append_assoc] at ih
    simp [next, Ne.symm hc.1, Ne.symm hl.1, ih hc.2 hl.2]

end

theorem Block.next_cons {l bs rest : List α} {ls : List (List α)} (hcl : cr ≠ lf)
    (h : Block cr lf (l :: ls) bs rest) :
    ∃ bs', next cr lf bs = some (l, bs') ∧ Block cr lf ls bs' rest := by
  cases h with
  | cons hc hl ht hb => exact ⟨_, next_line hcl hc hl ht, hb⟩

/-- A text without line ends has no complete line. -/
theorem next_eq_none {bs : List α} : next cr lf bs = none ↔ cr ∉ bs ∧ lf ∉ bs := by
  induction bs with
  | nil => simp [next]
  | cons c bs ih =>
    by_cases h1 : c = lf
    · simp [next, h1]
    by_cases h2 : c = cr
    · subst h2; simp [next, h1]
    · simp [next, h1, h2, ih, Ne.symm h1, Ne.symm h2]

/-- **The lines of a text** are its first line and the lines of the rest. -/
theorem split_eq (bs : List α) :
    split cr lf bs = match next cr lf bs with
      | none => []
      | some (l, rest) => l :: split cr lf rest := by
  induction bs with
  | nil => rfl
  | cons c bs ih =>
    rw [split.eq_def]
    by_cases h1 : c = lf
    · simp [next, h1]
    by_cases h2 : c = cr
    · subst h2
      cases bs with
      | nil => simp [next, h1, dropLf, split]
      | cons d ds => by_cases h3 : d = lf <;> simp [next, h1, dropLf, h3]
    · simp only [next, h1, h2, if_false, ih]
      cases next cr lf bs <;> rfl

theorem split_of_next {bs l rest : List α} (h : next cr lf bs = some (l, rest)) :
    split cr lf bs = l :: split cr lf rest := by
  rw [split_eq, h]

/-- Text without line ends in front adds no line. -/
theorem length_split_append {l bs : List α} (hc : cr ∉ l) (hl : lf ∉ l) :
    (split cr lf (l ++ bs)).length = (split cr lf bs).length := by
  induction l with
  | nil => rfl
  | cons c l ih =>
    simp only [List.mem_cons, not_or] at hc hl
    rw [List.cons_append, split.eq_def]
    simp [Ne.symm hc.1, Ne.symm hl.1, ih hc.2 hl.2]

/-! ## Heads -/

/-- A line of a head: not empty and without control characters. -/
structure HeadLine (cr lf : α) (l : List α) : Prop where
  ne_nil : l ≠ []
  cr_notMem : cr ∉ l
  lf_notMem : lf ∉ l

/-- The text of a head: its lines and an empty line, each ended by `cr lf`. -/
def headText (cr lf : α) (ls : List (List α)) : List α :=
  ls.flatMap (· ++ [cr, lf]) ++ [cr, lf]

/-- `bs` is a head of the lines `ls` followed by `body`. -/
structure Head (cr lf : α) (ls : List (List α)) (body bs : List α) : Prop where
  lines : ∀ l ∈ ls, HeadLine cr lf l
  text : bs = headText cr lf ls ++ body

omit [DecidableEq α] in
theorem headText_cons (l : List α) (ls : List (List α)) :
    headText cr lf (l :: ls) = l ++ [cr, lf] ++ headText cr lf ls := by
  simp [headText]

omit [DecidableEq α] in
/-- A head is a text of its lines and an empty one. -/
theorem Head.block {ls : List (List α)} {body bs : List α} (h : Head cr lf ls body bs) :
    Block cr lf (ls ++ [[]]) bs body := by
  rw [h.text]
  have hls := h.lines
  clear h
  induction ls with
  | nil => exact .cons (l := []) (by simp) (by simp) .crlf .nil
  | cons l ls ih =>
    have hl := hls l (by simp)
    rw [headText_cons, List.append_assoc]
    exact .cons hl.cr_notMem hl.lf_notMem .crlf (ih fun m hm => hls m (by simp [hm]))

theorem Head.next_nil (hcl : cr ≠ lf) {body bs : List α} (h : Head cr lf [] body bs) :
    next cr lf bs = some ([], body) := by
  rw [h.text]
  exact next_of_endsLine hcl .crlf

theorem Head.next_cons (hcl : cr ≠ lf) {l : List α} {ls : List (List α)} {body bs : List α}
    (h : Head cr lf (l :: ls) body bs) :
    next cr lf bs = some (l, headText cr lf ls ++ body) := by
  have hl := h.lines l (by simp)
  rw [h.text, headText_cons, List.append_assoc]
  exact next_line hcl hl.cr_notMem hl.lf_notMem .crlf

/-- **The lines of a head and what follows it are determined by the text.** -/
theorem Head.unique (hcl : cr ≠ lf) : ∀ {ls ls' : List (List α)} {body body' bs : List α},
    Head cr lf ls body bs → Head cr lf ls' body' bs → ls = ls' ∧ body = body'
  | [], [], _, _, _, h, h' => by
    have := (h.next_nil hcl).symm.trans (h'.next_nil hcl)
    simpa using this
  | [], l' :: _, _, _, _, h, h' => by
    have := (h.next_nil hcl).symm.trans (h'.next_cons hcl)
    simp only [Option.some.injEq, Prod.mk.injEq] at this
    exact absurd this.1.symm (h'.lines l' (by simp)).ne_nil
  | l :: _, [], _, _, _, h, h' => by
    have := (h.next_cons hcl).symm.trans (h'.next_nil hcl)
    simp only [Option.some.injEq, Prod.mk.injEq] at this
    exact absurd this.1 (h.lines l (by simp)).ne_nil
  | l :: ls, l' :: ls', body, body', bs, h, h' => by
    have he := (h.next_cons hcl).symm.trans (h'.next_cons hcl)
    simp only [Option.some.injEq, Prod.mk.injEq] at he
    have ht : Head cr lf ls body (headText cr lf ls ++ body) :=
      ⟨fun m hm => h.lines m (by simp [hm]), rfl⟩
    have ht' : Head cr lf ls' body' (headText cr lf ls ++ body) :=
      ⟨fun m hm => h'.lines m (by simp [hm]), he.2⟩
    obtain ⟨h1, h2⟩ := Head.unique hcl ht ht'
    exact ⟨by rw [he.1, h1], h2⟩

/-! ## Decoding a head -/

/-- The text in front of the first `sep`, and the text behind it. -/
def cutAt (sep : List α) : List α → Option (List α × List α)
  | [] => if sep = [] then some ([], []) else none
  | c :: bs =>
    if sep.isPrefixOf (c :: bs) then some ([], (c :: bs).drop sep.length)
    else (cutAt sep bs).map fun r => (c :: r.1, r.2)

/-- The pieces between the occurrences of `cr lf`. -/
def splitEnds (cr lf : α) : List α → List (List α)
  | [] => [[]]
  | c :: bs =>
    match bs with
    | [] => [[c]]
    | d :: ds =>
      if c = cr ∧ d = lf then [] :: splitEnds cr lf ds
      else (splitEnds cr lf (d :: ds)).modifyHead (c :: ·)

/-- What is in front of the first `cr lf cr lf`, split at each `cr lf`, and what
    is behind. -/
def decode (cr lf : α) (bs : List α) : Option (List (List α) × List α) :=
  (cutAt [cr, lf, cr, lf] bs).map fun r => (splitEnds cr lf r.1, r.2)

theorem cutAt_line {sep l bs : List α} (hs : sep.head? = some cr) (hc : cr ∉ l) :
    cutAt sep (l ++ bs) = (cutAt sep bs).map fun r => (l ++ r.1, r.2) := by
  induction l with
  | nil => simp
  | cons c l ih =>
    simp only [List.mem_cons, not_or] at hc
    have hp : sep.isPrefixOf (c :: (l ++ bs)) = false := by
      cases sep with
      | nil => cases hs
      | cons s sep =>
        simp only [List.head?_cons, Option.some.injEq] at hs
        simp [List.isPrefixOf, hs, hc.1]
    rw [List.cons_append, cutAt, hp, if_neg (by simp), ih hc.2, Option.map_map]
    rfl

theorem splitEnds_line {l : List α} (hc : cr ∉ l) : splitEnds cr lf l = [l] := by
  induction l with
  | nil => rfl
  | cons c l ih =>
    simp only [List.mem_cons, not_or] at hc
    cases l with
    | nil => rfl
    | cons d l =>
      rw [splitEnds, if_neg (by simp [Ne.symm hc.1]), ih hc.2]
      rfl

theorem splitEnds_cons {l bs : List α} (hc : cr ∉ l) :
    splitEnds cr lf (l ++ cr :: lf :: bs) = l :: splitEnds cr lf bs := by
  induction l with
  | nil => simp [splitEnds]
  | cons c l ih =>
    simp only [List.mem_cons, not_or] at hc
    have hne : l ++ cr :: lf :: bs ≠ [] := by simp
    obtain ⟨d, ds, hd⟩ := List.exists_cons_of_ne_nil hne
    have ih := ih hc.2
    rw [hd] at ih
    rw [List.cons_append, hd, splitEnds, if_neg (by simp [Ne.symm hc.1]), ih]
    rfl

/-- Behind the lines of a head, joined by `cr lf`, comes the first `cr lf cr lf`. -/
theorem cutAt_head (hcl : cr ≠ lf) {ls : List (List α)} (h : ∀ l ∈ ls, HeadLine cr lf l)
    (hne : ls ≠ []) (body : List α) :
    cutAt [cr, lf, cr, lf] (headText cr lf ls ++ body) =
      some (List.intercalate [cr, lf] ls, body) := by
  induction ls with
  | nil => exact absurd rfl hne
  | cons l ls ih =>
    have hl := h l (by simp)
    rw [headText_cons]
    simp only [List.append_assoc]
    rw [cutAt_line rfl hl.cr_notMem]
    cases ls with
    | nil => simp [headText, cutAt, List.intercalate]
    | cons m ls =>
      have hm := h m (by simp)
      have ih := ih (fun k hk => h k (by simp [hk])) (by simp)
      obtain ⟨c, m', rfl⟩ := List.exists_cons_of_ne_nil hm.ne_nil
      have hc : cr ≠ c := fun he => hm.cr_notMem (by simp [he])
      have hstep : cutAt [cr, lf, cr, lf]
          ([cr, lf] ++ (headText cr lf ((c :: m') :: ls) ++ body)) =
            (cutAt [cr, lf, cr, lf] (headText cr lf ((c :: m') :: ls) ++ body)).map
              fun r => (cr :: lf :: r.1, r.2) := by
        rw [headText_cons]
        simp [cutAt, List.isPrefixOf, hc, hcl]
        rfl
      rw [hstep, ih]
      simp [List.intercalate]

theorem splitEnds_intercalate {ls : List (List α)} (h : ∀ l ∈ ls, cr ∉ l) (hne : ls ≠ []) :
    splitEnds cr lf (List.intercalate [cr, lf] ls) = ls := by
  induction ls with
  | nil => exact absurd rfl hne
  | cons l ls ih =>
    have hl := h l (by simp)
    cases ls with
    | nil => simpa [List.intercalate] using splitEnds_line hl
    | cons m ls =>
      have ih := ih (fun k hk => h k (by simp [hk])) (by simp)
      have hi : List.intercalate [cr, lf] (l :: m :: ls) =
          l ++ cr :: lf :: List.intercalate [cr, lf] (m :: ls) := by
        simp [List.intercalate]
      rw [hi, splitEnds_cons hl, ih]

/-- **Decoding undoes encoding** for every head that has a line. -/
theorem Head.decode (hcl : cr ≠ lf) {ls : List (List α)} {body bs : List α}
    (h : Head cr lf ls body bs) (hne : ls ≠ []) : decode cr lf bs = some (ls, body) := by
  rw [h.text, Lines.decode, cutAt_head hcl h.lines hne, Option.map_some,
    splitEnds_intercalate (fun l hl => (h.lines l hl).cr_notMem) hne]

end Lines
