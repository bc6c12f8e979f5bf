/-
  `LogFormatter::init` on any pattern.

  `ReadsItem` is a run of its inner loop as a derivation, and `Compiles` one of
  its outer loop: the parts are pushed, in order, while the pattern is taken from
  the left.

  * `itemLoop_reads`, `patternLoop_compiles`: the loops have these derivations;
  * `Pattern`: the patterns that are well formed, with their items;
  * `compiles_pattern_iff`: without `%%` these are the patterns that compile, to
    these items.
-/
import MyHttpServer.Model.LogFormatter

namespace MyHttpServer

/-! ## The inner loop -/

/-- The characters that the name of an item is made of. -/
def NameChar (c : UInt8) : Prop := isAlpha c = true ∨ c = RBRACE

/-- The text behind a `'%'` begins with the item `name`, `fmt`; what is behind it
    is not known if a brace is not closed. -/
inductive ReadsItem : Bytes → Bytes → Bytes → Option Bytes → Prop
  | bare {name rest} : (∀ c ∈ name, NameChar c) → (∀ c ∈ rest.head?, ¬ NameChar c ∧ c ≠ LBRACE) →
      ReadsItem (name ++ rest) name [] (some rest)
  | braced {name fmt rest} : (∀ c ∈ name, NameChar c) → RBRACE ∉ fmt →
      ReadsItem (name ++ LBRACE :: (fmt ++ RBRACE :: rest)) name fmt (some rest)
  | unclosed {name u} : (∀ c ∈ name, NameChar c) → RBRACE ∉ u →
      ReadsItem (name ++ LBRACE :: u) name [] none

theorem not_isAlpha_braces : isAlpha LBRACE = false ∧ isAlpha RBRACE = false ∧ LBRACE ≠ RBRACE := by
  decide

theorem NameChar.ne_lbrace {c : UInt8} (h : NameChar c) : c ≠ LBRACE := by
  rintro rfl
  rcases h with h | h
  · rw [not_isAlpha_braces.1] at h; cases h
  · exact not_isAlpha_braces.2.2 h

section
variable {pattern : Bytes} {i : ℕ}

theorem getElem?_of_drop {c : UInt8} {n : ℕ} {w : Bytes} (h : pattern.drop n = c :: w) :
    pattern[n]? = some c ∧ pattern.drop (n + 1) = w ∧ n + w.length + 1 = pattern.length := by
  refine ⟨?_, ?_, ?_⟩
  · have := congrArg (·[0]?) h
    simpa using this
  · rw [← List.drop_drop, h]; rfl
  · have := congrArg List.length h
    simp only [List.length_drop, List.length_cons] at this
    omega

theorem getElem?_of_drop_nil {n : ℕ} (h : pattern.drop n = []) : pattern[n]? = none :=
  List.getElem?_eq_none (List.drop_eq_nil_iff.1 h)

/-- A character of the name is passed over. -/
theorem itemStep_name {c : UInt8} {s : ItemScan} {w : Bytes} (hs : s.fmtStatus = 0)
    (hd : pattern.drop s.n = c :: w) (hc : NameChar c) :
    itemStep pattern i s = .inl { s with
      n := s.n + 1
      str := if w = [] ∧ s.str = [] then pattern.drop (i + 1) else s.str } := by
  obtain ⟨hget, -, hlen⟩ := getElem?_of_drop hd
  have h1 : ¬ (s.fmtStatus = 0 ∧ ¬ isAlpha c ∧ c ≠ LBRACE ∧ c ≠ RBRACE) := by
    rintro ⟨-, ha, -, hr⟩
    exact hc.elim ha hr
  have h2 : ¬ (s.fmtStatus = 0 ∧ c = LBRACE) := fun h => hc.ne_lbrace h.2
  have h3 : ¬ (s.fmtStatus = 1 ∧ c = RBRACE) := by omega
  have hw : s.n + 1 = pattern.length ↔ w = [] := by
    rw [← List.length_eq_zero_iff]; omega
  simp only [itemStep, hget, if_neg h1, if_neg h2, if_neg h3, hw]

/-- The name is passed over, if something follows it. -/
theorem itemLoop_name {name w : Bytes} {s : ItemScan} (hs : s.fmtStatus = 0)
    (hd : pattern.drop s.n = name ++ w) (hn : ∀ c ∈ name, NameChar c) (hw : w ≠ []) :
    (itemLoop pattern i).run s = (itemLoop pattern i).run { s with n := s.n + name.length } := by
  induction name generalizing s with
  | nil => rfl
  | cons c name ih =>
    have hne : name ++ w ≠ [] := by simp [hw]
    have hstep := itemStep_name (i := i) hs hd (hn c (by simp))
    rw [if_neg (fun h => hne h.1)] at hstep
    rw [WhileLoop.run_next (L := itemLoop pattern i) hstep,
      ih (s := { s with n := s.n + 1 }) hs (getElem?_of_drop hd).2.1
        fun d hm => hn d (by simp [hm])]
    simp only [List.length_cons, Nat.add_assoc, Nat.add_comm 1]

/-- A name at the end of the pattern. -/
theorem itemLoop_name_end {name : Bytes} {s : ItemScan} (hs : s.fmtStatus = 0) (hstr : s.str = [])
    (hd : pattern.drop s.n = name) (hn : ∀ c ∈ name, NameChar c) :
    (itemLoop pattern i).run s = { s with
      n := s.n + name.length
      str := if name = [] then s.str else pattern.drop (i + 1) } := by
  have hdone : ∀ {s : ItemScan}, pattern.drop s.n = [] → (itemLoop pattern i).run s = s := by
    intro s hd
    refine WhileLoop.run_done (L := itemLoop pattern i) ?_
    show itemStep pattern i s = .inr s
    simp only [itemStep, getElem?_of_drop_nil hd]
  induction name generalizing s with
  | nil => exact hdone hd
  | cons c name ih =>
    have hstep := itemStep_name (i := i) hs hd (hn c (by simp))
    have hd' := (getElem?_of_drop hd).2.1
    by_cases hnil : name = []
    · subst hnil
      rw [if_pos ⟨rfl, hstr⟩] at hstep
      rw [WhileLoop.run_next (L := itemLoop pattern i) hstep, hdone hd']
      rfl
    · rw [if_neg (fun h => hnil h.1)] at hstep
      rw [WhileLoop.run_next (L := itemLoop pattern i) hstep,
        ih (s := { s with n := s.n + 1 }) hs hstr hd' fun d hm => hn d (by simp [hm])]
      simp only [if_neg hnil, List.length_cons, Nat.add_assoc, Nat.add_comm 1]
      rfl

/-- A format up to its brace. -/
theorem itemLoop_braced {fmt rest : Bytes} {s : ItemScan} (hs : s.fmtStatus = 1)
    (hd : pattern.drop s.n = fmt ++ RBRACE :: rest) (hf : RBRACE ∉ fmt) :
    (itemLoop pattern i).run s = { s with
      n := s.n + fmt.length + 1
      fmtStatus := 0
      fmt := substr pattern (s.fmtBegin + 1) (s.n + fmt.length - s.fmtBegin - 1) } := by
  induction fmt generalizing s with
  | nil =>
    have hget := (getElem?_of_drop hd).1
    have hdone : itemStep pattern i s = .inr { s with
        n := s.n + 1
        fmtStatus := 0
        fmt := substr pattern (s.fmtBegin + 1) (s.n - s.fmtBegin - 1) } := by
      simp [itemStep, hget, hs]
    rw [WhileLoop.run_done (L := itemLoop pattern i) hdone]
    rfl
  | cons c fmt ih =>
    simp only [List.mem_cons, not_or] at hf
    rw [List.cons_append] at hd
    obtain ⟨hget, hd', hlen⟩ := getElem?_of_drop hd
    have hne : s.n + 1 ≠ pattern.length := by
      simp only [List.length_append, List.length_cons] at hlen
      omega
    have hstep : itemStep pattern i s = .inl { s with n := s.n + 1 } := by
      simp [itemStep, hget, hs, Ne.symm hf.1, hne]
    rw [WhileLoop.run_next (L := itemLoop pattern i) hstep,
      ih (s := { s with n := s.n + 1 }) hs hd' hf.2]
    simp only [List.length_cons, Nat.add_assoc, Nat.add_comm 1]

/-- A format without a brace at its end. -/
theorem itemLoop_unclosed {u : Bytes} {s : ItemScan} (hs : s.fmtStatus = 1) (hfmt : s.fmt = [])
    (hd : pattern.drop s.n = u) (hu : RBRACE ∉ u) :
    ((itemLoop pattern i).run s).fmtStatus = 1 ∧ ((itemLoop pattern i).run s).fmt = [] := by
  induction u generalizing s with
  | nil =>
    have hdone : itemStep pattern i s = .inr s := by
      simp only [itemStep, getElem?_of_drop_nil hd]
    rw [WhileLoop.run_done (L := itemLoop pattern i) hdone]
    exact ⟨hs, hfmt⟩
  | cons c u ih =>
    simp only [List.mem_cons, not_or] at hu
    obtain ⟨hget, hd', -⟩ := getElem?_of_drop hd
    have hstep : itemStep pattern i s = .inl { s with
        n := s.n + 1
        str := if s.n + 1 = pattern.length ∧ s.str = [] then pattern.drop (i + 1) else s.str } := by
      simp [itemStep, hget, hs, Ne.symm hu.1]
    rw [WhileLoop.run_next (L := itemLoop pattern i) hstep]
    exact ih hs hfmt hd' hu.2

/-- Every text behind a `'%'` begins with one item. -/
theorem exists_readsItem (t : Bytes) : ∃ name fmt rest, ReadsItem t name fmt rest := by
  classical
  have hname : ∀ c ∈ t.takeWhile (NameChar ·), NameChar c := by
    intro c hc
    simpa using List.all_eq_true.1 List.all_takeWhile c hc
  have hsplit := List.takeWhile_append_dropWhile (p := (NameChar ·)) (l := t)
  rcases hr : t.dropWhile (NameChar ·) with _ | ⟨c, u⟩
  · rw [hr] at hsplit
    rw [← hsplit]
    exact ⟨_, _, _, .bare hname (by simp)⟩
  have hc : ¬ NameChar c := by
    have := List.head_dropWhile_not (NameChar ·) (l := t) (by rw [hr]; simp)
    simpa [hr] using this
  rw [hr] at hsplit
  rw [← hsplit]
  by_cases hbrace : c = LBRACE
  · subst hbrace
    by_cases hm : RBRACE ∈ u
    · obtain ⟨fmt, rest, rfl, hf⟩ := List.eq_append_cons_of_mem hm
      exact ⟨_, _, _, .braced hname hf⟩
    · exact ⟨_, _, _, .unclosed hname hm⟩
  · refine ⟨_, _, _, .bare hname ?_⟩
    intro d hd
    cases hd
    exact ⟨hc, hbrace⟩

/-- **The inner loop reads one item.** -/
theorem itemLoop_reads {t name fmt : Bytes} {rest : Option Bytes} (h : ReadsItem t name fmt rest)
    (hd : pattern.drop (i + 1) = t) :
    let r := (itemLoop pattern i).run { n := i + 1 }
    r.fmt = fmt ∧ rest.elim (r.fmtStatus = 1) fun rest =>
      r.fmtStatus = 0 ∧ r.str = name ∧ 0 < r.n ∧ pattern.drop r.n = rest := by
  have hsub : ∀ {name w : Bytes}, pattern.drop (i + 1) = name ++ w →
      substr pattern (i + 1) (i + 1 + name.length - i - 1) = name := by
    intro name w hd
    rw [substr, hd, show i + 1 + name.length - i - 1 = name.length by omega, List.take_left]
  have hdrop : ∀ {name w : Bytes}, pattern.drop (i + 1) = name ++ w →
      pattern.drop (i + 1 + name.length) = w := by
    intro name w hd
    rw [← List.drop_drop, hd, List.drop_left]
  -- behind the name, a brace begins the format
  have hopen : ∀ {name w : Bytes}, pattern.drop (i + 1) = name ++ LBRACE :: w →
      (∀ c ∈ name, NameChar c) → (itemLoop pattern i).run { n := i + 1 } =
        (itemLoop pattern i).run { n := i + 1 + name.length + 1, fmtStatus := 1,
                                   fmtBegin := i + 1 + name.length, str := name, fmt := [] } := by
    intro name w hd hn
    rw [itemLoop_name rfl hd hn (by simp)]
    refine WhileLoop.run_next (L := itemLoop pattern i) ?_
    have hget := (getElem?_of_drop (hdrop hd)).1
    have hs := hsub hd
    show itemStep pattern i _ = _
    simp [itemStep, hget, hs]
  cases h with
  | bare hn hc =>
    rename_i rest
    cases rest with
    | nil =>
      rw [List.append_nil] at hd
      have hrun := itemLoop_name_end (i := i) (s := { n := i + 1 }) rfl rfl hd hn
      have hd' := hdrop (w := []) (by simpa using hd)
      simp only [hrun, Option.elim]
      refine ⟨trivial, trivial, ?_, by omega, hd'⟩
      split_ifs with hnil
      · exact hnil.symm
      · exact hd
    | cons c w =>
      obtain ⟨hc, hb⟩ := hc c rfl
      have hget := (getElem?_of_drop (hdrop hd)).1
      have hdone : itemStep pattern i { n := i + 1 + name.length } = .inr
          { n := i + 1 + name.length
            str := substr pattern (i + 1) (i + 1 + name.length - i - 1) } := by
        simp only [NameChar, not_or] at hc
        simp [itemStep, hget, hc.1, hc.2, hb]
      have hrun := itemLoop_name (i := i) (s := { n := i + 1 }) rfl hd hn (by simp)
      rw [WhileLoop.run_done (L := itemLoop pattern i) hdone] at hrun
      simp only [hrun, Option.elim]
      exact ⟨trivial, trivial, hsub hd, by omega, hdrop hd⟩
  | braced hn hf =>
    rename_i rest
    have hd' := (getElem?_of_drop (hdrop hd)).2.1
    have hrun := itemLoop_braced (i := i)
      (s := { n := i + 1 + name.length + 1, fmtStatus := 1, fmtBegin := i + 1 + name.length,
              str := name, fmt := [] }) rfl hd' hf
    rw [← hopen hd hn] at hrun
    simp only [hrun, Option.elim]
    refine ⟨?_, trivial, trivial, by omega, ?_⟩
    · rw [substr, hd', show i + 1 + name.length + 1 + fmt.length - (i + 1 + name.length) - 1 =
        fmt.length by omega, List.take_left]
    · rw [← List.drop_drop, ← List.drop_drop, hd', List.drop_left]
      rfl
  | unclosed hn hu =>
    have hd' := (getElem?_of_drop (hdrop hd)).2.1
    have hrun := itemLoop_unclosed (i := i)
      (s := { n := i + 1 + name.length + 1, fmtStatus := 1, fmtBegin := i + 1 + name.length,
              str := name, fmt := [] }) rfl rfl hd' hu
    rw [← hopen hd hn] at hrun
    exact ⟨hrun.2, hrun.1⟩

end

/-! ## The outer loop -/

theorem pushText_eq (vec : List PatternPart) (text : Bytes) :
    pushText vec text = vec ++ pushText [] text := by
  unfold pushText
  split_ifs <;> simp

/-- The rest of a pattern, with the text in front of it that has not been pushed
    yet, gives the parts that are pushed, and whether there is an error. -/
inductive Compiles : Bytes → Bytes → List PatternPart → Bool → Prop
  | done {text} : Compiles [] text (pushText [] text) false
  | char {c r text ps e} : c ≠ PERCENT → Compiles r (text ++ [c]) ps e → Compiles (c :: r) text ps e
  | double {r text ps e} : Compiles (PERCENT :: r) (text ++ [PERCENT]) ps e →
      Compiles (PERCENT :: PERCENT :: r) text ps e
  | item {t text name fmt rest ps e} : t.head? ≠ some PERCENT → ReadsItem t name fmt (some rest) →
      Compiles rest [] ps e →
      Compiles (PERCENT :: t) text (pushText [] text ++ ⟨name, fmt, 1⟩ :: ps) e
  | unclosed {t text name fmt ps e} : t.head? ≠ some PERCENT → ReadsItem t name fmt none →
      Compiles t text ps e →
      Compiles (PERCENT :: t) text (⟨str "<<pattern_error>>", fmt, 0⟩ :: ps) true

theorem ReadsItem.length_le {t name fmt rest : Bytes} (h : ReadsItem t name fmt (some rest)) :
    rest.length ≤ t.length := by
  cases h <;> simp only [List.length_append, List.length_cons] <;> omega

/-- Every pattern is compiled to some parts. -/
theorem exists_compiles (r text : Bytes) : ∃ ps e, Compiles r text ps e := by
  induction hn : r.length using Nat.strong_induction_on generalizing r text with
  | _ n ih =>
    subst hn
    cases r with
    | nil => exact ⟨_, _, .done⟩
    | cons c t =>
      by_cases hc : c = PERCENT
      · subst hc
        obtain ⟨ps, e, h⟩ := ih t.length (by simp) t text rfl
        by_cases hh : t.head? = some PERCENT
        · obtain ⟨t', rfl⟩ := List.head?_eq_some_iff.1 hh
          obtain ⟨ps, e, h⟩ := ih (PERCENT :: t').length (by simp) _ (text ++ [PERCENT]) rfl
          exact ⟨_, _, .double h⟩
        obtain ⟨name, fmt, rest, hr⟩ := exists_readsItem t
        cases rest with
        | none => exact ⟨_, _, .unclosed hh hr h⟩
        | some rest =>
          have hle := hr.length_le
          obtain ⟨ps, e, h⟩ := ih rest.length (by simp; omega) rest [] rfl
          exact ⟨_, _, .item hh hr h⟩
      · obtain ⟨ps, e, h⟩ := ih t.length (by simp) t (text ++ [c]) rfl
        exact ⟨_, _, .char hc h⟩

section
variable {pattern : Bytes} {s : PatternScan}

theorem patternStep_char {c : UInt8} {r : Bytes} (hd : pattern.drop s.i = c :: r)
    (hc : c ≠ PERCENT) :
    patternStep pattern s = .inl { s with i := s.i + 1, nstr := s.nstr ++ [c] } := by
  simp [patternStep, (getElem?_of_drop hd).1, hc]

theorem patternStep_double {r : Bytes} (hd : pattern.drop s.i = PERCENT :: PERCENT :: r) :
    patternStep pattern s = .inl { s with i := s.i + 1, nstr := s.nstr ++ [PERCENT] } := by
  obtain ⟨hget, hd', -⟩ := getElem?_of_drop hd
  simp [patternStep, hget, (getElem?_of_drop hd').1]

theorem getElem?_ne_percent {c : UInt8} {t : Bytes} (hd : pattern.drop s.i = c :: t)
    (h : t.head? ≠ some PERCENT) : pattern[s.i + 1]? ≠ some PERCENT := by
  rw [← List.head?_drop, (getElem?_of_drop hd).2.1]
  exact h

theorem patternStep_item {t name fmt rest : Bytes} (hd : pattern.drop s.i = PERCENT :: t)
    (hh : t.head? ≠ some PERCENT) (hr : ReadsItem t name fmt (some rest)) :
    ∃ n, pattern.drop n = rest ∧ patternStep pattern s = .inl { s with
      i := n
      nstr := []
      vec := pushText s.vec s.nstr ++ [⟨name, fmt, 1⟩] } := by
  obtain ⟨hget, hd', -⟩ := getElem?_of_drop hd
  obtain ⟨hfmt, hstatus, hstr, hn, hrest⟩ := itemLoop_reads hr hd'
  refine ⟨_, hrest, ?_⟩
  simp only [patternStep, hget, ne_eq, not_true_eq_false, if_false,
    if_neg (getElem?_ne_percent hd hh), hstatus, if_true, hfmt, hstr, Nat.sub_add_cancel hn]

theorem patternStep_unclosed {t name fmt : Bytes} (hd : pattern.drop s.i = PERCENT :: t)
    (hh : t.head? ≠ some PERCENT) (hr : ReadsItem t name fmt none) :
    patternStep pattern s = .inl { s with
      i := s.i + 1
      vec := s.vec ++ [⟨str "<<pattern_error>>", fmt, 0⟩]
      error := true } := by
  obtain ⟨hget, hd', -⟩ := getElem?_of_drop hd
  obtain ⟨hfmt, hstatus⟩ := itemLoop_reads hr hd'
  have hstatus : ((itemLoop pattern s.i).run { n := s.i + 1 }).fmtStatus = 1 := hstatus
  simp only [patternStep, hget, ne_eq, not_true_eq_false, if_false,
    if_neg (getElem?_ne_percent hd hh), hstatus, show ¬ (1 : ℕ) = 0 by omega, hfmt]

/-- **The outer loop pushes these parts.** -/
theorem patternLoop_compiles {r text : Bytes} {ps : List PatternPart} {e : Bool}
    (h : Compiles r text ps e) (hd : pattern.drop s.i = r) (ht : s.nstr = text) :
    pushText ((patternLoop pattern).run s).vec ((patternLoop pattern).run s).nstr = s.vec ++ ps ∧
      ((patternLoop pattern).run s).error = (s.error || e) := by
  induction h generalizing s with
  | done =>
    have hdone : patternStep pattern s = .inr s := by
      simp only [patternStep, getElem?_of_drop_nil hd]
    rw [WhileLoop.run_done (L := patternLoop pattern) hdone, ht, Bool.or_false]
    exact ⟨pushText_eq _ _, rfl⟩
  | char hc _ ih =>
    rw [WhileLoop.run_next (L := patternLoop pattern) (patternStep_char hd hc)]
    exact ih (getElem?_of_drop hd).2.1 (by rw [ht])
  | double _ ih =>
    rw [WhileLoop.run_next (L := patternLoop pattern) (patternStep_double hd)]
    exact ih (getElem?_of_drop hd).2.1 (by rw [ht])
  | item hh hr _ ih =>
    obtain ⟨n, hn, hstep⟩ := patternStep_item hd hh hr
    rw [WhileLoop.run_next (L := patternLoop pattern) hstep]
    obtain ⟨hvec, herr⟩ := ih (s := { s with
      i := n
      nstr := []
      vec := pushText s.vec s.nstr ++ [⟨_, _, 1⟩] }) hn rfl
    refine ⟨hvec.trans ?_, herr⟩
    rw [pushText_eq, ht]
    simp
  | unclosed hh hr _ ih =>
    rw [WhileLoop.run_next (L := patternLoop pattern) (patternStep_unclosed hd hh hr)]
    obtain ⟨hvec, herr⟩ := ih (s := { s with
      i := s.i + 1
      vec := s.vec ++ [⟨str "<<pattern_error>>", _, 0⟩]
      error := true }) (getElem?_of_drop hd).2.1 ht
    refine ⟨hvec.trans (by simp), herr.trans (by simp)⟩

end

namespace LogFormatter

/-- **What a pattern is compiled to.** -/
theorem new_of_compiles {pattern : Bytes} {ps : List PatternPart} {e : Bool}
    (h : Compiles pattern [] ps e) :
    (new pattern).items = ps.map (fun p => (itemOfPart p).1) ∧
      ((new pattern).isError = false ↔ e = false ∧ ∀ p ∈ ps, (itemOfPart p).2 = false) := by
  obtain ⟨hvec, herr⟩ := patternLoop_compiles h (s := {}) rfl rfl
  simp only [List.nil_append, Bool.false_or] at hvec herr
  simp only [new, isError, hvec, herr]
  refine ⟨trivial, ?_⟩
  simp [List.any_eq_false]

end LogFormatter

/-! ## Well-formed patterns -/

/-- A character literal. -/
def ch (c : Char) : UInt8 := UInt8.ofNat c.toNat

/-- The letters that name a class of items. -/
def letters : Bytes := str "mprctndflTF"

/-- The item of the class that a letter names, built with `fmt`. -/
def itemNamed (c : UInt8) (fmt : Bytes) : FormatItem :=
  if c = ch 'm' then .message
  else if c = ch 'p' then .level
  else if c = ch 'r' then .elapse
  else if c = ch 'c' then .name
  else if c = ch 't' then .threadId
  else if c = ch 'n' then .newLine
  else if c = ch 'd' then .newDateTime fmt
  else if c = ch 'f' then .filename
  else if c = ch 'l' then .line
  else if c = ch 'T' then .tab
  else .fiberId

theorem letters_eq : letters = [109, 112, 114, 99, 116, 110, 100, 102, 108, 84, 70] := by
  decide +kernel

theorem lookup_of_letter {c : UInt8} (h : c ∈ letters) :
    ∃ make, formatItems.lookup [c] = some make ∧ ∀ fmt, make fmt = itemNamed c fmt := by
  rw [letters_eq] at h
  simp only [List.mem_cons, List.not_mem_nil, or_false] at h
  rcases h with rfl | rfl | rfl | rfl | rfl | rfl | rfl | rfl | rfl | rfl | rfl <;>
    exact ⟨_, rfl, fun _ => rfl⟩

theorem letter_of_lookup {name : Bytes} {make : Bytes → FormatItem}
    (h : formatItems.lookup name = some make) : ∃ c ∈ letters, name = [c] := by
  by_contra hno
  have hne : ∀ c ∈ letters, name ≠ [c] := by
    intro c hc he
    exact hno ⟨c, hc, he⟩
  have hkeys : formatItems.map Prod.fst = letters.map fun c => [c] := by decide +kernel
  have hnone : formatItems.lookup name = none := by
    rw [List.lookup_eq_none_iff]
    intro p hp
    have hm : p.1 ∈ letters.map fun c => [c] := by
      rw [← hkeys]
      exact List.mem_map_of_mem hp
    obtain ⟨c, hc, he⟩ := List.mem_map.1 hm
    rw [← he]
    simpa using hne c hc
  rw [hnone] at h
  cases h

theorem letter_name {c : UInt8} (h : c ∈ letters) : NameChar c ∧ c ≠ PERCENT := by
  rw [letters_eq] at h
  simp only [List.mem_cons, List.not_mem_nil, or_false] at h
  rcases h with rfl | rfl | rfl | rfl | rfl | rfl | rfl | rfl | rfl | rfl | rfl <;>
    exact ⟨.inl rfl, by decide⟩

/-- The well-formed patterns, with their items: runs of text, each as long as it
    can be, and the items `%c` and `%c{fmt}`. -/
inductive Pattern : Bytes → List FormatItem → Prop
  | nil : Pattern [] []
  | text {l rest items} : l ≠ [] → PERCENT ∉ l → (∀ c ∈ rest.head?, c = PERCENT) →
      Pattern rest items → Pattern (l ++ rest) (.string l :: items)
  | bare {c rest items} : c ∈ letters →
      (∀ d ∈ rest.head?, isAlpha d = false ∧ d ≠ LBRACE ∧ d ≠ RBRACE) →
      Pattern rest items → Pattern (PERCENT :: c :: rest) (itemNamed c [] :: items)
  | braced {c fmt rest items} : c ∈ letters → RBRACE ∉ fmt →
      Pattern rest items →
      Pattern (PERCENT :: c :: LBRACE :: (fmt ++ RBRACE :: rest)) (itemNamed c fmt :: items)

theorem Compiles.chars {l r text : Bytes} {ps : List PatternPart} {e : Bool} (hl : PERCENT ∉ l)
    (h : Compiles r (text ++ l) ps e) : Compiles (l ++ r) text ps e := by
  induction l generalizing text with
  | nil => simpa using h
  | cons c l ih =>
    simp only [List.mem_cons, not_or] at hl
    exact .char (Ne.symm hl.1) (ih hl.2 (by simpa using h))

open LogFormatter in
theorem itemOfPart_letter {c : UInt8} (h : c ∈ letters) (fmt : Bytes) :
    itemOfPart ⟨[c], fmt, 1⟩ = (itemNamed c fmt, false) := by
  obtain ⟨make, hl, hmake⟩ := lookup_of_letter h
  simp [itemOfPart, hl, hmake]

open LogFormatter in
/-- A well-formed pattern is compiled to its items, behind any text that has not
    been pushed yet. -/
theorem Pattern.compiles {r : Bytes} {items : List FormatItem} (h : Pattern r items) {text : Bytes}
    (ht : text = [] ∨ ∀ c ∈ r.head?, c = PERCENT) :
    ∃ ps, Compiles r text (pushText [] text ++ ps) false ∧
      ps.map itemOfPart = items.map fun i => (i, false) := by
  induction h generalizing text with
  | nil => exact ⟨[], by simpa using Compiles.done, rfl⟩
  | text hne hl hrest _ ih =>
    rename_i l rest items _
    obtain ⟨ps, hc, hps⟩ := @ih l (.inr hrest)
    have htext : text = [] := by
      refine ht.resolve_right ?_
      intro hh
      obtain ⟨c, l', rfl⟩ := List.exists_cons_of_ne_nil hne
      exact hl (by simp [hh c rfl])
    subst htext
    refine ⟨⟨l, [], 0⟩ :: ps, ?_, by simp [hps, itemOfPart]⟩
    rw [pushText, if_neg hne] at hc
    exact .chars hl (by simpa [pushText] using hc)
  | bare hc hrest _ ih =>
    obtain ⟨ps, hcomp, hps⟩ := ih (.inl (rfl : ([] : Bytes) = []))
    obtain ⟨hname, hne⟩ := letter_name hc
    refine ⟨⟨[_], [], 1⟩ :: ps, .item (by simpa using hne) (@ReadsItem.bare [_] _ ?_ ?_) hcomp, ?_⟩
    · simpa using hname
    · intro d hd
      obtain ⟨ha, hl, hr⟩ := hrest d hd
      exact ⟨by simp [NameChar, ha, hr], hl⟩
    · simp [hps, itemOfPart_letter hc]
  | braced hc hf _ ih =>
    obtain ⟨ps, hcomp, hps⟩ := ih (.inl (rfl : ([] : Bytes) = []))
    obtain ⟨hname, hne⟩ := letter_name hc
    refine ⟨⟨[_], _, 1⟩ :: ps,
      .item (by simpa using hne) (@ReadsItem.braced [_] _ _ (by simpa using hname) hf) hcomp, ?_⟩
    simp [hps, itemOfPart_letter hc]

/-- A character in front of a pattern, in a run of text that it begins or extends. -/
theorem Pattern.cons {c : UInt8} {r : Bytes} {items : List FormatItem} (hc : c ≠ PERCENT)
    (h : Pattern r items) : ∃ items', Pattern (c :: r) items' := by
  have hsingle : PERCENT ∉ [c] := by simpa using Ne.symm hc
  cases h with
  | nil => exact ⟨_, .text (l := [c]) (by simp) hsingle (by simp) .nil⟩
  | text hne hl hrest h =>
    exact ⟨_, .text (l := c :: _) (by simp) (by simp [Ne.symm hc, hl]) hrest h⟩
  | bare hm hrest h => exact ⟨_, .text (l := [c]) (by simp) hsingle (by simp) (.bare hm hrest h)⟩
  | braced hm hf h => exact ⟨_, .text (l := [c]) (by simp) hsingle (by simp) (.braced hm hf h)⟩

open LogFormatter in
/-- A pattern that is compiled without an error is well-formed. -/
theorem Compiles.pattern {r text : Bytes} {ps : List PatternPart} {e : Bool}
    (h : Compiles r text ps e) (hno : ¬ [PERCENT, PERCENT] <:+: r) (he : e = false)
    (hp : ∀ p ∈ ps, (itemOfPart p).2 = false) : ∃ items, Pattern r items := by
  induction h with
  | done => exact ⟨[], .nil⟩
  | char hc _ ih =>
    obtain ⟨items, hi⟩ := ih (fun hi => hno (hi.trans (List.suffix_cons _ _).isInfix)) he hp
    exact hi.cons hc
  | double => exact absurd ⟨[], _, rfl⟩ hno
  | unclosed => cases he
  | item hh hr _ ih =>
    rename_i name fmt rest ps e _
    have hname := hp ⟨name, fmt, 1⟩ (by simp)
    have hlookup : ∃ make, formatItems.lookup name = some make := by
      refine Option.ne_none_iff_exists'.1 ?_
      intro hn
      simp [itemOfPart, hn] at hname
    obtain ⟨make, hmake⟩ := hlookup
    obtain ⟨c, hc, rfl⟩ := letter_of_lookup hmake
    have hp' : ∀ p ∈ ps, (itemOfPart p).2 = false := fun p hm => hp p (by simp [hm])
    cases hr with
    | bare hn hrest =>
      obtain ⟨items, hi⟩ := ih (fun hi => hno (hi.trans ⟨[PERCENT, c], [], by simp⟩)) he hp'
      refine ⟨_, .bare hc ?_ hi⟩
      intro d hd
      obtain ⟨hnd, hb⟩ := hrest d hd
      simp only [NameChar, not_or, Bool.not_eq_true] at hnd
      exact ⟨hnd.1, hb, hnd.2⟩
    | braced hn hf =>
      obtain ⟨items, hi⟩ := ih (fun hi =>
        hno (hi.trans ⟨[PERCENT, c, LBRACE] ++ fmt ++ [RBRACE], [], by simp⟩)) he hp'
      exact ⟨_, .braced hc hf hi⟩

/-- **The patterns that compile.** -/
theorem compiles_pattern_iff (pattern : Bytes) (h : ¬ [PERCENT, PERCENT] <:+: pattern) :
    ((LogFormatter.new pattern).isError = false ↔ ∃ items, Pattern pattern items) ∧
      ∀ items, Pattern pattern items → (LogFormatter.new pattern).items = items := by
  have hgood : ∀ items, Pattern pattern items →
      (LogFormatter.new pattern).isError = false ∧ (LogFormatter.new pattern).items = items := by
    intro items hi
    obtain ⟨ps, hc, hps⟩ := hi.compiles (.inl (rfl : ([] : Bytes) = []))
    have hc : Compiles pattern [] ps false := hc
    obtain ⟨hitems, herr⟩ := LogFormatter.new_of_compiles hc
    have hps' : ∀ p ∈ ps, (LogFormatter.itemOfPart p).2 = false := by
      intro p hp
      have := List.mem_map_of_mem (f := LogFormatter.itemOfPart) hp
      rw [hps] at this
      obtain ⟨i, -, hi⟩ := List.mem_map.1 this
      rw [← hi]
    refine ⟨herr.2 ⟨rfl, hps'⟩, hitems.trans ?_⟩
    have := congrArg (List.map Prod.fst) hps
    simpa [Function.comp_def] using this
  refine ⟨⟨?_, ?_⟩, fun items hi => (hgood items hi).2⟩
  · intro herr
    obtain ⟨ps, e, hc⟩ := exists_compiles pattern []
    obtain ⟨he, hp⟩ := (LogFormatter.new_of_compiles hc).2.1 herr
    exact hc.pattern h he hp
  · rintro ⟨items, hi⟩
    exact (hgood items hi).1

theorem compiles_pattern_iff_example :
    let pattern := str "at %d\x7b%H:%M\x7d: %m"
    ((LogFormatter.new pattern).isError = false ↔ ∃ items, Pattern pattern items) ∧
      ∀ items, Pattern pattern items → (LogFormatter.new pattern).items = items :=
  compiles_pattern_iff _ (by decide +kernel)

end MyHttpServer
