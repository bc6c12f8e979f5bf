/-
  The order of the items of a pattern.

  `placedStep` is the scan of `init` with a record of where in the pattern each
  character of `nstr`, and each part, comes from.  Text that is in `nstr` when a
  `'{'` is found not to be closed is pushed behind the marker for it.

  * `placed_items`: without the record it is the scan of `init`;
  * `inOrder_iff`: when the items stand in the order of the pattern.
-/
import MyHttpServer.Proof.Pattern

namespace MyHttpServer

/-! ## The scan, with positions -/

/-- The variables of `init`, with the position of each character of `nstr` and the
    positions that each part is made of. -/
structure PlacedScan where
  i : ℕ := 0
  nstr : List (UInt8 × ℕ) := []
  vec : List (PatternPart × List ℕ) := []
  error : Bool := false

namespace PlacedScan

/-- The scan without the positions. -/
def erase (s : PlacedScan) : PatternScan :=
  { i := s.i, nstr := s.nstr.map Prod.fst, vec := s.vec.map Prod.fst, error := s.error }

end PlacedScan

/-- `pushText` -/
def pushPlaced (vec : List (PatternPart × List ℕ)) (nstr : List (UInt8 × ℕ)) :
    List (PatternPart × List ℕ) :=
  if nstr = [] then vec else vec ++ [(⟨nstr.map Prod.fst, [], 0⟩, nstr.map Prod.snd)]

theorem map_pushPlaced (vec : List (PatternPart × List ℕ)) (nstr : List (UInt8 × ℕ)) :
    (pushPlaced vec nstr).map Prod.fst = pushText (vec.map Prod.fst) (nstr.map Prod.fst) := by
  unfold pushPlaced pushText
  by_cases h : nstr = [] <;> simp [h]

/-- `patternStep`.  An item comes from all of its characters, the marker for a
    `'{'` that is not closed from its `'%'`. -/
def placedStep (pattern : Bytes) (s : PlacedScan) : PlacedScan ⊕ PlacedScan :=
  match pattern[s.i]? with
  | none => .inr s
  | some c =>
    if c ≠ PERCENT then .inl { s with i := s.i + 1, nstr := s.nstr ++ [(c, s.i)] }
    else if pattern[s.i + 1]? = some PERCENT then
      .inl { s with i := s.i + 1, nstr := s.nstr ++ [(PERCENT, s.i)] }
    else
      let r := (itemLoop pattern s.i).run { n := s.i + 1 }
      if r.fmtStatus = 0 then
        .inl { s with
          i := r.n - 1 + 1
          nstr := []
          vec := pushPlaced s.vec s.nstr ++ [(⟨r.str, r.fmt, 1⟩, List.range' s.i (r.n - s.i))] }
      else
        .inl { s with
          i := s.i + 1
          vec := s.vec ++ [(⟨str "<<pattern_error>>", r.fmt, 0⟩, [s.i])]
          error := true }

theorem placedStep_erase (pattern : Bytes) (s : PlacedScan) :
    patternStep pattern s.erase = (placedStep pattern s).map PlacedScan.erase PlacedScan.erase := by
  unfold patternStep placedStep
  simp only [PlacedScan.erase]
  cases pattern[s.i]? with
  | none => rfl
  | some c =>
    by_cases hc : c = PERCENT
    · by_cases hd : pattern[s.i + 1]? = some PERCENT
      · simp [hc, hd, PlacedScan.erase]
      · by_cases hr : ((itemLoop pattern s.i).run { n := s.i + 1 }).fmtStatus = 0
        · simp [hc, hd, hr, PlacedScan.erase, map_pushPlaced]
        · simp [hc, hd, hr, PlacedScan.erase]
    · simp [hc, PlacedScan.erase]

def placedLoop (pattern : Bytes) : WhileLoop PlacedScan PlacedScan where
  step := placedStep pattern
  variant s := pattern.length - s.i
  variant_lt {s t} h := by
    have he := placedStep_erase pattern s
    rw [h] at he
    have : s.i < pattern.length ∧ s.i < t.i := patternStep_next he
    omega

/-- The parts of a pattern, with the positions that they come from. -/
def placed (pattern : Bytes) : List (PatternPart × List ℕ) :=
  let s := (placedLoop pattern).run {}
  pushPlaced s.vec s.nstr

/-- **They are the parts that `init` makes its items of.** -/
theorem placed_items (pattern : Bytes) :
    (placed pattern).map (fun p => (LogFormatter.itemOfPart p.1).1) =
      (LogFormatter.new pattern).items := by
  have hrun : (patternLoop pattern).run {} = ((placedLoop pattern).run {}).erase :=
    @WhileLoop.run_map _ _ (placedLoop pattern) _ _ (patternLoop pattern) _ _
      (placedStep_erase pattern) {}
  simp only [LogFormatter.new, hrun, PlacedScan.erase, ← map_pushPlaced, List.map_map]
  rfl

/-! ## One step -/

section
variable {pattern : Bytes} {s : PlacedScan}

theorem placedStep_char {c : UInt8} {r : Bytes} (hd : pattern.drop s.i = c :: r)
    (hc : c ≠ PERCENT) : placedStep pattern s =
      .inl { s with i := s.i + 1, nstr := s.nstr ++ [(c, s.i)] } := by
  simp [placedStep, (getElem?_of_drop hd).1, hc]

theorem placedStep_double {r : Bytes} (hd : pattern.drop s.i = PERCENT :: PERCENT :: r) :
    placedStep pattern s = .inl { s with i := s.i + 1, nstr := s.nstr ++ [(PERCENT, s.i)] } := by
  obtain ⟨hget, hd', -⟩ := getElem?_of_drop hd
  simp [placedStep, hget, (getElem?_of_drop hd').1]

theorem placedStep_item {t name fmt rest : Bytes} (hd : pattern.drop s.i = PERCENT :: t)
    (hh : t.head? ≠ some PERCENT) (hr : ReadsItem t name fmt (some rest)) :
    ∃ n, pattern.drop n = rest ∧ s.i < n ∧ placedStep pattern s = .inl { s with
      i := n
      nstr := []
      vec := pushPlaced s.vec s.nstr ++ [(⟨name, fmt, 1⟩, List.range' s.i (n - s.i))] } := by
  obtain ⟨hget, hd', -⟩ := getElem?_of_drop hd
  obtain ⟨hfmt, hstatus, hstr, hn, hrest⟩ := itemLoop_reads hr hd'
  have hle := itemLoop_le pattern s.i { n := s.i + 1 }
  have hne : pattern[s.i + 1]? ≠ some PERCENT := by
    rw [← List.head?_drop, hd']
    exact hh
  refine ⟨_, hrest, hle, ?_⟩
  simp only [placedStep, hget, ne_eq, not_true_eq_false, if_false, if_neg hne, hstatus, if_true,
    hfmt, hstr, Nat.sub_add_cancel hn]

theorem placedStep_unclosed {t name fmt : Bytes} (hd : pattern.drop s.i = PERCENT :: t)
    (hh : t.head? ≠ some PERCENT) (hr : ReadsItem t name fmt none) :
    placedStep pattern s = .inl { s with
      i := s.i + 1
      vec := s.vec ++ [(⟨str "<<pattern_error>>", fmt, 0⟩, [s.i])]
      error := true } := by
  obtain ⟨hget, hd', -⟩ := getElem?_of_drop hd
  obtain ⟨hfmt, hstatus⟩ := itemLoop_reads hr hd'
  have hstatus : ((itemLoop pattern s.i).run { n := s.i + 1 }).fmtStatus = 1 := hstatus
  have hne : pattern[s.i + 1]? ≠ some PERCENT := by
    rw [← List.head?_drop, hd']
    exact hh
  simp only [placedStep, hget, ne_eq, not_true_eq_false, if_false, if_neg hne, hstatus,
    show ¬ (1 : ℕ) = 0 by omega, hfmt]

end

/-! ## The order -/

/-- The parts stand in the order of the positions that they come from. -/
def InOrder (ps : List (PatternPart × List ℕ)) : Prop :=
  ps.Pairwise fun p q => ∀ a ∈ p.2, ∀ b ∈ q.2, a < b

/-- In a pattern read from the left, with text in front of it if `pending`, every
    `'%'` whose `'{'` is not closed stands at the start or directly behind an item. -/
inductive NoPending : Bool → Bytes → Prop
  | nil {b} : NoPending b []
  | char {b c r} : c ≠ PERCENT → NoPending true r → NoPending b (c :: r)
  | double {b r} : NoPending true (PERCENT :: r) → NoPending b (PERCENT :: PERCENT :: r)
  | item {b t name fmt rest} : t.head? ≠ some PERCENT → ReadsItem t name fmt (some rest) →
      NoPending false rest → NoPending b (PERCENT :: t)
  | unclosed {t name fmt} : t.head? ≠ some PERCENT → ReadsItem t name fmt none →
      NoPending false t → NoPending false (PERCENT :: t)

/-- What is behind an item is determined by the text. -/
theorem ReadsItem.rest_unique {t name name' fmt fmt' : Bytes} {rest rest' : Option Bytes}
    (h : ReadsItem t name fmt rest) (h' : ReadsItem t name' fmt' rest') : rest = rest' := by
  have hd : (PERCENT :: t).drop (0 + 1) = t := rfl
  have h := (itemLoop_reads h hd).2
  have h' := (itemLoop_reads h' hd).2
  cases rest with
  | none =>
    cases rest' with
    | none => rfl
    | some rest' => cases h'.1.symm.trans h
  | some rest =>
    cases rest' with
    | none => cases h.1.symm.trans h'
    | some rest' => exact congrArg some (h.2.2.2.symm.trans h'.2.2.2)

theorem noPending_char {b : Bool} {c : UInt8} {r : Bytes} (hc : c ≠ PERCENT) :
    NoPending b (c :: r) ↔ NoPending true r := by
  constructor
  · intro h
    cases h with
    | char _ h => exact h
    | double => exact absurd rfl hc
    | item => exact absurd rfl hc
    | unclosed => exact absurd rfl hc
  · exact .char hc

theorem noPending_double {b : Bool} {r : Bytes} :
    NoPending b (PERCENT :: PERCENT :: r) ↔ NoPending true (PERCENT :: r) := by
  constructor
  · intro h
    cases h with
    | char hc => exact absurd rfl hc
    | double h => exact h
    | item hh => exact absurd rfl hh
    | unclosed hh => exact absurd rfl hh
  · exact .double

theorem noPending_item {b : Bool} {t name fmt rest : Bytes} (hh : t.head? ≠ some PERCENT)
    (hr : ReadsItem t name fmt (some rest)) :
    NoPending b (PERCENT :: t) ↔ NoPending false rest := by
  constructor
  · intro h
    cases h with
    | char hc => exact absurd rfl hc
    | double => exact absurd rfl hh
    | item _ hr' h =>
      cases hr.rest_unique hr'
      exact h
    | unclosed _ hr' => cases hr.rest_unique hr'
  · exact .item hh hr

theorem noPending_unclosed {b : Bool} {t name fmt : Bytes} (hh : t.head? ≠ some PERCENT)
    (hr : ReadsItem t name fmt none) :
    NoPending b (PERCENT :: t) ↔ b = false ∧ NoPending false t := by
  constructor
  · intro h
    cases h with
    | char hc => exact absurd rfl hc
    | double => exact absurd rfl hh
    | item _ hr' => cases hr.rest_unique hr'
    | unclosed _ _ h => exact ⟨rfl, h⟩
  · rintro ⟨rfl, h⟩
    exact .unclosed hh hr h

theorem inOrder_cons {p : PatternPart × List ℕ} {ps : List (PatternPart × List ℕ)} :
    InOrder (p :: ps) ↔ (∀ q ∈ ps, ∀ a ∈ p.2, ∀ b ∈ q.2, a < b) ∧ InOrder ps :=
  List.pairwise_cons

/-- The text that has been collected, as the parts that it is pushed as. -/
theorem pushPlaced_eq (vec : List (PatternPart × List ℕ)) (nstr : List (UInt8 × ℕ)) :
    pushPlaced vec nstr = vec ++ pushPlaced [] nstr := by
  unfold pushPlaced
  split_ifs <;> simp

theorem mem_pushPlaced {nstr : List (UInt8 × ℕ)} {q : PatternPart × List ℕ} :
    q ∈ pushPlaced [] nstr ↔ nstr ≠ [] ∧ q = (⟨nstr.map Prod.fst, [], 0⟩, nstr.map Prod.snd) := by
  unfold pushPlaced
  split_ifs with h <;> simp [h]

/-- Text that is followed by parts from behind it. -/
theorem inOrder_pushPlaced {nstr : List (UInt8 × ℕ)} {ps : List (PatternPart × List ℕ)} {n : ℕ}
    (hn : ∀ x ∈ nstr, x.2 < n) (hps : ∀ q ∈ ps, ∀ b ∈ q.2, n ≤ b) :
    InOrder (pushPlaced [] nstr ++ ps) ↔ InOrder ps := by
  unfold InOrder
  rw [List.pairwise_append]
  constructor
  · exact fun h => h.2.1
  · intro h
    refine ⟨?_, h, ?_⟩
    · unfold pushPlaced
      split_ifs <;> simp
    · intro p hp q hq a ha b hb
      obtain ⟨-, rfl⟩ := mem_pushPlaced.1 hp
      obtain ⟨x, hx, rfl⟩ := List.mem_map.1 ha
      exact (hn x hx).trans_le (hps q hq b hb)

/-- What the scan makes of the rest `r` of a pattern: the parts `qs` come from the
    text that has been collected, all of which is in them, and from the rest. -/
structure PlacedRest (s : PlacedScan) (r : Bytes) (qs : List (PatternPart × List ℕ)) : Prop where
  places : ∀ q ∈ qs, ∀ b ∈ q.2, (∃ x ∈ s.nstr, x.2 = b) ∨ s.i ≤ b
  text : ∀ x ∈ s.nstr, ∃ q ∈ qs, x.2 ∈ q.2
  order : InOrder qs ↔ NoPending (s.nstr ≠ []) r

/-- A character that is added to the text. -/
theorem PlacedRest.char {s : PlacedScan} {c : UInt8} {r r' : Bytes}
    {qs : List (PatternPart × List ℕ)}
    (h : PlacedRest { s with i := s.i + 1, nstr := s.nstr ++ [(c, s.i)] } r qs)
    (hr : ∀ b, NoPending b r' ↔ NoPending true r) : PlacedRest s r' qs := by
  refine ⟨?_, fun x hx => h.text x (by simp [hx]), ?_⟩
  · intro q hq b hb
    rcases h.places q hq b hb with ⟨x, hx, rfl⟩ | hle
    · rcases List.mem_append.1 hx with hx | hx
      · exact .inl ⟨x, hx, rfl⟩
      · cases List.mem_singleton.1 hx
        exact .inr le_rfl
    · exact .inr (Nat.le_of_succ_le hle)
  · rw [hr]
    simpa using h.order

theorem char_lt {s : PlacedScan} (hs : ∀ x ∈ s.nstr, x.2 < s.i) (c : UInt8) :
    ∀ x ∈ s.nstr ++ [(c, s.i)], x.2 < s.i + 1 := by
  intro x hx
  rcases List.mem_append.1 hx with hx | hx
  · exact (hs x hx).trans (Nat.lt_succ_self _)
  · cases List.mem_singleton.1 hx
    exact Nat.lt_succ_self _

/-- **What the scan makes of the rest of a pattern.** -/
theorem placedLoop_rest {pattern r text : Bytes} {ps : List PatternPart} {e : Bool}
    (h : Compiles r text ps e) {s : PlacedScan} (hd : pattern.drop s.i = r)
    (hs : ∀ x ∈ s.nstr, x.2 < s.i) :
    ∃ qs, pushPlaced ((placedLoop pattern).run s).vec ((placedLoop pattern).run s).nstr =
      s.vec ++ qs ∧ PlacedRest s r qs := by
  induction h generalizing s with
  | done =>
    have hdone : placedStep pattern s = .inr s := by
      simp only [placedStep, getElem?_of_drop_nil hd]
    rw [WhileLoop.run_done (L := placedLoop pattern) hdone]
    refine ⟨pushPlaced [] s.nstr, pushPlaced_eq _ _, ?_, ?_, ?_⟩
    · intro q hq b hb
      obtain ⟨-, rfl⟩ := mem_pushPlaced.1 hq
      exact .inl (by simpa using List.mem_map.1 hb)
    · intro x hx
      exact ⟨_, mem_pushPlaced.2 ⟨List.ne_nil_of_mem hx, rfl⟩, List.mem_map_of_mem hx⟩
    · have hempty := @inOrder_pushPlaced s.nstr [] s.i hs (by simp)
      rw [List.append_nil] at hempty
      rw [hempty]
      exact iff_of_true .nil .nil
  | char hc _ ih =>
    obtain ⟨qs, hrun, hqs⟩ := @ih { s with i := s.i + 1, nstr := s.nstr ++ [(_, s.i)] }
      (getElem?_of_drop hd).2.1 (char_lt hs _)
    rw [WhileLoop.run_next (L := placedLoop pattern) (placedStep_char hd hc)]
    exact ⟨qs, hrun, hqs.char fun b => noPending_char hc⟩
  | double _ ih =>
    obtain ⟨qs, hrun, hqs⟩ := @ih { s with i := s.i + 1, nstr := s.nstr ++ [(_, s.i)] }
      (getElem?_of_drop hd).2.1 (char_lt hs _)
    rw [WhileLoop.run_next (L := placedLoop pattern) (placedStep_double hd)]
    exact ⟨qs, hrun, hqs.char fun b => noPending_double⟩
  | @item t text name fmt rest ps e hh hr _ ih =>
    obtain ⟨n, hn, hlt, hstep⟩ := placedStep_item hd hh hr
    rw [WhileLoop.run_next (L := placedLoop pattern) hstep]
    set item : PatternPart × List ℕ := (⟨name, fmt, 1⟩, List.range' s.i (n - s.i))
    obtain ⟨qs, hrun, hqs⟩ := @ih { s with
      i := n
      nstr := []
      vec := pushPlaced s.vec s.nstr ++ [item] } hn (by simp)
    have hitem : ∀ b ∈ item.2, s.i ≤ b ∧ b < n := by
      intro b hb
      obtain ⟨h1, h2⟩ := List.mem_range'_1.1 hb
      omega
    have hrest : ∀ q ∈ qs, ∀ b ∈ q.2, n ≤ b := by
      intro q hq b hb
      exact (hqs.places q hq b hb).resolve_left (by simp)
    have hback : ∀ q ∈ item :: qs, ∀ b ∈ q.2, s.i ≤ b := by
      intro q hq b hb
      rcases List.mem_cons.1 hq with rfl | hq
      · exact (hitem b hb).1
      · exact hlt.le.trans (hrest q hq b hb)
    refine ⟨pushPlaced [] s.nstr ++ item :: qs, ?_, ?_, ?_, ?_⟩
    · rw [hrun, pushPlaced_eq]; simp
    · intro q hq b hb
      rcases List.mem_append.1 hq with hq | hq
      · obtain ⟨-, rfl⟩ := mem_pushPlaced.1 hq
        exact .inl (by simpa using List.mem_map.1 hb)
      · exact .inr (hback q hq b hb)
    · intro x hx
      exact ⟨_, List.mem_append_left _ (mem_pushPlaced.2 ⟨List.ne_nil_of_mem hx, rfl⟩),
        List.mem_map_of_mem hx⟩
    · rw [inOrder_pushPlaced hs hback, inOrder_cons, noPending_item hh hr]
      have horder : InOrder qs ↔ NoPending false rest := by simpa using hqs.order
      rw [horder, and_iff_right_iff_imp]
      rintro - q hq a ha b hb
      exact (hitem a ha).2.trans_le (hrest q hq b hb)
  | @unclosed t text name fmt ps e hh hr _ ih =>
    rw [WhileLoop.run_next (L := placedLoop pattern) (placedStep_unclosed hd hh hr)]
    set marker : PatternPart × List ℕ := (⟨str "<<pattern_error>>", fmt, 0⟩, [s.i])
    obtain ⟨qs, hrun, hqs⟩ := @ih { s with
      i := s.i + 1
      vec := s.vec ++ [marker]
      error := true } (getElem?_of_drop hd).2.1 fun x hx => (hs x hx).trans (Nat.lt_succ_self _)
    refine ⟨marker :: qs, by rw [hrun]; simp, ?_, ?_, ?_⟩
    · intro q hq b hb
      rcases List.mem_cons.1 hq with rfl | hq
      · cases List.mem_singleton.1 hb
        exact .inr le_rfl
      · exact (hqs.places q hq b hb).imp_right Nat.le_of_succ_le
    · intro x hx
      obtain ⟨q, hq, hxq⟩ := hqs.text x hx
      exact ⟨q, List.mem_cons_of_mem _ hq, hxq⟩
    · rw [inOrder_cons, noPending_unclosed hh hr]
      constructor
      · rintro ⟨hlt, ho⟩
        -- text that has been collected comes behind the marker
        have hnil : s.nstr = [] := by
          by_contra hne
          obtain ⟨x, hx⟩ := List.exists_mem_of_ne_nil _ hne
          obtain ⟨q, hq, hxq⟩ := hqs.text x hx
          exact absurd (hlt q hq s.i (by simp [marker]) x.2 hxq) (hs x hx).not_gt
        exact ⟨by simp [hnil], by simpa [hnil] using hqs.order.1 ho⟩
      · rintro ⟨hnil, h⟩
        have hnil : s.nstr = [] := by simpa using hnil
        refine ⟨?_, hqs.order.2 (by simpa [hnil] using h)⟩
        intro q hq a ha b hb
        cases List.mem_singleton.1 ha
        rcases hqs.places q hq b hb with ⟨x, hx, -⟩ | hle
        · rw [hnil] at hx
          cases hx
        · exact hle

/-- **The items stand in the order of the pattern exactly if every `'%'` whose
    `'{'` is never closed stands at the start or directly behind an item.** -/
theorem inOrder_iff (pattern : Bytes) :
    (placed pattern).map (fun p => (LogFormatter.itemOfPart p.1).1) =
        (LogFormatter.new pattern).items ∧
      (InOrder (placed pattern) ↔ NoPending false pattern) := by
  obtain ⟨ps, e, hc⟩ := exists_compiles pattern []
  obtain ⟨qs, hrun, hqs⟩ := placedLoop_rest hc (s := {}) rfl (by simp)
  refine ⟨placed_items pattern, ?_⟩
  rw [placed, hrun]
  simpa using hqs.order

/-- The text in front of the `'%'` comes behind the marker for it, together with
    the text behind the `'%'`. -/
theorem text_overtaken :
    (LogFormatter.new (str "a%\x7bb")).items =
        [.string (str "<<pattern_error>>"), .string (str "a\x7bb")] ∧
      (placed (str "a%\x7bb")).map Prod.snd = [[1], [0, 2, 3]] ∧
      ¬ InOrder (placed (str "a%\x7bb")) := by
  refine ⟨by decide +kernel, by decide +kernel, ?_⟩
  have hplaced : placed (str "a%\x7bb") =
      [(⟨str "<<pattern_error>>", [], 0⟩, [1]), (⟨str "a\x7bb", [], 0⟩, [0, 2, 3])] := by
    decide +kernel
  rw [hplaced, inOrder_cons]
  intro h
  exact absurd (h.1 _ (List.mem_singleton_self _) 1 (by simp) 0 (by simp)) (by decide)

end MyHttpServer
