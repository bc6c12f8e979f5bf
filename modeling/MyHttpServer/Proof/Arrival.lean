/-
  Reading lines off a stream that arrives in pieces.

  `reaLines` calls `ReaLine` until it returns a value that is not positive.
  Its lines are those of the stream as long as no peek behind a CR comes
  before the LF (`CrLfTogether`).  A peek that comes too early leaves an LF
  behind, which is read as one line more than the stream has.

  * `ReadsLines`: a run of `reaLines` as a derivation;
  * `ReadsLines.first_lines`: the lines are the first ones of the stream if no
    LF is missed;
  * `ReadsLines.length_le`: otherwise, at the end of the stream there is a
    line too many;
  * `linesRead_arrival`: the two together.
-/
import MyHttpServer.Proof.ReaLine

namespace MyHttpServer

open RecvSide

namespace Util

/-- **A completed line is the first one of the stream.**  Either the stream is now
    behind it, or an LF was missed and the stream starts with it. -/
theorem LineDone.next_cases {s s' : RecvSide} {l : Bytes} {cs : List RecvCall}
    (h : LineDone s l s' cs) :
    (Lines.next CR LF s.stream = some (l, s'.stream) ∧ ∀ c ∈ cs, ¬ c.MissesLf) ∨
    ∃ rest, s'.stream = LF :: rest ∧ Lines.next CR LF s.stream = some (l, rest) ∧
      ∃ c ∈ cs, c.MissesLf := by
  obtain ⟨t, ht, ⟨he, hm⟩ | ⟨rfl, hl, hm⟩⟩ := h.text
  · rw [ht]
    exact .inl ⟨Lines.next_line CR_ne_LF h.cr h.lf he, hm⟩
  · obtain ⟨rest, hr⟩ := List.head?_eq_some_iff.1 hl
    have hs : s.stream = l ++ [CR, LF] ++ rest := by rw [ht, hr]; simp
    rw [hs]
    exact .inr ⟨rest, hr, Lines.next_line CR_ne_LF h.cr h.lf .crlf, hm⟩

/-- An LF that was missed is read as an empty line. -/
theorem LineDone.split {s s' : RecvSide} {l : Bytes} {cs : List RecvCall}
    (h : LineDone s l s' cs) :
    (Lines.split CR LF s.stream = l :: Lines.split CR LF s'.stream ∧ ∀ c ∈ cs, ¬ c.MissesLf) ∨
    ∃ ls, Lines.split CR LF s.stream = l :: ls ∧ Lines.split CR LF s'.stream = [] :: ls ∧
      ∃ c ∈ cs, c.MissesLf := by
  rcases h.next_cases with ⟨hn, hm⟩ | ⟨rest, hr, hn, hm⟩
  · exact .inl ⟨Lines.split_of_next hn, hm⟩
  · refine .inr ⟨Lines.split CR LF rest, Lines.split_of_next hn, ?_, hm⟩
    rw [hr]
    exact Lines.split_of_next (Lines.next_of_endsLine CR_ne_LF .lf)

/-! ## Calls of `ReaLine` in a row -/

def reaLinesStep (s : RecvSide) : Bytes × RecvSide ⊕ RecvSide :=
  let (n, line, s) := reaLine s []
  if 0 < n then .inl (line, s) else .inr s

theorem reaLinesStep_lt {s t : RecvSide} {line : Bytes} (h : reaLinesStep s = .inl (line, t)) :
    t.stream.length < s.stream.length := by
  simp only [reaLinesStep] at h
  split at h <;> cases h
  rename_i hn
  exact reaLine_lt hn

def reaLinesLoop : Producer RecvSide Bytes where
  step := reaLinesStep
  variant s := s.stream.length
  variant_lt := reaLinesStep_lt

/-- Calls of `ReaLine`, each into an empty string, up to the first that returns
    a value that is not positive: the lines before it, and the socket. -/
def reaLines (s : RecvSide) : List Bytes × RecvSide := reaLinesLoop.run s

/-- The lines as texts, without the LF that `ReaLine` ends each with. -/
def linesRead (s : RecvSide) : List Bytes := (reaLines s).1.map List.dropLast

/-- The `recv` calls that `reaLines` makes. -/
def callsMade (s : RecvSide) : List RecvCall := (reaLines s).2.calls.drop s.calls.length

theorem LineRead.step {s t : RecvSide} {l : Bytes} {cs : List RecvCall} (h : LineRead s l t cs) :
    reaLinesStep s = if Fits l then .inl (l ++ [LF], t) else .inr t := by
  simp only [reaLinesStep, h.eq]
  congr

theorem LineCut.step {s t : RecvSide} {l : Bytes} {cs : List RecvCall} {r : RecvResult}
    (h : LineCut s l t cs r) : reaLinesStep s = .inr t := by
  obtain ⟨n, hn, he⟩ := h.eq
  simp only [reaLinesStep, he, if_neg (not_lt.2 hn)]

theorem linesRead_of_read {s t : RecvSide} {l : Bytes} {cs : List RecvCall}
    (h : LineRead s l t cs) (hf : Fits l) : linesRead s = l :: linesRead t := by
  simp [linesRead, reaLines, Producer.run_next (G := reaLinesLoop) (h.step.trans (if_pos hf))]

theorem linesRead_of_overlong {s t : RecvSide} {l : Bytes} {cs : List RecvCall}
    (h : LineRead s l t cs) (hf : ¬ Fits l) : linesRead s = [] := by
  simp [linesRead, reaLines, Producer.run_done (G := reaLinesLoop) (h.step.trans (if_neg hf))]

theorem linesRead_of_cut {s t : RecvSide} {l : Bytes} {cs : List RecvCall} {r : RecvResult}
    (h : LineCut s l t cs r) : linesRead s = [] := by
  simp [linesRead, reaLines, Producer.run_done (G := reaLinesLoop) h.step]

/-- A run of `reaLines` on `s`: the texts of its lines, and the calls it makes. -/
inductive ReadsLines : RecvSide → List Bytes → RecvSide → List RecvCall → Prop
  | fails {s l s' cs r} : LineCut s l s' cs r →
      ReadsLines s [] s' (cs ++ [⟨false, s'.stream.head?, r⟩])
  | overlong {s l s' cs} : LineRead s l s' cs → ¬ Fits l → ReadsLines s [] s' cs
  | line {s l t ls s' cs ds} : LineRead s l t cs → Fits l → ReadsLines t ls s' ds →
      ReadsLines s (l :: ls) s' (cs ++ ds)

/-- **Every run of `reaLines` has a derivation.** -/
theorem reaLines_reads (s : RecvSide) :
    ∃ cs, ReadsLines s (linesRead s) (reaLines s).2 cs := by
  refine Producer.run_induct (G := reaLinesLoop)
    (P := fun s r => ∃ cs, ReadsLines s (r.1.map List.dropLast) r.2 cs) ?_ ?_ s
  · intro s t hs
    rcases reaLine_cases s with ⟨l, t', cs, h⟩ | ⟨l, t', cs, r, h⟩
    · by_cases hf : Fits l
      · cases hs.symm.trans (h.step.trans (if_pos hf))
      · cases hs.symm.trans (h.step.trans (if_neg hf))
        exact ⟨cs, .overlong h hf⟩
    · cases hs.symm.trans h.step
      exact ⟨_, .fails h⟩
  · rintro s line t hs ⟨ds, hr⟩
    rcases reaLine_cases s with ⟨l, t', cs, h⟩ | ⟨l, t', cs, r, h⟩
    · by_cases hf : Fits l
      · cases hs.symm.trans (h.step.trans (if_pos hf))
        exact ⟨cs ++ ds, by simpa using .line h hf hr⟩
      · cases hs.symm.trans (h.step.trans (if_neg hf))
    · cases hs.symm.trans h.step

namespace ReadsLines

theorem recvs {s s' : RecvSide} {ls : List Bytes} {cs : List RecvCall}
    (h : ReadsLines s ls s' cs) : Recvs s s' cs := by
  induction h with
  | fails hf => exact hf.recvs
  | overlong hd => exact hd.recvs
  | line hd _ _ ih => exact hd.recvs.trans ih

/-- **If no LF is missed, the lines are the first ones of the stream.** -/
theorem first_lines {s s' : RecvSide} {ls : List Bytes} {cs : List RecvCall}
    (h : ReadsLines s ls s' cs) (hm : ∀ c ∈ cs, ¬ c.MissesLf) :
    ls <+: Lines.split CR LF s.stream := by
  induction h with
  | fails | overlong => exact List.nil_prefix
  | line hd _ _ ih =>
    rcases hd.split with ⟨hs, -⟩ | ⟨_, -, -, c, hc, hcm⟩
    · rw [hs]
      exact List.cons_prefix_cons.2 ⟨rfl, ih fun c hc => hm c (List.mem_append_right _ hc)⟩
    · exact absurd hcm (hm c (List.mem_append_left _ hc))

/-- **Each LF that is missed makes a line too many**: with lines that fit an
    `int`, no line is lost, and a missed LF adds one. -/
theorem length_le {s s' : RecvSide} {ls : List Bytes} {cs : List RecvCall}
    (h : ReadsLines s ls s' cs) (hs : ∀ l ∈ Lines.split CR LF s.stream, l.length + 1 < 2 ^ 31) :
    (Lines.split CR LF s.stream).length ≤ ls.length + (Lines.split CR LF s'.stream).length ∧
    ((∃ c ∈ cs, c.MissesLf ∧ c.peek = true) →
      (Lines.split CR LF s.stream).length < ls.length + (Lines.split CR LF s'.stream).length) := by
  induction h with
  | fails hf =>
    rw [hf.text, Lines.length_split_append hf.cr hf.lf]
    refine ⟨by simp, ?_⟩
    rintro ⟨c, hc, hm, hp⟩
    rcases List.mem_append.1 hc with hc | hc
    · exact absurd hm.2.1 (hf.bytes c hc)
    · simp only [List.mem_singleton] at hc
      subst hc; cases hp
  | @overlong s l s' cs hd hn =>
    have hl : l ∈ Lines.split CR LF s.stream := by
      rcases hd.split with ⟨he, -⟩ | ⟨_, he, -⟩ <;> simp [he]
    exact absurd (fits_of_lt (hs l hl)) hn
  | @line s l t ls s' cs ds hd _ _ ih =>
    rcases hd.split with ⟨he, hm⟩ | ⟨r, he, ht, -⟩
    · obtain ⟨h1, h2⟩ := ih fun l hl => hs l (by simp [he, hl])
      rw [he]
      refine ⟨by simp only [List.length_cons]; omega, ?_⟩
      rintro ⟨c, hc, hcm, hp⟩
      rcases List.mem_append.1 hc with hc | hc
      · exact absurd hcm (hm c hc)
      · have := h2 ⟨c, hc, hcm, hp⟩
        simp only [List.length_cons]; omega
    · have h1 := (ih fun l hl => by
        rw [ht] at hl
        rcases List.mem_cons.1 hl with rfl | hl
        · simp
        · exact hs l (by simp [he, hl])).1
      rw [ht] at h1
      rw [he]
      simp only [List.length_cons] at h1 ⊢
      omega

end ReadsLines

/-! ## Arrival independence -/

/-- The peek behind a CR never comes before an LF that follows the CR. -/
def CrLfTogether (s : RecvSide) : Prop :=
  ∀ c ∈ callsMade s, c.peek = true → c.next = some LF → c.result = .byte LF

theorem callsMade_eq {s : RecvSide} {cs : List RecvCall} (h : Recvs s (reaLines s).2 cs) :
    callsMade s = cs := by
  rw [callsMade, h.calls]; simp

/-- On a socket as `Loop` accepts it, the peeks that come too early are the
    calls that miss an LF. -/
theorem crLfTogether_iff {s : RecvSide} {cs : List RecvCall} (h : Recvs s (reaLines s).2 cs)
    (hq : s.Quiet) (hc : s.closed = false) :
    CrLfTogether s ↔ ∀ c ∈ cs, ¬ c.MissesLf := by
  rw [CrLfTogether, callsMade_eq h]
  constructor
  · rintro hp c hmem ⟨hn, hf, hs⟩
    have he := h.fails_quiet hq hc c hmem hf
    refine hf LF (hp c hmem ?_ hn)
    by_contra hpk
    exact hs ⟨by simpa using hpk, he⟩
  · intro hm c hmem hp hn
    cases hr : c.result with
    | byte b =>
      have := h.next_of_byte c hmem b hr
      rw [hn] at this; cases this; rfl
    | eof | err =>
      refine absurd ⟨hn, fun b hb => ?_, fun hs => ?_⟩ (hm c hmem)
      · rw [hr] at hb; cases hb
      · rw [hs.1] at hp; cases hp

/-- **The lines read are the lines of the stream** on every arrival schedule on
    which no peek comes before an LF; and on a schedule on which everything
    arrives and is read, on no other. -/
theorem linesRead_arrival {s : RecvSide} (hq : s.Quiet) (hc : s.closed = false) :
    (CrLfTogether s → linesRead s <+: Lines.split CR LF s.stream) ∧
    ((reaLines s).2.stream = [] → (∀ l ∈ Lines.split CR LF s.stream, l.length + 1 < 2 ^ 31) →
      (linesRead s <+: Lines.split CR LF s.stream ↔ CrLfTogether s)) := by
  obtain ⟨cs, h⟩ := reaLines_reads s
  have hiff := crLfTogether_iff h.recvs hq hc
  have key : CrLfTogether s → linesRead s <+: Lines.split CR LF s.stream :=
    fun ht => h.first_lines (hiff.1 ht)
  refine ⟨key, fun hend hs => ⟨fun hp => hiff.2 ?_, key⟩⟩
  intro c hmem hm
  have hpk : c.peek = true := by
    by_contra hpk
    exact hm.2.2 ⟨by simpa using hpk, h.recvs.fails_quiet hq hc c hmem hm.2.1⟩
  have hlt := (h.length_le hs).2 ⟨c, hmem, hm, hpk⟩
  have hle := hp.length_le
  rw [hend] at hlt
  simp only [Lines.split, List.length_nil] at hlt
  omega

/-- `a\r\nb\n`, the last two bytes of which arrive later than the rest. -/
def wholeEnd : RecvSide :=
  { queue := [97, CR, LF], coming := [.data [], .data [], .data [], .data [98, LF]],
    closed := false }

/-- The same text on a schedule that cuts it between CR and LF. -/
def cutEnd : RecvSide :=
  { queue := [97, CR], coming := [.data [], .data [], .data [], .data [LF, 98, LF]],
    closed := false }

theorem linesRead_arrival_wholeEnd :
    linesRead wholeEnd <+: Lines.split CR LF wholeEnd.stream ∧
    (linesRead wholeEnd <+: Lines.split CR LF wholeEnd.stream ↔ CrLfTogether wholeEnd) := by
  have hq : wholeEnd.Quiet := by simp [Quiet, wholeEnd]
  have ht : CrLfTogether wholeEnd := by unfold CrLfTogether; decide +kernel
  exact ⟨(linesRead_arrival hq rfl).1 ht,
    (linesRead_arrival hq rfl).2 (by decide +kernel) (by decide +kernel)⟩

/-- The cut makes an empty line that the text does not have. -/
theorem linesRead_cutEnd : cutEnd.Quiet ∧ cutEnd.closed = false ∧
    cutEnd.stream = wholeEnd.stream ∧ linesRead cutEnd = [[97], [], [98]] ∧
    ¬ linesRead cutEnd <+: Lines.split CR LF cutEnd.stream := by
  refine ⟨?_, rfl, rfl, by decide +kernel, by decide +kernel⟩
  simp [Quiet, cutEnd]

end Util

end MyHttpServer
