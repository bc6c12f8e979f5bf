/-
  When `HandlerRequest` closes the socket without a response.

  It does so when the head of the request is not read to its end.  That has
  three causes: a `recv` reports the peer's close or an error, a `recv` finds
  that the next byte has not arrived yet, or a line is too long for the `int`
  that `ReaLine` returns.  Only the first is a reason.

  * `ReadsHead.end_cases`: the causes, for one run of the readers;
  * `dropped_iff`: which requests are dropped for no reason.
-/
import MyHttpServer.Proof.Send
import MyHttpServer.Proof.Whole

namespace MyHttpServer

open RecvSide Util

/-! ## The lines of the head -/

namespace Util

theorem LineDone.stream_lt {s t : RecvSide} {l : Bytes} {cs : List RecvCall}
    (h : LineDone s l t cs) : t.stream.length < s.stream.length := by
  obtain ⟨e, he, hend⟩ := h.text
  have hne : e ≠ [] := by
    rcases hend with ⟨hend, -⟩ | ⟨rfl, -⟩
    · exact hend.ne_nil
    · simp
  have := List.length_pos_iff.2 hne
  rw [he]
  simp only [List.length_append]; omega

def completeStep (s : RecvSide) : Bytes × RecvSide ⊕ RecvSide :=
  let (_, line, s) := reaLine s []
  if line.getLast? = some LF then .inl (line.dropLast, s) else .inr s

theorem LineRead.complete {s t : RecvSide} {l : Bytes} {cs : List RecvCall}
    (h : LineRead s l t cs) : completeStep s = .inl (l, t) := by
  simp [completeStep, h.eq]

theorem LineCut.complete {s t : RecvSide} {l : Bytes} {cs : List RecvCall} {r : RecvResult}
    (h : LineCut s l t cs r) : completeStep s = .inr t := by
  obtain ⟨n, -, he⟩ := h.eq
  have hl : l.getLast? ≠ some LF := fun hl => h.lf (List.mem_of_getLast? hl)
  simp [completeStep, he, hl]

theorem completeStep_lt {s t : RecvSide} {l : Bytes} (h : completeStep s = .inl (l, t)) :
    t.stream.length < s.stream.length := by
  rcases reaLine_cases s with ⟨l', t', cs, hd⟩ | ⟨l', t', cs, r, hf⟩
  · cases h.symm.trans hd.complete
    exact hd.stream_lt
  · cases h.symm.trans hf.complete

def completeLoop : Producer RecvSide Bytes where
  step := completeStep
  variant s := s.stream.length
  variant_lt := completeStep_lt

/-- The lines that `ReaLine` gets to the end of, called again and again,
    whatever it returns for them. -/
def completeLines (s : RecvSide) : List Bytes := (completeLoop.run s).1

theorem completeLines_of_read {s t : RecvSide} {l : Bytes} {cs : List RecvCall}
    (h : LineRead s l t cs) : completeLines s = l :: completeLines t := by
  simp [completeLines, Producer.run_next (G := completeLoop) h.complete]

theorem completeLines_of_cut {s t : RecvSide} {l : Bytes} {cs : List RecvCall} {r : RecvResult}
    (h : LineCut s l t cs r) : completeLines s = [] := by
  simp [completeLines, Producer.run_done (G := completeLoop) h.complete]

/-- The lines of the head, as far as they come: the first one, and those up to
    the first empty one behind it. -/
def headLines (s : RecvSide) : List Bytes :=
  match completeLines s with
  | [] => []
  | l :: ls => l :: ls.takeWhile (· ≠ [])

end Util

namespace EndPoint

/-- A run meets a line that is too long exactly if there is one. -/
theorem ReadsHeader.fits_iff {s t : RecvSide} {ls : List Bytes} {ok : Bool} {cs : List RecvCall}
    (h : ReadsHeader s ls ok t cs) :
    (∀ l ∈ ls, Fits l) ↔ ∀ l ∈ (completeLines s).takeWhile (· ≠ []), Fits l := by
  induction h with
  | blank hd => simp [completeLines_of_read hd]
  | line hd hl hf _ ih => simp [completeLines_of_read hd, hl, hf, ih]
  | @overlong s l t cs hd hf =>
    have hl : l ≠ [] := by
      rintro rfl
      exact hf fits_nil
    simp [completeLines_of_read hd, hl, hf]
  | fails hf => simp [completeLines_of_cut hf]

theorem ReadsHead.fits_iff {s t : RecvSide} {ls : List Bytes} {ok : Bool} {cs : List RecvCall}
    (h : ReadsHead s ls ok t cs) : (∀ l ∈ ls, Fits l) ↔ ∀ l ∈ headLines s, Fits l := by
  cases h with
  | fails hf => simp [headLines, completeLines_of_cut hf]
  | overlong hd hf => simp [headLines, completeLines_of_read hd, hf]
  | header hd hf hh =>
    have := hh.fits_iff
    simp only [headLines, completeLines_of_read hd, List.mem_cons, forall_eq_or_imp, hf, true_and]
    exact this

/-! ## Why a head is not read to its end -/

/-- The ends of a run: past the empty line, or for one of three causes. -/
def EndCause (ls : List Bytes) (ok : Bool) (cs : List RecvCall) : Prop :=
  match ok with
  | true => (∀ c ∈ cs, ¬ c.Stalls) ∧ ∀ l ∈ ls, Fits l
  | false => (∃ c ∈ cs, c.Stalls) ∨ (∃ c ∈ cs, c.ReportsEnd) ∨ ∃ l ∈ ls, ¬ Fits l

theorem EndCause.cut {s t : RecvSide} {l : Bytes} {cs : List RecvCall} {r : RecvResult}
    (h : LineCut s l t cs r) : EndCause [] false (cs ++ [⟨false, t.stream.head?, r⟩]) := by
  have hf : RecvCall.Fails ⟨false, t.stream.head?, r⟩ := h.fails
  rcases RecvCall.fails_iff.1 hf with he | he
  · exact .inl ⟨_, List.mem_append_right _ (List.mem_singleton_self _), rfl, he⟩
  · exact .inr (.inl ⟨_, List.mem_append_right _ (List.mem_singleton_self _), he⟩)

theorem EndCause.cons {s t : RecvSide} {l : Bytes} {ls : List Bytes} {ok : Bool}
    {cs ds : List RecvCall} (hd : LineRead s l t cs) (hf : Fits l) (h : EndCause ls ok ds) :
    EndCause (l :: ls) ok (cs ++ ds) := by
  cases ok with
  | true =>
    refine ⟨fun c hc => (List.mem_append.1 hc).elim (hd.stalls c) (h.1 c), ?_⟩
    rintro m (_ | ⟨_, hm⟩)
    · exact hf
    · exact h.2 m hm
  | false =>
    rcases h with ⟨c, hc, hs⟩ | ⟨c, hc, he⟩ | ⟨m, hm, hn⟩
    · exact .inl ⟨c, List.mem_append_right _ hc, hs⟩
    · exact .inr (.inl ⟨c, List.mem_append_right _ hc, he⟩)
    · exact .inr (.inr ⟨m, List.mem_cons_of_mem _ hm, hn⟩)

theorem ReadsHeader.end_cases {s t : RecvSide} {ls : List Bytes} {ok : Bool} {cs : List RecvCall}
    (h : ReadsHeader s ls ok t cs) : EndCause ls ok cs := by
  induction h with
  | blank hd => exact ⟨hd.stalls, by simp⟩
  | line hd _ hf _ ih => exact .cons hd hf ih
  | overlong hd hf => exact .inr (.inr ⟨_, List.mem_singleton_self _, hf⟩)
  | fails hf => exact .cut hf

theorem ReadsHead.end_cases {s t : RecvSide} {ls : List Bytes} {ok : Bool} {cs : List RecvCall}
    (h : ReadsHead s ls ok t cs) : EndCause ls ok cs := by
  cases h with
  | fails hf => exact .cut hf
  | overlong hd hf => exact .inr (.inr ⟨_, List.mem_singleton_self _, hf⟩)
  | header hd hf hh => exact .cons hd hf hh.end_cases

end EndPoint

/-! ## Dropped requests -/

section
variable {σ : Type} (M : Machine σ) (sock : ℤ) (u : Unset) (w : World σ)

/-- The `recv` calls that `HandlerRequest` makes. -/
def handlerCalls : List RecvCall := (handlerRequest M sock u w).2.rx.calls.drop w.rx.calls.length

/-- The socket is closed without a response only if a `recv` reported the peer's
    close or an error other than `EAGAIN`. -/
def DroppedAtEnd : Prop :=
  (handlerRequest M sock u w).2.tx.calls = w.tx.calls →
    ∃ c ∈ handlerCalls M sock u w, c.ReportsEnd

theorem handlerRequest_rx :
    (handlerRequest M sock u w).2.rx = ((EndPoint.new sock u).recvHttpRequest w.rx).2 := by
  unfold handlerRequest
  simp only
  split <;> rfl

variable {M sock u w}

theorem handlerRequest_calls (h : ((EndPoint.new sock u).recvHttpRequest w.rx).1.stop = false) :
    w.tx.calls < (handlerRequest M sock u w).2.tx.calls := by
  simp only [handlerRequest, h]
  exact EndPoint.calls_lt_sendHttpResponse _ _ _

/-- **Which requests are dropped for no reason**: those of which some byte of
    the head is not there when `ReaLine` asks for it, or a line of which is too
    long. -/
theorem dropped_iff (hu : u.stop = false) :
    DroppedAtEnd M sock u w ↔
      (∃ c ∈ handlerCalls M sock u w, c.ReportsEnd) ∨
      (∀ c ∈ handlerCalls M sock u w, ¬ c.Stalls) ∧ ∀ l ∈ headLines w.rx, Fits l := by
  obtain ⟨ls, ok, t, cs, h, hrun⟩ := EndPoint.recvHttpRequest_reads w.rx
  obtain ⟨ht, hfail, hdone⟩ := hrun sock u hu
  have hcs : handlerCalls M sock u w = cs := by
    rw [handlerCalls, handlerRequest_rx, ht, h.recvs.calls]; simp
  have hend := h.end_cases
  rw [DroppedAtEnd, hcs, ← h.fits_iff]
  cases ok with
  | true =>
    obtain ⟨l, -, he⟩ := hdone rfl
    have hsent : w.tx.calls < (handlerRequest M sock u w).2.tx.calls :=
      handlerRequest_calls (by rw [he, EndPoint.parsed_new]; exact hu)
    exact ⟨fun _ => .inr hend, fun _ hn => absurd hn (by omega)⟩
  | false =>
    have hns : (handlerRequest M sock u w).2.tx.calls = w.tx.calls := by
      rw [handlerRequest_of_stop M (hfail rfl)]
    constructor
    · intro hd
      exact .inl (hd hns)
    · rintro (he | ⟨hs, hf⟩) -
      · exact he
      · rcases hend with ⟨c, hc, hst⟩ | he | ⟨l, hl, hn⟩
        · exact absurd hst (hs c hc)
        · exact he
        · exact absurd (hf l hl) hn

end

/-- `GET / HTTP/1.1`, in one piece. -/
def quick : World ℕ := bare (str "GET / HTTP/1.1\r\n\r\n")

/-- The same request in two pieces, the second of them after the fourth call. -/
def slow : World ℕ :=
  { quick with
    rx.queue := str "GET"
    rx.coming := [.data [], .data [], .data [], .data [], .data (str " / HTTP/1.1\r\n\r\n")]
    rx.closed := false }

theorem dropped_iff_quick : DroppedAtEnd noFiles 4 ⟨false, 0, 0⟩ quick :=
  (dropped_iff rfl).2 (.inr ⟨by decide +kernel, by decide +kernel⟩)

/-- The request in two pieces is dropped, though the peer is there. -/
theorem slow_dropped : slow.rx.stream = quick.rx.stream ∧
    ¬ DroppedAtEnd noFiles 4 ⟨false, 0, 0⟩ slow := by
  refine ⟨by decide +kernel, fun h => ?_⟩
  obtain ⟨c, hc, he⟩ := h (by decide +kernel)
  have hcalls : handlerCalls noFiles 4 ⟨false, 0, 0⟩ slow =
      [⟨false, some 71, .byte 71⟩, ⟨false, some 69, .byte 69⟩, ⟨false, some 84, .byte 84⟩,
        ⟨false, some SP, .err EAGAIN⟩] := by decide +kernel
  rw [hcalls] at hc
  simp only [List.mem_cons, List.not_mem_nil, or_false] at hc
  rcases hc with rfl | rfl | rfl | rfl <;> simp [RecvCall.ReportsEnd] at he

end MyHttpServer
