/-
  What `ReaLine` does, on any socket.

  A call either completes a line (`LineDone`) or ends at a `recv` that fails
  (`LineFails`).  A completed line is the first line of the stream, with one
  exception: when the LF of a CR LF cannot be seen by the peek, the line ends
  at the CR and the LF is left behind, for the next call to take for an empty
  line.

  * `reaLineStep_cases`: what one round of the loop can do, and
    `reaLineLoop_induct`: the induction over its rounds;
  * `reaLine_spec`: the two cases for every socket;
  * `reaLine_cases`: a call into an empty string takes a line (`LineRead`) or
    breaks off (`LineCut`).
-/
import MyHttpServer.Lib.Lines
import MyHttpServer.Proof.Recv

namespace MyHttpServer

open RecvSide

namespace Util

/-- Reading took the line `l` off the socket `s`, by the calls `cs`. -/
structure LineDone (s : RecvSide) (l : Bytes) (s' : RecvSide) (cs : List RecvCall) : Prop where
  recvs : Recvs s s' cs
  cr : CR ∉ l
  lf : LF ∉ l
  stalls : ∀ c ∈ cs, ¬ c.Stalls
  count : cs.length + 3 * s'.stream.length ≤ 3 * s.stream.length
  text : ∃ t, s.stream = l ++ t ++ s'.stream ∧
    (Lines.EndsLine CR LF t s'.stream ∧ (∀ c ∈ cs, ¬ c.MissesLf) ∨
      t = [CR] ∧ s'.stream.head? = some LF ∧ ∃ c ∈ cs, c.MissesLf)

/-- Reading took the bytes `l` of an unfinished line off the socket `s`, by the
    calls `cs`, and then a call failed with `r`. -/
structure LineFails (s : RecvSide) (l : Bytes) (s' : RecvSide) (cs : List RecvCall)
    (r : RecvResult) : Prop where
  recvs : Recvs s s' (cs ++ [⟨false, s'.stream.head?, r⟩])
  cr : CR ∉ l
  lf : LF ∉ l
  bytes : ∀ c ∈ cs, ¬ c.Fails
  fails : ∀ b, r ≠ .byte b
  count : cs.length + 3 * s'.stream.length ≤ 3 * s.stream.length
  text : s.stream = l ++ s'.stream

/-- The two ways a call of `ReaLine` ends, with the bytes `out` in its string
    at the start. -/
inductive Outcome (s : RecvSide) (out : Bytes) : ℤ × Bytes × RecvSide → Prop
  | done {l s' cs} : LineDone s l s' cs →
      Outcome s out (toInt (out ++ l ++ [LF]).length, out ++ l ++ [LF], s')
  | fails {l s' cs r} : LineFails s l s' cs r →
      Outcome s out (if r = .eof then 0 else -1, out ++ l, s')

theorem Recvs.one {s t : RecvSide} {r : RecvResult} {peek : Bool} (h : s.recv peek = (r, t)) :
    Recvs s t [⟨peek, s.stream.head?, r⟩] := by
  have := Recvs.cons (s := s) peek .nil
  rwa [h] at this

theorem not_fails_byte {peek : Bool} {next : Option UInt8} {b : UInt8} :
    ¬ RecvCall.Fails ⟨peek, next, .byte b⟩ := fun h => h b rfl

/-! ## Behind a CR -/

/-- What the round for a CR does behind it: from the socket `t` to the socket
    `u`, by the calls `cs`, ending the line with `e`. -/
structure CrDone (t u : RecvSide) (e : Bytes) (cs : List RecvCall) : Prop where
  recvs : Recvs t u cs
  stalls : ∀ c ∈ cs, ¬ c.Stalls
  count : cs.length ≤ 2
  text : t.stream = e ++ u.stream
  ends : Lines.EndsLine CR LF (CR :: e) u.stream ∧ (∀ c ∈ cs, ¬ c.MissesLf) ∨
    e = [] ∧ u.stream.head? = some LF ∧ ∃ c ∈ cs, c.MissesLf

/-- The peek does not see an LF. -/
theorem crDone_of_peek {t u : RecvSide} {r : RecvResult} (h : t.recv true = (r, u))
    (hr : r ≠ .byte LF) : CrDone t u [] [⟨true, t.stream.head?, r⟩] := by
  have hu := stream_of_peek h
  refine ⟨Recvs.one h, by simp [RecvCall.Stalls], by simp, by simp [hu], ?_⟩
  by_cases hl : t.stream.head? = some LF
  · right
    refine ⟨rfl, by rw [hu, hl], _, List.mem_singleton_self _, hl, fun b hb => ?_,
      by simp [RecvCall.Stalls]⟩
    simp only at hb
    subst hb
    have := (head_of_recv h).symm.trans hl
    simp only [Option.some.injEq] at this
    exact hr (by rw [this])
  · left
    exact ⟨.cr (by rwa [hu]), fun c hc hm => by
      simp only [List.mem_singleton] at hc; subst hc; exact hl hm.1⟩

/-- The peek sees an LF and the call behind it takes it. -/
theorem crDone_of_recv {t u v : RecvSide} {b : UInt8} (h : t.recv true = (.byte LF, u))
    (h' : u.recv false = (.byte b, v)) :
    CrDone t v [LF] [⟨true, t.stream.head?, .byte LF⟩, ⟨false, u.stream.head?, .byte b⟩] := by
  have hu := stream_of_peek h
  have hv := stream_of_recv h'
  have hb : b = LF := by
    have := head_of_recv h
    rw [← hu, hv] at this
    simpa using this
  subst hb
  exact ⟨(Recvs.one h).trans (Recvs.one h'), by simp [RecvCall.Stalls], by simp,
    by rw [← hu, hv]; rfl, .inl ⟨.crlf, by simp [RecvCall.MissesLf, RecvCall.Fails]⟩⟩

/-- The peek sees an LF but the call behind it is in error. -/
theorem crDone_of_error {t u v : RecvSide} {r : RecvResult} (h : t.recv true = (.byte LF, u))
    (h' : u.recv false = (r, v)) (hr : ∀ b, r ≠ .byte b) :
    CrDone t v [] [⟨true, t.stream.head?, .byte LF⟩, ⟨false, u.stream.head?, r⟩] := by
  have hu := stream_of_peek h
  have hv := stream_of_fail h' hr
  have hl : u.stream.head? = some LF := by rw [hu]; exact head_of_recv h
  have hs : r ≠ .err EAGAIN := by
    have := recv_after_peek h
    rwa [h'] at this
  have hns : ¬ RecvCall.Stalls ⟨false, u.stream.head?, r⟩ := fun hc => hs hc.2
  have hm : RecvCall.MissesLf ⟨false, u.stream.head?, r⟩ := ⟨hl, hr, hns⟩
  refine ⟨(Recvs.one h).trans (Recvs.one h'), ?_, by simp, by rw [hv, hu]; rfl,
    .inr ⟨rfl, by rw [hv, hl], _, by simp, hm⟩⟩
  intro c hc
  simp only [List.mem_cons, List.not_mem_nil, or_false] at hc
  rcases hc with rfl | rfl
  · simp [RecvCall.Stalls]
  · exact hns

/-! ## One round -/

/-- **What one round of the loop can do.** -/
theorem reaLineStep_cases {st : LineState} (hch : st.ch ≠ LF) :
    (∃ c t, st.sock.recv false = (.byte c, t) ∧ c ≠ CR ∧
      reaLineStep st = .inl ⟨c, st.out ++ [c], t⟩) ∨
    (∃ t u e cs, st.sock.recv false = (.byte CR, t) ∧ CrDone t u e cs ∧
      reaLineStep st = .inl ⟨LF, st.out ++ [LF], u⟩) ∨
    ∃ r t, st.sock.recv false = (r, t) ∧ (∀ b, r ≠ .byte b) ∧
      reaLineStep st = .inr (if r = .eof then 0 else -1, st.out, t) := by
  rcases hr : st.sock.recv false with ⟨r, t⟩
  cases r with
  | eof => exact .inr (.inr ⟨.eof, t, rfl, by simp, by simp [reaLineStep, hch, hr]⟩)
  | err e => exact .inr (.inr ⟨.err e, t, rfl, by simp, by simp [reaLineStep, hch, hr]⟩)
  | byte c =>
    by_cases hc : c = CR
    · subst hc
      right; left
      rcases hp : t.recv true with ⟨p, u⟩
      by_cases hl : p = .byte LF
      · subst hl
        rcases hq : u.recv false with ⟨q, v⟩
        by_cases hb : ∃ b, q = .byte b
        · obtain ⟨b, rfl⟩ := hb
          have hb : b = LF := by
            have := head_of_recv hq
            rw [stream_of_peek hp, head_of_recv hp] at this
            simpa using this.symm
          exact ⟨t, v, _, _, rfl, crDone_of_recv hp hq,
            by simp [reaLineStep, hch, hr, hp, hq, store, hb]⟩
        · have hb : ∀ b, q ≠ .byte b := fun b h => hb ⟨b, h⟩
          refine ⟨t, v, _, _, rfl, crDone_of_error hp hq hb, ?_⟩
          cases q with
          | byte b => exact absurd rfl (hb b)
          | eof | err => simp [reaLineStep, hch, hr, hp, hq, store]
      · refine ⟨t, u, _, _, rfl, crDone_of_peek hp hl, ?_⟩
        have hs : store CR p ≠ LF := by
          cases p with
          | byte b => simpa [store] using hl
          | eof | err => exact CR_ne_LF
        simp [reaLineStep, hch, hr, hp, hs]
    · exact .inl ⟨c, t, rfl, hc, by simp [reaLineStep, hch, hr, hc]⟩

/-! ## The loop -/

/-- One more byte in front of the line. -/
theorem LineDone.cons {s t s' : RecvSide} {c : UInt8} {l : Bytes} {cs : List RecvCall}
    (h : s.recv false = (.byte c, t)) (hcr : c ≠ CR) (hlf : c ≠ LF) (hd : LineDone t l s' cs) :
    LineDone s (c :: l) s' (⟨false, s.stream.head?, .byte c⟩ :: cs) := by
  have hst := stream_of_recv h
  obtain ⟨e, he, hend⟩ := hd.text
  refine ⟨(Recvs.one h).trans hd.recvs, by simp [Ne.symm hcr, hd.cr], by simp [Ne.symm hlf, hd.lf],
    ?_, ?_, e, by rw [hst, he]; rfl, ?_⟩
  · simpa [RecvCall.Stalls] using hd.stalls
  · have := hd.count
    simp only [hst, List.length_cons]; omega
  · refine hend.imp (fun ⟨h1, h2⟩ => ⟨h1, fun c' hc' => ?_⟩)
      (fun ⟨h1, h2, c', hc', h3⟩ => ⟨h1, h2, c', by simp [hc'], h3⟩)
    rcases List.mem_cons.1 hc' with rfl | hc'
    · exact fun hm => not_fails_byte hm.2.1
    · exact h2 c' hc'

theorem LineFails.cons {s t s' : RecvSide} {c : UInt8} {l : Bytes} {cs : List RecvCall}
    {r : RecvResult} (h : s.recv false = (.byte c, t)) (hcr : c ≠ CR) (hlf : c ≠ LF)
    (hd : LineFails t l s' cs r) :
    LineFails s (c :: l) s' (⟨false, s.stream.head?, .byte c⟩ :: cs) r := by
  have hst := stream_of_recv h
  refine ⟨(Recvs.one h).trans hd.recvs, by simp [Ne.symm hcr, hd.cr], by simp [Ne.symm hlf, hd.lf],
    ?_, hd.fails, ?_, by rw [hst, hd.text]; rfl⟩
  · intro c' hc'
    rcases List.mem_cons.1 hc' with rfl | hc'
    · exact not_fails_byte
    · exact hd.bytes c' hc'
  · have := hd.count
    simp only [hst, List.length_cons]; omega

theorem Outcome.cons {s t : RecvSide} {c : UInt8} {out : Bytes} {r : ℤ × Bytes × RecvSide}
    (h : s.recv false = (.byte c, t)) (hcr : c ≠ CR) (hlf : c ≠ LF)
    (ho : Outcome t (out ++ [c]) r) : Outcome s out r := by
  cases ho with
  | done hd => simpa using @Outcome.done s out _ _ _ (hd.cons h hcr hlf)
  | fails hf => simpa using @Outcome.fails s out _ _ _ _ (hf.cons h hcr hlf)

/-- A round that ends the line at an LF. -/
theorem lineDone_lf {s t : RecvSide} (h : s.recv false = (.byte LF, t)) :
    LineDone s [] t [⟨false, s.stream.head?, .byte LF⟩] := by
  have hst := stream_of_recv h
  refine ⟨Recvs.one h, by simp, by simp, by simp [RecvCall.Stalls], by simp [hst]; omega,
    [LF], by simp [hst], .inl ⟨.lf, ?_⟩⟩
  simp [RecvCall.MissesLf, RecvCall.Fails]

/-- A round that ends the line at a CR. -/
theorem lineDone_cr {s t u : RecvSide} {e : Bytes} {cs : List RecvCall}
    (h : s.recv false = (.byte CR, t)) (hc : CrDone t u e cs) :
    LineDone s [] u (⟨false, s.stream.head?, .byte CR⟩ :: cs) := by
  have hst := stream_of_recv h
  have hlen := congrArg List.length hc.text
  have hcnt := hc.count
  refine ⟨(Recvs.one h).trans hc.recvs, by simp, by simp, ?_, ?_, CR :: e,
    by rw [hst, hc.text]; rfl, ?_⟩
  · simpa [RecvCall.Stalls] using hc.stalls
  · simp only [List.length_append] at hlen
    simp only [hst, List.length_cons]; omega
  · refine hc.ends.imp (fun ⟨h1, h2⟩ => ⟨h1, fun c' hc' => ?_⟩)
      (fun ⟨h1, h2, c', hc', h3⟩ => ⟨by rw [h1], h2, c', by simp [hc'], h3⟩)
    rcases List.mem_cons.1 hc' with rfl | hc'
    · exact fun hm => not_fails_byte hm.2.1
    · exact h2 c' hc'

/-! ## The whole loop -/

theorem run_ended {out : Bytes} {s : RecvSide} :
    reaLineLoop.run ⟨LF, out, s⟩ = (toInt out.length, out, s) :=
  WhileLoop.run_done (by simp [reaLineLoop, reaLineStep])

/-- **Induction over the bytes of a line**, which ends at an LF, at a CR or at a
    call that fails. -/
theorem reaLineLoop_induct {P : LineState → ℤ × Bytes × RecvSide → Prop}
    (fails : ∀ st r t, st.sock.recv false = (r, t) → (∀ b, r ≠ .byte b) →
      P st (if r = .eof then 0 else -1, st.out, t))
    (lf : ∀ st t, st.sock.recv false = (.byte LF, t) →
      P st (toInt (st.out ++ [LF]).length, st.out ++ [LF], t))
    (cr : ∀ st t u e cs, st.sock.recv false = (.byte CR, t) → CrDone t u e cs →
      P st (toInt (st.out ++ [LF]).length, st.out ++ [LF], u))
    (char : ∀ st c t res, st.sock.recv false = (.byte c, t) → c ≠ CR → c ≠ LF →
      P ⟨c, st.out ++ [c], t⟩ res → P st res)
    (st : LineState) : st.ch ≠ LF → P st (reaLineLoop.run st) := by
  refine WhileLoop.run_induct (L := reaLineLoop) (P := fun st r => st.ch ≠ LF → P st r) ?_ ?_ st
  · intro st r hs hch
    rcases reaLineStep_cases hch with
      ⟨c, t, -, -, he⟩ | ⟨t, u, e, cs, -, -, he⟩ | ⟨r', t, h, hf, he⟩
    · cases hs.symm.trans he
    · cases hs.symm.trans he
    · cases hs.symm.trans he
      exact fails st r' t h hf
  · intro st st' hs ih hch
    rcases reaLineStep_cases hch with
      ⟨c, t, h, hc, he⟩ | ⟨t, u, e, cs, h, hd, he⟩ | ⟨r', t, -, -, he⟩
    · cases hs.symm.trans he
      by_cases hl : c = LF
      · subst hl
        rw [run_ended]
        exact lf st t h
      · exact char st c t _ h hc hl (ih hl)
    · cases hs.symm.trans he
      rw [run_ended]
      exact cr st t u e cs h hd
    · cases hs.symm.trans he

/-- **What `ReaLine` does.** -/
theorem reaLine_spec (s : RecvSide) (out : Bytes) : Outcome s out (reaLine s out) := by
  refine reaLineLoop_induct (P := fun st r => Outcome st.sock st.out r) ?_ ?_ ?_ ?_ ⟨0, out, s⟩
    (show (0 : UInt8) ≠ LF by decide)
  · intro st r t h hf
    have ht := stream_of_fail h hf
    have hone := Recvs.one h
    rw [← ht] at hone
    simpa using @Outcome.fails st.sock st.out [] t [] r
      ⟨hone, by simp, by simp, by simp, hf, by simp [ht], by simp [ht]⟩
  · intro st t h
    simpa using @Outcome.done st.sock st.out _ _ _ (lineDone_lf h)
  · intro st t u e cs h hd
    simpa using @Outcome.done st.sock st.out _ _ _ (lineDone_cr h hd)
  · exact fun st c t res h hc hl ho => ho.cons h hc hl

/-! ## Calls into an empty string -/

/-- `ReaLine` returns a positive value for the line `l`: its length, with the
    LF, is positive as an `int`. -/
def Fits (l : Bytes) : Prop := 0 < toInt ((l.length : ℤ) + 1)

instance (l : Bytes) : Decidable (Fits l) := inferInstanceAs (Decidable (0 < _))

theorem toInt_length {l : Bytes} (h : l.length + 1 < 2 ^ 31) :
    toInt ((l.length : ℤ) + 1) = l.length + 1 := by
  rw [show ((l.length : ℤ) + 1) = ((l.length + 1 : ℕ) : ℤ) by simp, toInt_of_lt h]

theorem fits_of_lt {l : Bytes} (h : l.length + 1 < 2 ^ 31) : Fits l := by
  unfold Fits; rw [toInt_length h]; omega

theorem fits_nil : Fits [] := fits_of_lt (by simp)

/-- A call of `ReaLine` into an empty string takes the line `l`. -/
structure LineRead (s : RecvSide) (l : Bytes) (s' : RecvSide) (cs : List RecvCall) : Prop
    extends LineDone s l s' cs where
  eq : reaLine s [] = (toInt ((l.length : ℤ) + 1), l ++ [LF], s')

/-- A call of `ReaLine` into an empty string breaks off behind the bytes `l`. -/
structure LineCut (s : RecvSide) (l : Bytes) (s' : RecvSide) (cs : List RecvCall)
    (r : RecvResult) : Prop extends LineFails s l s' cs r where
  eq : ∃ n ≤ 0, reaLine s [] = (n, l, s')

/-- **A call into an empty string takes a line or breaks off.** -/
theorem reaLine_cases (s : RecvSide) :
    (∃ l t cs, LineRead s l t cs) ∨ ∃ l t cs r, LineCut s l t cs r := by
  have ho := reaLine_spec s []
  generalize hv : reaLine s [] = v at ho
  cases ho with
  | done hd => exact .inl ⟨_, _, _, hd, by rw [hv]; simp⟩
  | fails hf => exact .inr ⟨_, _, _, _, hf, _, by split <;> simp, hv⟩

end Util

end MyHttpServer
