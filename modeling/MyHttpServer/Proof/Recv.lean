/-
  Runs of `recv` calls.

  `Recvs s s' cs`: making the calls `cs` takes the socket from `s` to `s'`.
  Whatever holds of every single `recv` is lifted to runs here: the record of
  the calls, that no byte is invented, and the two kinds of sockets the
  results are about (`Quiet`, where no call is in error, and sockets on which
  everything has arrived, where `coming` is empty).
-/
import MyHttpServer.Model.Protocal

namespace MyHttpServer

namespace RecvCall

/-- The call brings no byte. -/
def Fails (c : RecvCall) : Prop := ∀ b, c.result ≠ .byte b

/-- A call without `MSG_PEEK` that finds nothing there yet. -/
def Stalls (c : RecvCall) : Prop := c.peek = false ∧ c.result = .err EAGAIN

instance (c : RecvCall) : Decidable c.Stalls := inferInstanceAs (Decidable (_ ∧ _))

/-- A call that misses an LF: it is the next byte of the stream, but the call
    brings nothing, and is not one to be repeated. -/
def MissesLf (c : RecvCall) : Prop := c.next = some LF ∧ c.Fails ∧ ¬ c.Stalls

/-- The call reports the peer's close or an error other than `EAGAIN`. -/
def ReportsEnd (c : RecvCall) : Prop :=
  c.result = .eof ∨ ∃ e, c.result = .err e ∧ e ≠ EAGAIN

theorem fails_iff {c : RecvCall} : c.Fails ↔ c.result = .err EAGAIN ∨ c.ReportsEnd := by
  unfold Fails ReportsEnd
  cases c.result with
  | byte b => simp
  | eof => simp
  | err e => by_cases h : e = EAGAIN <;> simp [h]

end RecvCall

namespace RecvSide

/-- No call is going to be in error. -/
def Quiet (s : RecvSide) : Prop := ∀ e ∈ s.coming, ∃ bs, e = .data bs

/-! ## One call -/

theorem calls_recv (s : RecvSide) (peek : Bool) :
    (s.recv peek).2.calls = s.calls ++ [⟨peek, s.stream.head?, (s.recv peek).1⟩] := by
  rcases s.recv_cases peek with ⟨e, t, -, hr⟩ | ⟨t, -, -, hr⟩ | ⟨b, q, t, -, -, hr⟩ <;> rw [hr]

theorem coming_recv (s : RecvSide) (peek : Bool) : (s.recv peek).2.coming = s.coming.tail := by
  have hc := coming_arrive s
  rcases s.recv_cases peek with ⟨e, t, ha, hr⟩ | ⟨t, ha, -, hr⟩ | ⟨b, q, t, ha, -, hr⟩ <;>
    · rw [ha] at hc; rw [hr, ← hc]

theorem closed_recv (s : RecvSide) (peek : Bool) : (s.recv peek).2.closed = s.closed := by
  have hc := closed_arrive s
  rcases s.recv_cases peek with ⟨e, t, ha, hr⟩ | ⟨t, ha, -, hr⟩ | ⟨b, q, t, ha, -, hr⟩ <;>
    · rw [ha] at hc; rw [hr, ← hc]

theorem Quiet.recv {s : RecvSide} (h : s.Quiet) (peek : Bool) : (s.recv peek).2.Quiet := by
  unfold Quiet
  rw [coming_recv]
  exact fun e he => h e (List.mem_of_mem_tail he)

theorem Quiet.arrive {s : RecvSide} (h : s.Quiet) : s.arrive.1 = none := by
  unfold RecvSide.arrive
  split
  · rfl
  · rfl
  · rename_i e es he
    obtain ⟨bs, hbs⟩ := h (.error e) (by simp [he])
    cases hbs

/-- On a quiet socket that stays open, a call that fails reports `EAGAIN`. -/
theorem Quiet.result {s : RecvSide} (h : s.Quiet) (hc : s.closed = false) (peek : Bool)
    (hr : ∀ b, (s.recv peek).1 ≠ .byte b) : (s.recv peek).1 = .err EAGAIN := by
  have hcl := closed_arrive s
  rcases s.recv_cases peek with ⟨e, t, ha, he⟩ | ⟨t, ha, -, he⟩ | ⟨b, q, t, -, -, he⟩
  · have hn := h.arrive
    rw [ha] at hn; cases hn
  · have htc : t.closed = false := by rw [ha] at hcl; rw [← hc, ← hcl]
    rw [he]; simp [idle, htc]
  · rw [he] at hr; exact absurd rfl (hr b)

/-- Once everything has arrived, a call fails at the end of the stream only. -/
theorem stream_nil_of_fail {s : RecvSide} (h : s.coming = []) {peek : Bool}
    (hr : ∀ b, (s.recv peek).1 ≠ .byte b) : s.stream = [] := by
  have ha : s.arrive = (none, s) := by simp [arrive, h]
  rcases s.recv_cases peek with ⟨e, t, ht, he⟩ | ⟨t, ht, hq, he⟩ | ⟨b, q, t, -, -, he⟩
  · rw [ha] at ht; cases ht
  · rw [ha] at ht; cases ht
    simp [stream, h, hq]
  · rw [he] at hr; exact absurd rfl (hr b)

/-- The call after a peek that saw a byte does not find the queue empty. -/
theorem recv_after_peek {s t : RecvSide} {b : UInt8} (h : s.recv true = (.byte b, t)) :
    (t.recv false).1 ≠ .err EAGAIN := by
  have hq : t.queue ≠ [] := by
    rcases s.recv_cases true with ⟨e, u, -, hr⟩ | ⟨u, -, -, hr⟩ | ⟨c, q, u, -, hq, hr⟩
    · rw [hr] at h; cases h
    · rw [hr, Prod.mk.injEq] at h; exact absurd h.1 (idle_ne_byte u b)
    · rw [hr] at h; cases h; simp [hq]
  rcases t.recv_cases false with ⟨e, u, -, hr⟩ | ⟨u, ha, hu, -⟩ | ⟨c, q, u, -, -, hr⟩
  · rw [hr]; simpa using e.2
  · refine absurd ?_ hq
    have hl : t.arrive.2.queue = t.queue ++ (t.coming.head?.elim [] RecvEvent.bytes) := by
      unfold arrive; split <;> simp_all [RecvEvent.bytes]
    rw [ha] at hl
    exact (List.append_eq_nil_iff.1 (hl.symm.trans hu)).1
  · rw [hr]; simp

/-! ## Runs of calls -/

/-- The calls `cs` take the socket from `s` to `s'`. -/
inductive Recvs : RecvSide → RecvSide → List RecvCall → Prop
  | nil {s} : Recvs s s []
  | cons {s u cs} (peek : Bool) : Recvs (s.recv peek).2 u cs →
      Recvs s u (⟨peek, s.stream.head?, (s.recv peek).1⟩ :: cs)

namespace Recvs

theorem trans {s t u : RecvSide} {cs ds : List RecvCall} (h : Recvs s t cs) (h' : Recvs t u ds) :
    Recvs s u (cs ++ ds) := by
  induction h with
  | nil => exact h'
  | cons peek _ ih => exact .cons peek (ih h')

theorem calls {s t : RecvSide} {cs : List RecvCall} (h : Recvs s t cs) :
    t.calls = s.calls ++ cs := by
  induction h with
  | nil => simp
  | cons peek _ ih => rw [ih, calls_recv]; simp

theorem next_of_byte {s t : RecvSide} {cs : List RecvCall} (h : Recvs s t cs) :
    ∀ c ∈ cs, ∀ b, c.result = .byte b → c.next = some b := by
  induction h with
  | nil => simp
  | cons peek _ ih =>
    intro c hmem b hb
    rcases List.mem_cons.1 hmem with rfl | hmem
    · exact head_of_recv (Prod.ext hb rfl)
    · exact ih c hmem b hb

theorem coming_nil {s t : RecvSide} {cs : List RecvCall} (h : Recvs s t cs)
    (hs : s.coming = []) : t.coming = [] := by
  induction h with
  | nil => exact hs
  | cons peek _ ih => exact ih (by rw [coming_recv, hs]; rfl)

theorem closed {s t : RecvSide} {cs : List RecvCall} (h : Recvs s t cs) :
    t.closed = s.closed := by
  induction h with
  | nil => rfl
  | cons peek _ ih => rw [ih, closed_recv]

/-- On a quiet open socket all failing calls report `EAGAIN`. -/
theorem fails_quiet {s t : RecvSide} {cs : List RecvCall} (h : Recvs s t cs) (hs : s.Quiet)
    (hc : s.closed = false) : ∀ c ∈ cs, c.Fails → c.result = .err EAGAIN := by
  induction h with
  | nil => simp
  | cons peek _ ih =>
    intro c hmem hf
    rcases List.mem_cons.1 hmem with rfl | hmem
    · exact hs.result hc peek hf
    · exact ih (hs.recv peek) (by rw [closed_recv, hc]) c hmem hf

/-- Once everything has arrived, a call fails at the end of the stream only. -/
theorem next_none {s t : RecvSide} {cs : List RecvCall} (h : Recvs s t cs) (hs : s.coming = []) :
    ∀ c ∈ cs, c.Fails → c.next = none := by
  induction h with
  | nil => simp
  | cons peek _ ih =>
    intro c hmem hf
    rcases List.mem_cons.1 hmem with rfl | hmem
    · simp [stream_nil_of_fail hs hf]
    · exact ih (by rw [coming_recv, hs]; rfl) c hmem hf

/-- Then no call misses an LF. -/
theorem missesLf {s t : RecvSide} {cs : List RecvCall} (h : Recvs s t cs) (hs : s.coming = []) :
    ∀ c ∈ cs, ¬ c.MissesLf := by
  intro c hmem hm
  have := h.next_none hs c hmem hm.2.1
  rw [hm.1] at this; cases this

end Recvs

end RecvSide

end MyHttpServer
