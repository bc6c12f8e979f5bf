/-
  The length of the first line.

  `ReaLine` returns it, with the LF, as an `int`, and `RecvHttpRequestLine`
  resizes the line by that value.  A line of 2^32 bytes comes back as 1, and is
  stored as the empty one.

  * `lf_mem_reaLine_iff`: when `ReaLine` gets to the end of a line;
  * `storedLine_eq_iff`: the lengths for which the line is stored whole;
  * `lineKept_iff`: when no request is handled with a shortened line.
-/
import MyHttpServer.Proof.Body
import MyHttpServer.Proof.Response

namespace MyHttpServer

open RecvSide

/-! ## Lengths -/

/-- A line of `n` bytes has, with its LF, a length that is itself as an `int`,
    or else one that is not positive. -/
def LengthKept (n : ℕ) : Prop :=
  n + 1 < 2 ^ 31 ∨ (n + 1) % 2 ^ 32 = 0 ∨ 2 ^ 31 ≤ (n + 1) % 2 ^ 32

instance (n : ℕ) : Decidable (LengthKept n) := inferInstanceAs (Decidable (_ ∨ _ ∨ _))

theorem toInt_pos_iff (n : ℕ) : 0 < toInt n ↔ 0 < n % 2 ^ 32 ∧ n % 2 ^ 32 < 2 ^ 31 := by
  unfold toInt
  rw [BitVec.toInt_ofInt, Int.bmod_def]
  norm_num
  omega

theorem toInt_of_pos {n : ℕ} (h : 0 < toInt n) : toInt n = (n % 2 ^ 32 : ℕ) := by
  have hpos := (toInt_pos_iff n).1 h
  unfold toInt
  rw [BitVec.toInt_ofInt, Int.bmod_def]
  norm_num at hpos ⊢
  omega

namespace EndPoint

open Util

/-- What is stored of a line whose length comes back positive. -/
theorem storedLine_eq_take {l : Bytes} (h : Fits l) :
    storedLine l = l.take ((l.length + 1) % 2 ^ 32 - 1) := by
  have hpos : 0 < toInt ((l.length + 1 : ℕ) : ℤ) := by
    rw [Nat.cast_add_one]; exact h
  have hval := toInt_of_pos hpos
  have hle : (l.length + 1) % 2 ^ 32 ≤ l.length + 1 := Nat.mod_le _ _
  have hlt : (l.length + 1) % 2 ^ 32 < 2 ^ 32 := Nat.mod_lt _ (by norm_num)
  have hsz : toSizeT (toInt ((l.length : ℤ) + 1) - 1) = (l.length + 1) % 2 ^ 32 - 1 := by
    have hcast : toInt ((l.length : ℤ) + 1) - 1 = (((l.length + 1) % 2 ^ 32 - 1 : ℕ) : ℤ) := by
      rw [← Nat.cast_add_one, hval]; omega
    rw [hcast, toSizeT_of_lt (by omega)]
  rw [storedLine, hsz, resize_of_le (by rw [List.length_append, List.length_singleton]; omega),
    List.take_append_of_le_length (by omega)]

/-- **The lengths for which a line that is stored is stored whole.** -/
theorem storedLine_eq_iff (l : Bytes) :
    (Fits l → storedLine l = l) ↔ LengthKept l.length := by
  have hfit : Fits l ↔ 0 < (l.length + 1) % 2 ^ 32 ∧ (l.length + 1) % 2 ^ 32 < 2 ^ 31 := by
    rw [← toInt_pos_iff, Nat.cast_add_one]; rfl
  have htake : ∀ k, l.take k = l ↔ l.length ≤ k := fun k => List.take_eq_self_iff l
  unfold LengthKept
  constructor
  · intro h
    by_cases hf : Fits l
    · have hk := h hf
      rw [storedLine_eq_take hf, htake] at hk
      have := hfit.1 hf
      omega
    · rw [hfit] at hf
      omega
  · intro h hf
    have := hfit.1 hf
    rw [storedLine_eq_take hf, htake]
    omega

-- from 2^31 - 1 on the line is refused, from 2^32 on it is shortened
example : LengthKept (2 ^ 31 - 1) ∧ ¬ LengthKept (2 ^ 32) := by decide

end EndPoint

/-! ## The end of the line -/

namespace Util

/-- **`ReaLine` gets to the end of a line** exactly if one is among the bytes that
    the socket is ready to deliver: it peeks at none of them before. -/
theorem lf_mem_reaLine_iff (s : RecvSide) :
    LF ∈ (reaLine s []).2.1 ↔ CR ∈ ready s ∨ LF ∈ ready s := by
  have hloop := reaLineLoop_induct
    (P := fun st r => LF ∈ r.2.1 ↔ LF ∈ st.out ∨ CR ∈ ready st.sock ∨ LF ∈ ready st.sock)
    ?_ ?_ ?_ ?_ ⟨0, [], s⟩ (show (0 : UInt8) ≠ LF by decide)
  · rw [reaLine, hloop]
    simp
  · intro st r t h hf
    rw [ready_of_fail (by rwa [h])]
    simp
  · intro st t h
    rw [ready_of_byte h]
    simp
  · intro st t u e cs h hd
    rw [ready_of_byte h]
    simp
  · intro st c t res h hc hl ih
    rw [ih, ready_of_byte h]
    simp [Ne.symm hc, Ne.symm hl]

theorem LineRead.ends {s t : RecvSide} {l : Bytes} {cs : List RecvCall} (h : LineRead s l t cs) :
    CR ∈ ready s ∨ LF ∈ ready s := by
  rw [← lf_mem_reaLine_iff, h.eq]
  simp

theorem LineCut.ends {s t : RecvSide} {l : Bytes} {cs : List RecvCall} {r : RecvResult}
    (h : LineCut s l t cs r) : ¬ (CR ∈ ready s ∨ LF ∈ ready s) := by
  obtain ⟨n, -, he⟩ := h.eq
  rw [← lf_mem_reaLine_iff, he]
  exact h.lf

end Util

/-! ## The line that is stored -/

/-- Building a response leaves the request line alone. -/
theorem EndPoint.buildHttpResponse_line {σ : Type} (M : Machine σ) (ep : EndPoint) (os : Os σ) :
    (buildHttpResponse M ep os).1.req.requestLine = ep.req.requestLine := by
  rw [buildHttpResponse_eq, (buildResponseHelper_frame _ _).1]
  rcases locate_cases M ep os with ⟨-, h⟩ | ⟨-, -, h⟩ | ⟨st, -, -, -, h⟩ | ⟨st, -, -, -, h⟩
  · rw [chosen, h]
  · rw [chosen, h]
  · rw [chosen, h]
    simp only [dispatch_req]
    rfl
  · rw [chosen, h]
    simp only [dispatch_req]
    rfl

/-- `line` is the first line of the bytes still to be read, without its end. -/
def StartsWithLine (s : RecvSide) (line : Bytes) : Prop :=
  ∃ rest, Lines.next CR LF s.stream = some (line, rest)

/-- A line that is read is the first one. -/
theorem Util.LineDone.first {s t : RecvSide} {l : Bytes} {cs : List RecvCall}
    (h : LineDone s l t cs) : StartsWithLine s l := by
  rcases h.next_cases with ⟨hn, -⟩ | ⟨rest, -, hn, -⟩
  · exact ⟨_, hn⟩
  · exact ⟨rest, hn⟩

theorem StartsWithLine.unique {s : RecvSide} {l l' : Bytes} (h : StartsWithLine s l)
    (h' : StartsWithLine s l') : l = l' := by
  obtain ⟨rest, h⟩ := h
  obtain ⟨rest', h'⟩ := h'
  rw [h, Option.some.injEq, Prod.mk.injEq] at h'
  exact h'.1

/-- The first line is stored whole, or `m_stop` is set: when `RecvHttpRequestLine`
    has read it, and when a request has been handled. -/
structure LineKept (s : RecvSide) : Prop where
  line : ∀ ep : EndPoint, ep.stop = false → ep.req.requestLine = [] →
    (ep.recvHttpRequestLine s).2.1.stop = true ∨
      StartsWithLine s (ep.recvHttpRequestLine s).2.1.req.requestLine
  handled : ∀ {σ : Type} (M : Machine σ) sock u (w : World σ), w.rx = s →
    (handlerRequest M sock u w).1.stop = true ∨
      StartsWithLine s (handlerRequest M sock u w).1.req.requestLine

/-- What is handled, is handled with what `RecvHttpRequestLine` has stored. -/
theorem handlerRequest_line {σ : Type} (M : Machine σ) (sock : ℤ) (u : Unset) (w : World σ) :
    (handlerRequest M sock u w).1.stop = true ∨ ∃ l t cs, Util.LineRead w.rx l t cs ∧
      Util.Fits l ∧ (handlerRequest M sock u w).1.req.requestLine = EndPoint.storedLine l := by
  cases hread : ((EndPoint.new sock u).recvHttpRequest w.rx).1.stop with
  | true =>
    left
    rw [handlerRequest_of_stop M hread]
    exact hread
  | false =>
    right
    obtain ⟨hu, -⟩ := recvHttpRequest_parsed hread
    obtain ⟨ls, ok, t, cs, h, hrun⟩ := EndPoint.recvHttpRequest_reads w.rx
    obtain ⟨-, hfail, hdone⟩ := hrun sock u hu
    cases h with
    | fails hf => rw [hfail rfl] at hread; cases hread
    | overlong hd hf => rw [hfail rfl] at hread; cases hread
    | @header l t ls _ _ cs ds hd hfit hh =>
      cases ok with
      | false => rw [hfail rfl] at hread; cases hread
      | true =>
        obtain ⟨l', hl, he⟩ := hdone rfl
        cases hl
        refine ⟨l, t, cs, hd, hfit, ?_⟩
        rw [handlerRequest_of_read M hread]
        simp only [EndPoint.buildHttpResponse_line, he, EndPoint.parsed_new,
          EndPoint.requestOf_line]

theorem LineKept.length {s : RecvSide} {l : Bytes} (h : LineKept s) (hl : StartsWithLine s l)
    (hready : CR ∈ ready s ∨ LF ∈ ready s) : LengthKept l.length := by
  rcases Util.reaLine_cases s with ⟨l', t, cs, hd⟩ | ⟨l', t, cs, r, hf⟩
  · cases hl.unique hd.first
    rw [← EndPoint.storedLine_eq_iff]
    intro hfit
    have hkept := h.line (.new 0 ⟨false, 0, 0⟩) rfl rfl
    rw [EndPoint.recvHttpRequestLine_fits hd hfit _ rfl] at hkept
    rcases hkept with hstop | hfirst
    · cases hstop
    · exact hfirst.unique hl
  · exact absurd hready hf.ends

/-- **When the request line is kept whole**: the end of the first line is not
    ready, so that the read breaks off, or its length is one that comes back. -/
theorem lineKept_iff (s : RecvSide) :
    LineKept s ↔
      ∀ l, StartsWithLine s l → CR ∈ ready s ∨ LF ∈ ready s → LengthKept l.length := by
  constructor
  · exact fun h l hl hready => h.length hl hready
  · intro h
    have hstored : ∀ {l t cs}, Util.LineRead s l t cs → Util.Fits l →
        StartsWithLine s (EndPoint.storedLine l) := by
      intro l t cs hd hfit
      have hkept := h l hd.first hd.ends
      rw [(EndPoint.storedLine_eq_iff l).2 hkept hfit]
      exact hd.first
    constructor
    · intro ep hstop hempty
      rcases Util.reaLine_cases s with ⟨l, t, cs, hd⟩ | ⟨l, t, cs, r, hf⟩
      · by_cases hfit : Util.Fits l
        · rw [EndPoint.recvHttpRequestLine_fits hd hfit ep hempty]
          exact .inr (hstored hd hfit)
        · rw [EndPoint.recvHttpRequestLine_overlong hd hfit ep hempty]
          exact .inl rfl
      · rw [EndPoint.recvHttpRequestLine_cut hf ep hempty]
        exact .inl rfl
    · rintro σ M sock u w rfl
      rcases handlerRequest_line M sock u w with hstop | ⟨l, t, cs, hd, hfit, he⟩
      · exact .inl hstop
      · rw [he]
        exact .inr (hstored hd hfit)

/-! ## A line of more than 2^32 bytes -/

/-- Of a line with 2^32 bytes behind `head`, `head` is stored. -/
theorem EndPoint.storedLine_append {head tail : Bytes} (hh : head.length + 1 < 2 ^ 31)
    (ht : tail.length = 2 ^ 32) :
    Util.Fits (head ++ tail) ∧ storedLine (head ++ tail) = head := by
  have hlen : (head ++ tail).length + 1 = head.length + 1 + 2 ^ 32 := by
    rw [List.length_append, ht]; omega
  have hmod : ((head ++ tail).length + 1) % 2 ^ 32 = head.length + 1 := by
    rw [hlen, Nat.add_mod_right, Nat.mod_eq_of_lt (by omega)]
  have hfit : Util.Fits (head ++ tail) := by
    show 0 < toInt (((head ++ tail).length : ℤ) + 1)
    rw [← Nat.cast_add_one, toInt_pos_iff, hmod]
    omega
  refine ⟨hfit, ?_⟩
  rw [storedLine_eq_take hfit, hmod, Nat.add_sub_cancel, List.take_left]

/-- A request with such a line is read to its end. -/
theorem lineKept_fails {head tail : Bytes} (hc : CR ∉ head ++ tail) (hl : LF ∉ head ++ tail)
    (hh : head.length + 1 < 2 ^ 31) (ht : tail.length = 2 ^ 32) :
    let line := head ++ tail
    let s := arrived (line ++ [LF] ++ [LF]) true
    let r := (EndPoint.new 4 ⟨false, 0, 0⟩).recvHttpRequest s
    StartsWithLine s line ∧ r.1.stop = false ∧ r.1.req.requestLine = head ∧ ¬ LineKept s := by
  intro line s r
  obtain ⟨hfit, hstored⟩ := EndPoint.storedLine_append hh ht
  have hs : s.stream = head ++ tail ++ [LF] ++ [LF] := stream_arrived ..
  have hfirst : StartsWithLine s (head ++ tail) :=
    ⟨[LF], by rw [hs]; exact Lines.next_line CR_ne_LF hc hl .lf⟩
  have hb : Lines.Block CR LF ((head ++ tail) :: ([] ++ [[]]))
      (head ++ tail ++ [LF] ++ [LF]) [] :=
    .cons hc hl .lf (.cons (l := []) List.not_mem_nil List.not_mem_nil .lf .nil)
  obtain ⟨hr, -⟩ := @EndPoint.recvHttpRequest_stored 4 ⟨false, 0, 0⟩ rfl _ _ _ _ true hb
    (fun _ h => absurd h List.not_mem_nil) (fun m hm => by rwa [List.mem_singleton.1 hm])
  rw [hstored] at hr
  refine ⟨hfirst, ?_, ?_, fun h => ?_⟩
  · simp only [r, s, line, hr, EndPoint.parsed_new]
  · simp only [r, s, line, hr, EndPoint.parsed_new, EndPoint.requestOf_line]
  · have hready : LF ∈ ready s := by
      rw [ready_of_arrived rfl, hs]
      exact List.mem_append_right _ (List.mem_singleton_self _)
    have hkept := h.length hfirst (.inr hready)
    rw [← EndPoint.storedLine_eq_iff] at hkept
    have := congrArg List.length ((hkept hfit).symm.trans hstored)
    rw [List.length_append, ht] at this
    omega

/-- 2^32 bytes behind `GET / HTTP/1.1` are gone when the request is handled. -/
theorem lineKept_fails_get :
    let line := str "GET / HTTP/1.1" ++ List.replicate (2 ^ 32) SLASH
    let s := arrived (line ++ [LF] ++ [LF]) true
    let r := (EndPoint.new 4 ⟨false, 0, 0⟩).recvHttpRequest s
    StartsWithLine s line ∧ r.1.stop = false ∧ r.1.req.requestLine = str "GET / HTTP/1.1" ∧
      ¬ LineKept s := by
  have hmem : ∀ c, c ∉ str "GET / HTTP/1.1" → c ≠ SLASH →
      c ∉ str "GET / HTTP/1.1" ++ List.replicate (2 ^ 32) SLASH := by
    intro c hc hs h
    rcases List.mem_append.1 h with h | h
    · exact hc h
    · exact hs (List.eq_of_mem_replicate h)
  have hc := hmem CR (by decide +kernel) (by decide)
  have hl := hmem LF (by decide +kernel) (by decide)
  have ht : (List.replicate (2 ^ 32) SLASH).length = 2 ^ 32 := List.length_replicate
  -- the run of 2^32 bytes must not be unfolded
  generalize List.replicate (2 ^ 32) SLASH = tail at hc hl ht ⊢
  exact lineKept_fails hc hl (by decide +kernel) ht

end MyHttpServer
