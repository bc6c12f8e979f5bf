/-
  `RecvHttpRequestBody` on any numeral in Content-Length and any socket.

  The number goes through `atoi` (saturated to `long`, cut to `int`) and the
  `size_t` of `setContentLength` before the loop counts it down (`loopCount`).

  * `recvHttpRequestBody_ready`: what the loop does, from the bytes that the
    socket is ready to deliver;
  * `bodyRead_iff`: when it reads the body that the numeral announces.
-/
import MyHttpServer.Proof.Request

namespace MyHttpServer

open RecvSide

/-! ## Numerals -/

/-- The number that decimal digits stand for. -/
def valueOf (digits : Bytes) : ℕ := digits.foldl (fun n c => n * 10 + (c.toNat - 48)) 0

/-- `v` is a decimal numeral, with an optional minus sign, of the integer `z`. -/
inductive Numeral : Bytes → ℤ → Prop
  | nonneg {ds} : ds ≠ [] → (∀ c ∈ ds, 48 ≤ c ∧ c ≤ 57) → Numeral ds (valueOf ds)
  | neg {ds} : ds ≠ [] → (∀ c ∈ ds, 48 ≤ c ∧ c ≤ 57) → Numeral (str "-" ++ ds) (-valueOf ds)

theorem digitsValue_eq {ds : Bytes} (h : ∀ c ∈ ds, 48 ≤ c ∧ c ≤ 57) (acc : ℕ) :
    digitsValue acc ds = ds.foldl (fun n c => n * 10 + (c.toNat - 48)) acc := by
  induction ds generalizing acc with
  | nil => rfl
  | cons c ds ih =>
    rw [digitsValue, if_pos (h c (by simp)), List.foldl_cons]
    exact ih (fun d hd => h d (by simp [hd])) _

/-- The integer `z` saturated to `long`. -/
def saturate (z : ℤ) : ℤ := max (min z (2 ^ 63 - 1)) (-2 ^ 63)

theorem strtol_numeral {v : Bytes} {z : ℤ} (h : Numeral v z) : strtol v = saturate z := by
  cases h with
  | nonneg hne hd =>
    rw [strtol_digits hne hd, digitsValue_eq hd, saturate, valueOf]
    omega
  | @neg ds hne hd =>
    have hs : strtol (str "-" ++ ds) = max (-(digitsValue 0 ds : ℤ)) (-2 ^ 63) := rfl
    rw [hs, digitsValue_eq hd, saturate, valueOf]
    omega

/-- The count that a Content-Length of `z` starts the loop with. -/
def loopCount (z : ℤ) : ℕ := toSizeT (toInt (saturate z))

/-- The integers that get into the loop as they are, the negative ones as `0`. -/
def LengthFits (z : ℤ) : Prop :=
  (0 ≤ z ∧ z < 2 ^ 31) ∨ z = 2 ^ 64 - 1 ∨ z ≤ -2 ^ 63 ∨ (z < 0 ∧ (2 : ℤ) ^ 32 ∣ z)

theorem loopCount_eq_iff (z : ℤ) : loopCount z = z.toNat ↔ LengthFits z := by
  unfold loopCount LengthFits saturate toSizeT toInt
  rw [BitVec.toNat_ofInt, BitVec.toInt_ofInt, Int.bmod_def]
  norm_num
  omega

/-! ## The bytes a socket is ready to deliver -/

/-- Taking bytes off the socket, up to the first `recv` that brings none. -/
def readyStep (s : RecvSide) : UInt8 × RecvSide ⊕ RecvSide :=
  match s.recv false with
  | (.byte b, t) => .inl (b, t)
  | (_, t) => .inr t

theorem readyStep_byte {s t : RecvSide} {b : UInt8} (h : s.recv false = (.byte b, t)) :
    readyStep s = .inl (b, t) := by
  rw [readyStep, h]

theorem readyStep_fail {s : RecvSide} (h : ∀ b, (s.recv false).1 ≠ .byte b) :
    readyStep s = .inr (s.recv false).2 := by
  rw [readyStep]
  split
  · rename_i b t he
    rw [he] at h
    exact absurd rfl (h b)
  · rename_i r t _ he
    rw [he]

theorem readyStep_lt {s t : RecvSide} {b : UInt8} (h : readyStep s = .inl (b, t)) :
    t.stream.length < s.stream.length := by
  unfold readyStep at h
  split at h <;> cases h
  exact Util.length_of_recv ‹_›

def readyLoop : Producer RecvSide UInt8 where
  step := readyStep
  variant s := s.stream.length
  variant_lt := readyStep_lt

/-- The bytes that the next calls of `recv` deliver, before the first one that
    brings none. -/
def ready (s : RecvSide) : Bytes := (readyLoop.run s).1

theorem ready_of_byte {s t : RecvSide} {b : UInt8} (h : s.recv false = (.byte b, t)) :
    ready s = b :: ready t := by
  rw [ready, Producer.run_next (G := readyLoop) (readyStep_byte h), ready]

theorem ready_of_fail {s : RecvSide} (h : ∀ b, (s.recv false).1 ≠ .byte b) : ready s = [] := by
  rw [ready, Producer.run_done (G := readyLoop) (readyStep_fail h)]

theorem recv_byte_or_fail (s : RecvSide) :
    (∃ b t, s.recv false = (.byte b, t)) ∨ ∀ b, (s.recv false).1 ≠ .byte b := by
  rcases hr : s.recv false with ⟨r, t⟩
  cases r with
  | byte b => exact .inl ⟨b, t, rfl⟩
  | eof | err => exact .inr nofun

/-- Once everything has arrived, the socket is ready to deliver all of it. -/
theorem ready_of_arrived {s : RecvSide} (h : s.coming = []) : ready s = s.stream := by
  induction hn : s.stream.length using Nat.strong_induction_on generalizing s with
  | _ n ih =>
    subst hn
    rcases recv_byte_or_fail s with ⟨b, t, hr⟩ | hf
    · have ht : t.coming = [] := by
        have := coming_recv s false
        rw [hr, h] at this; exact this
      rw [ready_of_byte hr, stream_of_recv hr, ih _ (Util.length_of_recv hr) ht rfl]
    · rw [ready_of_fail hf, stream_nil_of_fail h hf]

/-! ## Reading the body -/

namespace EndPoint

/-- The end point with `bs` put behind its body, stopped if `short`. -/
def withBody (ep : EndPoint) (bs : Bytes) (short : Bool) : EndPoint :=
  { ep with req.requestBody := ep.req.requestBody ++ bs, stop := ep.stop || short }

/-- **What the loop does with a count `n`**: it takes `n` of the bytes that are
    ready, or all of them and makes one more call. -/
theorem recvHttpRequestBody_ready (n : ℕ) (ep : EndPoint) (s : RecvSide) :
    ∃ t, recvHttpRequestBodyLoop.run (n, ep, s) =
        (ep.withBody ((ready s).take n) (decide ((ready s).length < n)), t) ∧
      t.stream = s.stream.drop (min n (ready s).length) ∧
      t.calls.length = s.calls.length + min n ((ready s).length + 1) := by
  induction n generalizing ep s with
  | zero =>
    refine ⟨s, ?_, by simp, by simp⟩
    rw [WhileLoop.run_done (L := recvHttpRequestBodyLoop) (r := (ep, s)) rfl]
    simp [withBody]
  | succ n ih =>
    have hcalls := calls_recv s false
    rcases recv_byte_or_fail s with ⟨b, t, hr⟩ | hf
    · obtain ⟨u, hrun, hstream, hu⟩ := ih { ep with req := ep.req.addToRequestBody b } t
      have hstep : recvHttpRequestBodyLoop.step (n + 1, ep, s) =
          .inl (n, { ep with req := ep.req.addToRequestBody b }, t) := by
        simp [recvHttpRequestBodyLoop, recvHttpRequestBodyStep, hr]
      rw [hr] at hcalls
      refine ⟨u, ?_, ?_, ?_⟩
      · rw [WhileLoop.run_next hstep, hrun, ready_of_byte hr]
        simp [withBody, HttpRequest.addToRequestBody]
      · rw [hstream, ready_of_byte hr, stream_of_recv hr]
        simp [Nat.add_min_add_right]
      · rw [hu, ready_of_byte hr, hcalls]
        simp only [List.length_append, List.length_cons, List.length_nil]
        omega
    · have hstream : (s.recv false).2.stream = s.stream :=
        stream_of_fail (show s.recv false = ((s.recv false).1, (s.recv false).2) from rfl) hf
      have hstep : recvHttpRequestBodyLoop.step (n + 1, ep, s) =
          .inr ({ ep with stop := true }, (s.recv false).2) := by
        simp only [recvHttpRequestBodyLoop, recvHttpRequestBodyStep, Nat.add_one_ne_zero, if_false]
      refine ⟨(s.recv false).2, ?_, ?_, ?_⟩
      · rw [WhileLoop.run_done hstep, ready_of_fail hf]
        simp [withBody]
      · rw [hstream, ready_of_fail hf]; simp
      · rw [hcalls, ready_of_fail hf]; simp

/-- The two ends of a call that reads the body a Content-Length of `z` announces:
    it tries for at most `max(z, 0)` bytes; if the socket delivers that many, these
    are taken and stored, and `m_stop` stays; if not, `m_stop` is set. -/
structure BodyRead (z : ℤ) (ep : EndPoint) (s : RecvSide) (res : EndPoint × RecvSide) : Prop where
  calls : res.2.calls.length ≤ s.calls.length + (max z 0).toNat
  stored : (max z 0).toNat ≤ (ready s).length →
    res.1.req.requestBody = ep.req.requestBody ++ (ready s).take (max z 0).toNat ∧
      res.2.stream = s.stream.drop (max z 0).toNat ∧ res.1.stop = ep.stop
  short : (ready s).length < (max z 0).toNat → res.1.stop = true

/-- The same for the outcome of a count `n` in place of `max(z, 0)`. -/
theorem bodyRead_count_iff {z : ℤ} {n : ℕ} {ep ep' : EndPoint} {s t : RecvSide}
    (hbody : ep'.req.requestBody = ep.req.requestBody ++ (ready s).take n)
    (hstop : ep'.stop = (ep.stop || decide ((ready s).length < n)))
    (hstream : t.stream = s.stream.drop (min n (ready s).length))
    (hcalls : t.calls.length = s.calls.length + min n ((ready s).length + 1)) :
    BodyRead z ep s (ep', t) ↔ n = z.toNat ∨ (ready s).length < min n z.toNat ∨
      (n < z.toNat ∧ (ready s).length < z.toNat ∧ ep.stop = true) := by
  have hmax : (max z 0).toNat = z.toNat := by omega
  constructor
  · rintro ⟨h1, h2, h3⟩
    simp only [hmax, hcalls, hbody, hstop] at h1 h2 h3
    by_cases hle : z.toNat ≤ (ready s).length
    · have hlen := congrArg List.length (h2 hle).1
      simp only [List.length_append, List.length_take] at hlen
      exact .inl (by omega)
    · have h3 := h3 (not_le.1 hle)
      simp only [Bool.or_eq_true, decide_eq_true_eq] at h3
      rcases h3 with h3 | h3
      · rcases lt_trichotomy n z.toNat with hn | hn | hn
        · exact .inr (.inr ⟨hn, not_le.1 hle, h3⟩)
        · exact .inl hn
        · exact .inr (.inl (by omega))
      · exact .inr (.inl (by omega))
  · intro h
    constructor
    · show t.calls.length ≤ _
      rw [hcalls, hmax]
      omega
    · intro hle
      rw [hmax] at hle ⊢
      have hn : n = z.toNat := by omega
      refine ⟨by rw [hbody, hn], by rw [hstream, hn, min_eq_left hle], ?_⟩
      rw [hstop, hn, decide_eq_false (by omega), Bool.or_false]
    · intro hlt
      rw [hmax] at hlt
      rw [hstop, Bool.or_eq_true, decide_eq_true_eq]
      rcases h with h | h | ⟨-, -, h⟩
      · omega
      · omega
      · exact .inl h

/-- `RecvHttpRequestBody` for a numeral of `z`. -/
theorem recvHttpRequestBody_numeral {ep : EndPoint} {v : Bytes} {z : ℤ}
    (hm : ep.req.method = POST) (hv : ep.req.headerKv.find CONTENT_LENGTH = some v)
    (hz : Numeral v z) (s : RecvSide) :
    ∃ t, ep.recvHttpRequestBody s =
        ({ ep with req.contentLength := loopCount z }.withBody
          ((ready s).take (loopCount z)) (decide ((ready s).length < loopCount z)), t) ∧
      t.stream = s.stream.drop (min (loopCount z) (ready s).length) ∧
      t.calls.length = s.calls.length + min (loopCount z) ((ready s).length + 1) := by
  have hneed : ep.isNeedRecvHttpRequestBody =
      (true, { ep with req.contentLength := loopCount z }) := by
    simp only [isNeedRecvHttpRequestBody, hm, if_true, hv, atoi, strtol_numeral hz, loopCount]
  rw [recvHttpRequestBody, hneed]
  exact recvHttpRequestBody_ready (loopCount z) _ s

/-- **When the body is read.**  The numeral gets into the loop as it is, or the
    socket runs dry first: before both counts, or, with `m_stop` set from the start,
    before that of the numeral. -/
theorem bodyRead_iff {ep : EndPoint} {v : Bytes} {z : ℤ} (hm : ep.req.method = POST)
    (hv : ep.req.headerKv.find CONTENT_LENGTH = some v) (hz : Numeral v z) (s : RecvSide) :
    BodyRead z ep s (ep.recvHttpRequestBody s) ↔
      LengthFits z ∨ (ready s).length < min (loopCount z) z.toNat ∨
        (loopCount z < z.toNat ∧ (ready s).length < z.toNat ∧ ep.stop = true) := by
  obtain ⟨t, hrun, hstream, hcalls⟩ := recvHttpRequestBody_numeral hm hv hz s
  rw [hrun, ← loopCount_eq_iff]
  exact bodyRead_count_iff rfl rfl hstream hcalls

/-- A POST with the value `v` for Content-Length. -/
def postOf (v : Bytes) : EndPoint :=
  { sock := 4, req := { method := POST, headerKv := [(CONTENT_LENGTH, v)] },
    resp := { fd := 0, fileSize := 0 }, stop := false }

/-- A socket on which `bs` has arrived. -/
def arrivedOf (bs : Bytes) : RecvSide := { queue := bs, coming := [], closed := false }

theorem bodyRead_iff_two :
    BodyRead 2 (postOf (str "2")) (arrivedOf (str "hi!"))
      ((postOf (str "2")).recvHttpRequestBody (arrivedOf (str "hi!"))) := by
  have hz : Numeral (str "2") 2 := .nonneg nofun (by decide +kernel)
  exact (bodyRead_iff rfl rfl hz _).2 (.inl (by norm_num [LengthFits]))

/-- `-1` becomes a count of 2^64 - 1: the loop takes a byte that belongs to no
    body, and tries for more. -/
theorem negative_takes :
    let ep := postOf (str "-1")
    let s := arrivedOf (str "G")
    ep.req.method = POST ∧ ep.req.headerKv.find CONTENT_LENGTH = some (str "-1") ∧
      Numeral (str "-1") (-1) ∧ (ep.recvHttpRequestBody s).2.stream = [] ∧
      (ep.recvHttpRequestBody s).1.stop = true ∧
      ¬ BodyRead (-1) ep s (ep.recvHttpRequestBody s) := by
  intro ep s
  have hz : Numeral (str "-1") (-1) := @Numeral.neg (str "1") nofun (by decide +kernel)
  have hcount : loopCount (-1) = 2 ^ 64 - 1 := by unfold loopCount toSizeT toInt; rfl
  have hready : ready s = str "G" := ready_of_arrived rfl
  have hpost : ep.req.method = POST := rfl
  obtain ⟨t, hrun, hstream, hcalls⟩ := recvHttpRequestBody_numeral hpost rfl hz s
  rw [hready, hcount] at hrun hstream hcalls
  refine ⟨rfl, rfl, hz, ?_, ?_, ?_⟩
  · rw [hrun]; exact hstream
  · rw [hrun]; rfl
  · rw [hrun]
    intro h
    have hle : t.calls.length ≤ 0 := h.calls
    rw [hcalls] at hle
    cases hle

end EndPoint

end MyHttpServer
