/-
  How the body of a POST gets to `test_cgi`, and its output back.

  `GetParameter` reads as many bytes as `Content-Length` says.  If that is the
  length of the body, it has read all of it before anything is written, and both
  sides finish, on every schedule (`transported_of_length`).  If it is another
  number, or missing, the parameter is not the body.

  * `length_of_intact`: `std::to_string` and `atoi` agree on every length;
  * `transported_iff`: when the body and the output get through.
-/
import Mathlib.Data.List.TakeWhile
import MyHttpServer.Proof.Exchange

namespace MyHttpServer

open Interactive

/-! ## The length in the environment -/

theorem cStr_eq_self {s : Bytes} (h : ∀ c ∈ s, c ≠ 0) : cStr s = s := by
  rw [cStr, List.takeWhile_eq_self_iff]
  intro c hc
  exact decide_eq_true (h c hc)

/-- `METHOD` is what `GetParameter` looks for first, and finds. -/
theorem getenv_method {ep : EndPoint} (hpost : ep.req.method = POST) (found : Bytes → Bytes) :
    getenv (ep.execEnv found) (str "METHOD") = some POST := by
  have hm : cStr (str "METHOD=" ++ POST) = str "METHOD=" ++ POST := by decide +kernel
  have hp : (str "METHOD" ++ str "=").isPrefixOf (str "METHOD=" ++ POST) = true := by
    decide +kernel
  have hd : (str "METHOD=" ++ POST).drop ((str "METHOD").length + 1) = POST := by decide +kernel
  simp only [EndPoint.execEnv, EndPoint.cgiInput, hpost, hm, getenv, List.find?_cons_of_pos hp,
    Option.map_some, hd]

/-- `GetParameter` reads from the pipe, as often as `Content-Length` says. -/
theorem testCgi_post {ep : EndPoint} (hpost : ep.req.method = POST) (found : Bytes → Bytes)
    (out : Bytes → Bytes) :
    testCgi (ep.execEnv found) out =
      (getenv (ep.execEnv found) CONTENT_LENGTH).elim (.exit none) fun length =>
        readN (respond out) (rounds (atoi length)) [] := by
  have hgp : POST ≠ GET := by decide
  rw [testCgi, getParameter, getenv_method hpost]
  simp only [if_neg hgp, if_true]
  cases getenv (ep.execEnv found) CONTENT_LENGTH <;> rfl

/-- **The text that is put into the environment says the length.** -/
theorem length_of_intact {ep : EndPoint} (hpost : ep.req.method = POST)
    (hlt : ep.req.contentLength < 2 ^ 31) {found : Bytes → Bytes}
    (h : ep.execEnv found = ep.cgiInput.env) :
    ∃ v, getenv (ep.execEnv found) CONTENT_LENGTH = some v ∧ atoi v = ep.req.contentLength := by
  refine ⟨decimal ep.req.contentLength, ?_, atoi_decimal hlt⟩
  have hgp : POST ≠ GET := by decide
  have hname : str "Content-Length=" = CONTENT_LENGTH ++ str "=" := by decide +kernel
  have hmethod : (CONTENT_LENGTH ++ str "=").isPrefixOf (cStr (str "METHOD=" ++ POST)) = false := by
    decide +kernel
  have hclean : cStr (str "Content-Length=" ++ decimal ep.req.contentLength) =
      (CONTENT_LENGTH ++ str "=") ++ decimal ep.req.contentLength := by
    rw [hname]
    refine cStr_eq_self fun c hc => ?_
    rcases List.mem_append.1 hc with hc | hc
    · have hlit : ∀ c ∈ CONTENT_LENGTH ++ str "=", c ≠ 0 := by decide +kernel
      exact hlit c hc
    · rintro rfl
      exact absurd (mem_decimal hc).1 (by decide)
  have hpre : (CONTENT_LENGTH ++ str "=").isPrefixOf
      ((CONTENT_LENGTH ++ str "=") ++ decimal ep.req.contentLength) = true :=
    List.isPrefixOf_iff_prefix.2 (List.prefix_append _ _)
  have hlen : CONTENT_LENGTH.length + 1 = (CONTENT_LENGTH ++ str "=").length := by decide +kernel
  rw [h]
  simp only [EndPoint.cgiInput, hpost, if_neg hgp, if_true, getenv, hclean]
  rw [List.find?_cons_of_neg (by simp [hmethod]), List.find?_cons_of_pos hpre, Option.map_some,
    hlen, List.drop_left]

/-! ## A child that reads a number of bytes -/

theorem within_respond (out : Bytes → Bytes) (p : Bytes) (r : ℕ) : (respond out p).Within r :=
  within_exit (A := UInt8) (some p) r

namespace CgiJob
variable {j : CgiJob (Option Bytes)} {s : Exchange (Option Bytes)} {n : ℕ}

/-- When such a child exits, `parameter` is what it has read, and it has written
    `out parameter`. -/
theorem Inv.exited (h : Inv j s) (hc : j.child = readN (respond out) n []) {p : Option Bytes}
    (he : s.child = .exit p) : s.taken.length = n ∧ p = some s.taken ∧ s.given = out s.taken := by
  have hg := h.goes
  rw [hc, he] at hg
  rcases hg.of_readN with ⟨m, hm, -, -, hd⟩ | ⟨i, rest, htaken, hi, hd⟩
  · obtain ⟨m, rfl⟩ := Nat.exists_eq_succ_of_ne_zero hm.ne'
    cases hd
  · obtain ⟨rfl, ⟨bs, -, hd⟩ | ⟨hgiven, hd⟩⟩ := Goes.of_write_exit hd
    · cases hd
    · cases hd
      rw [List.append_nil] at htaken
      subst htaken
      exact ⟨hi, rfl, hgiven⟩

/-- The body gets to the child, and its output back: no run ends early,
    `parameter` is the body when the child has exited, and when the parent is
    done, what it has appended to `m_response_body` is the output. -/
structure Transported (j : CgiJob (Option Bytes)) (out : Bytes → Bytes) : Prop where
  live : ∀ s, j.system.Reachable s → ¬ s.Finished → ∃ t, j.system.step s t
  parameter : ∀ s p, j.system.Reachable s → s.child = .exit p → p = some j.body
  output : ∀ s, j.system.Reachable s → s.parent = .done →
    s.responseBody = j.responseBody ++ out j.body

/-- **A child that reads as many bytes as the body has** gets the body, and its
    output gets back. -/
theorem transported_of_length (hc : j.child = readN (respond out) j.body.length []) :
    j.Transported out := by
  have hwithin : j.child.Within j.body.length := by
    rw [hc]
    exact within_readN (fun as => within_respond out as 0) _ _
  have hall : ∀ s p, j.system.Reachable s → s.child = .exit p →
      s.taken = j.body ∧ p = some j.body ∧ s.given = out j.body := by
    intro s p hr he
    have h := reachable_inv hr
    obtain ⟨hlen, hp, hgiven⟩ := h.exited hc he
    have hbody : s.taken = j.body := ((List.prefix_append _ _).trans h.sent).eq_of_length hlen
    rw [hbody] at hp hgiven
    exact ⟨hbody, hp, hgiven⟩
  refine ⟨fun s hr hf => (reachable_inv hr).exists_step hwithin (keepsUp_readN hc) hf,
    fun s p hr he => (hall s p hr he).2.1, fun s hr hdone => ?_⟩
  have h := reachable_inv hr
  obtain ⟨hempty, he⟩ := h.ended (.inr hdone)
  obtain ⟨p, hp⟩ := he.exists_eq
  have hrec := h.received
  rwa [hempty, List.append_nil, (hall s p hr hp).2.2] at hrec

/-- If it gets the body, it has read as many bytes as the body has. -/
theorem length_of_transported (hc : j.child = readN (respond out) n []) (h : j.Transported out) :
    n = j.body.length := by
  obtain ⟨s, hr, hstuck⟩ := exists_stuck_exchange (.init rfl : j.system.Reachable j.start)
  have hf : s.Finished := by
    by_contra hf
    obtain ⟨t, ht⟩ := h.live s hr hf
    exact hstuck t ht
  obtain ⟨p, hp⟩ := hf.2.exists_eq
  obtain ⟨hlen, htaken, -⟩ := (reachable_inv hr).exited hc hp
  have hbody := h.parameter s p hr hp
  rw [htaken, Option.some_inj] at hbody
  rw [← hlen, hbody]

end CgiJob

/-! ## Both programs -/

/-- `while(length--)` goes round as often as the body has bytes only if `length`
    is this number. -/
theorem rounds_eq_iff {v : Bytes} {n : ℕ} (hlt : n < 2 ^ 31) :
    rounds (atoi v) = n ↔ atoi v = n := by
  have hrange : -2 ^ 31 ≤ atoi v ∧ atoi v < 2 ^ 31 := toInt_range _
  simp only [rounds]
  omega

/-- **The body and the output get through exactly if the child finds the length
    of the body in its environment**; it does if the memory of `length_env` still
    holds the text when `execl` reads it. -/
theorem transported_iff {ep : EndPoint} (hpost : ep.req.method = POST)
    (hlen : ep.req.contentLength = ep.req.requestBody.length) (hlt : ep.req.contentLength < 2 ^ 31)
    (found out : Bytes → Bytes) {inputSize outputSize : ℕ} (hin : 0 < inputSize)
    (hout : 0 < outputSize) :
    ((ep.cgiJob (testCgi (ep.execEnv found) out) hin hout).Transported out ↔
      ∃ v, getenv (ep.execEnv found) CONTENT_LENGTH = some v ∧
        atoi v = ep.req.requestBody.length) ∧
    (ep.execEnv found = ep.cgiInput.env →
      (ep.cgiJob (testCgi (ep.execEnv found) out) hin hout).Transported out) := by
  rw [hlen] at hlt
  have hread := testCgi_post hpost found out
  have hif : (∃ v, getenv (ep.execEnv found) CONTENT_LENGTH = some v ∧
      atoi v = ep.req.requestBody.length) →
      (ep.cgiJob (testCgi (ep.execEnv found) out) hin hout).Transported out := by
    rintro ⟨v, hv, ha⟩
    rw [hv] at hread
    refine CgiJob.transported_of_length ?_
    show testCgi (ep.execEnv found) out = readN (respond out) ep.req.requestBody.length []
    rw [hread, Option.elim_some, (rounds_eq_iff hlt).2 ha]
  refine ⟨⟨fun h => ?_, hif⟩, fun h => hif ?_⟩
  · cases hv : getenv (ep.execEnv found) CONTENT_LENGTH with
    | none =>
      rw [hv] at hread
      cases h.parameter _ none (.init rfl) hread
    | some v =>
      rw [hv] at hread
      exact ⟨v, rfl, (rounds_eq_iff hlt).1 (CgiJob.length_of_transported hread h)⟩
  · rw [← hlen] at hlt ⊢
    exact length_of_intact hpost hlt h

/-- The form of cal.html has been sent. -/
def formPosted : EndPoint where
  sock := 4
  req := { method := POST, requestBody := str "a=1&b=2", contentLength := 7 }
  resp := { fd := 0, fileSize := 0 }
  stop := false

theorem transported_iff_form :
    ((formPosted.cgiJob (testCgi (formPosted.execEnv id) id) Nat.one_pos Nat.one_pos).Transported
      id ↔ ∃ v, getenv (formPosted.execEnv id) CONTENT_LENGTH = some v ∧
        atoi v = formPosted.req.requestBody.length) ∧
    (formPosted.execEnv id = formPosted.cgiInput.env →
      (formPosted.cgiJob (testCgi (formPosted.execEnv id) id) Nat.one_pos
        Nat.one_pos).Transported id) :=
  transported_iff rfl (by decide +kernel) (by decide) id id Nat.one_pos Nat.one_pos

/-- When the memory of `length_env` has been written over, the child is stopped
    before it has read anything. -/
theorem length_lost :
    ¬ (formPosted.cgiJob (testCgi (formPosted.execEnv fun _ => []) id) Nat.one_pos
      Nat.one_pos).Transported id := by
  intro h
  have hnone : getenv (formPosted.execEnv fun _ => []) CONTENT_LENGTH = none := by decide +kernel
  have hread := @testCgi_post formPosted rfl (fun _ => []) id
  rw [hnone] at hread
  cases h.parameter _ none (.init rfl) hread

end MyHttpServer
