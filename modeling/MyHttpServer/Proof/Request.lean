/-
  `RecvHttpRequest` on any socket.

  `ReadsHead` is a run of its two readers as a derivation: the first line, then
  the lines of the header up to the empty line.  A run that gets to the empty
  line leaves behind an `EndPoint` that depends on the first line alone; the
  header lines are pushed onto a copy of the list they belong in.  Hence the
  body is never read either, whatever the header says about it.

  * `recvHttpRequest_reads`: every run of `RecvHttpRequest` has a derivation,
    and what it makes of the end point;
  * `ReadsHead.count`: a run makes at most three calls for each byte.
-/
import MyHttpServer.Proof.Arrival

namespace MyHttpServer

open RecvSide Util

namespace EndPoint

/-! ## The header -/

/-- A run of the loop of `RecvHttpRequestHeader`: the lines that are not empty,
    whether it gets to the empty line, and the calls it makes. -/
inductive ReadsHeader : RecvSide → List Bytes → Bool → RecvSide → List RecvCall → Prop
  | blank {s t cs} : LineRead s [] t cs → ReadsHeader s [] true t cs
  | line {s l t ls ok u cs ds} : LineRead s l t cs → l ≠ [] → Fits l →
      ReadsHeader t ls ok u ds → ReadsHeader s (l :: ls) ok u (cs ++ ds)
  | overlong {s l t cs} : LineRead s l t cs → ¬ Fits l → ReadsHeader s [l] false t cs
  | fails {s l t cs r} : LineCut s l t cs r →
      ReadsHeader s [] false t (cs ++ [⟨false, t.stream.head?, r⟩])

/-- The end point after its readers: stopped if they failed. -/
def readEnd (ep : EndPoint) (ok : Bool) : EndPoint := if ok then ep else { ep with stop := true }

theorem recvHttpRequestHeaderStep_eq {s t : RecvSide} {n : ℤ} {line : Bytes}
    (he : reaLine s [] = (n, line, t)) (ep : EndPoint) :
    recvHttpRequestHeaderStep (ep, s) =
      if n ≤ 0 then .inr (readEnd ep false, t)
      else if line = [LF] then .inr (readEnd ep true, t)
      else .inl (ep, t) := by
  simp [recvHttpRequestHeaderStep, he, readEnd]

/-- **The header loop changes nothing of the end point but `m_stop`.** -/
theorem recvHttpRequestHeaderLoop_reads (s : RecvSide) :
    ∃ ls ok t cs, ReadsHeader s ls ok t cs ∧
      ∀ ep, recvHttpRequestHeaderLoop.run (ep, s) = (readEnd ep ok, t) := by
  induction hn : s.stream.length using Nat.strong_induction_on generalizing s with
  | _ n ih =>
    subst hn
    rcases reaLine_cases s with ⟨l, t, cs, hd⟩ | ⟨l, t, cs, r, hf⟩
    · have hstep := recvHttpRequestHeaderStep_eq hd.eq
      by_cases hfit : Fits l
      · simp only [if_neg (not_le.2 hfit)] at hstep
        by_cases hl : l = []
        · subst hl
          exact ⟨[], true, t, cs, .blank hd, fun ep => WhileLoop.run_done (hstep ep)⟩
        · have hlt : t.stream.length < s.stream.length := by
            have hpos : 0 < (reaLine s []).1 := by simp only [hd.eq]; exact hfit
            simpa only [hd.eq] using reaLine_lt hpos
          obtain ⟨ls, ok, u, ds, hr, hrun⟩ := ih _ hlt t rfl
          have hne : l ++ [LF] ≠ [LF] := by simpa using hl
          simp only [if_neg hne] at hstep
          exact ⟨l :: ls, ok, u, cs ++ ds, .line hd hl hfit hr,
            fun ep => (WhileLoop.run_next (hstep ep)).trans (hrun ep)⟩
      · simp only [if_pos (not_lt.1 hfit)] at hstep
        exact ⟨[l], false, t, cs, .overlong hd hfit, fun ep => WhileLoop.run_done (hstep ep)⟩
    · obtain ⟨m, hm, he⟩ := hf.eq
      have hstep := recvHttpRequestHeaderStep_eq he
      simp only [if_pos hm] at hstep
      exact ⟨[], false, t, _, .fails hf, fun ep => WhileLoop.run_done (hstep ep)⟩

/-! ## The head -/

/-- A run of `RecvHttpRequestLine` and `RecvHttpRequestHeader`: the lines that
    are not empty (the first one may be), whether it gets to the empty line,
    and the calls it makes. -/
inductive ReadsHead : RecvSide → List Bytes → Bool → RecvSide → List RecvCall → Prop
  | fails {s l t cs r} : LineCut s l t cs r →
      ReadsHead s [] false t (cs ++ [⟨false, t.stream.head?, r⟩])
  | overlong {s l t cs} : LineRead s l t cs → ¬ Fits l → ReadsHead s [l] false t cs
  | header {s l t ls ok u cs ds} : LineRead s l t cs → Fits l → ReadsHeader t ls ok u ds →
      ReadsHead s (l :: ls) ok u (cs ++ ds)

/-- What is kept of the first line `l`: as much of it as the value says that
    `ReaLine` returned. -/
def storedLine (l : Bytes) : Bytes :=
  resize (l ++ [LF]) (toSizeT (toInt ((l.length : ℤ) + 1) - 1))

theorem storedLine_of_lt {l : Bytes} (h : l.length + 1 < 2 ^ 31) : storedLine l = l := by
  have hsz : toSizeT (toInt ((l.length : ℤ) + 1) - 1) = l.length := by
    rw [toInt_length h, add_sub_cancel_right, toSizeT_of_lt (by omega)]
  rw [storedLine, hsz, resize_of_le (by simp)]
  simp

/-- The end point with `line` for its first line. -/
def withLine (ep : EndPoint) (line : Bytes) : EndPoint := { ep with req.requestLine := line }

@[simp] theorem withLine_stop (ep : EndPoint) (line : Bytes) :
    (ep.withLine line).stop = ep.stop := rfl

/-- The end point once its first line, stored as `line`, has been parsed. -/
def parsed (ep : EndPoint) (line : Bytes) : EndPoint :=
  (ep.withLine line).parseHttpRequestLine.parseURL

/-- Path and parameter in the target of a GET. -/
def splitUrl (url : Bytes) : Bytes × Bytes :=
  if QUESTION ∈ url then cutstring url [] [] (str "?") else (url, [])

/-- The request that the first line makes. -/
def requestOf (line : Bytes) : HttpRequest :=
  let (method, ss) := extract line
  let (url, ss) := extract ss
  let (version, _) := extract ss
  let method := method.map toUpper
  let r : HttpRequest := { requestLine := line, method, url, version }
  if method = GET then { r with path := (splitUrl url).1, parameter := (splitUrl url).2 }
  else if method = POST then { r with path := url, cgi := true }
  else r

/-- The status it is given at once. -/
def codeOf (line : Bytes) : ℤ :=
  if (requestOf line).method = GET ∨ (requestOf line).method = POST then OK else BAD_REQUEST

theorem requestOf_method (line : Bytes) :
    (requestOf line).method = (extract line).1.map toUpper := by
  simp only [requestOf]
  split
  · rfl
  · split <;> rfl

theorem requestOf_cgi (line : Bytes) :
    (requestOf line).cgi = true ↔ (requestOf line).method = POST := by
  have hgp : GET ≠ POST := by decide
  simp only [requestOf]
  split
  · rename_i hg
    simp [hg, hgp]
  · split <;> simp_all

theorem parsed_new (sock : ℤ) (u : Unset) (line : Bytes) :
    parsed (.new sock u) line =
      { sock, req := requestOf line, stop := u.stop,
        resp := { fd := u.fd, fileSize := u.fileSize, statusCode := codeOf line } } := by
  have hgp : GET ≠ POST := by decide
  simp only [codeOf, parsed, withLine, EndPoint.new, parseHttpRequestLine, parseURL,
    HttpRequest.transformMethod, requestOf, splitUrl]
  by_cases hg : (extract line).1.map toUpper = GET
  · by_cases hq : QUESTION ∈ (extract (extract line).2).1 <;> simp [hg, hq]
  · by_cases hp : (extract line).1.map toUpper = POST
    · simp [hp, Ne.symm hgp]
    · simp [hg, hp]

/-- The members of the request that come from its header and its body are as
    they were at the start. -/
theorem requestOf_header (line : Bytes) :
    (requestOf line).headerKv = [] ∧ (requestOf line).contentLength = 0 ∧
      (requestOf line).requestBody = [] := by
  simp only [requestOf]
  split
  · exact ⟨rfl, rfl, rfl⟩
  · split <;> exact ⟨rfl, rfl, rfl⟩

theorem requestOf_line (line : Bytes) : (requestOf line).requestLine = line := by
  simp only [requestOf]
  split
  · rfl
  · split <;> rfl

theorem parseHttpRequestHeader_eq (ep : EndPoint) : ep.parseHttpRequestHeader = ep := by
  unfold parseHttpRequestHeader
  induction ep.req.requestHeader generalizing ep with
  | nil => rfl
  | cons line lines ih => exact ih ep

theorem recvHttpRequestBody_eq {ep : EndPoint} (h : ep.req.headerKv = []) (s : RecvSide) :
    ep.recvHttpRequestBody s = (ep, s) := by
  have hn : ep.isNeedRecvHttpRequestBody = (false, ep) := by
    simp [isNeedRecvHttpRequestBody, StringMap.find, h]
  rw [recvHttpRequestBody, hn]

theorem recvHttpRequestLine_eq {s t : RecvSide} {n : ℤ} {line : Bytes}
    (he : reaLine s [] = (n, line, t)) (ep : EndPoint) (h : ep.req.requestLine = []) :
    ep.recvHttpRequestLine s =
      if 0 < n then (ep.stop, ep.withLine (resize line (toSizeT (n - 1))), t)
      else (true, { ep.withLine line with stop := true }, t) := by
  simp only [recvHttpRequestLine, h, he, withLine]

section
variable {s t : RecvSide} {l : Bytes} {cs : List RecvCall} {r : RecvResult}

/-! The three ways `RecvHttpRequestLine` can go. -/

theorem recvHttpRequestLine_fits (hd : LineRead s l t cs) (hfit : Fits l) (ep : EndPoint)
    (h : ep.req.requestLine = []) :
    ep.recvHttpRequestLine s = (ep.stop, ep.withLine (storedLine l), t) := by
  rw [recvHttpRequestLine_eq hd.eq ep h,
    if_pos (show 0 < toInt ((l.length : ℤ) + 1) from hfit), ← storedLine]

theorem recvHttpRequestLine_overlong (hd : LineRead s l t cs) (hfit : ¬ Fits l) (ep : EndPoint)
    (h : ep.req.requestLine = []) :
    ep.recvHttpRequestLine s = (true, { ep.withLine (l ++ [LF]) with stop := true }, t) := by
  rw [recvHttpRequestLine_eq hd.eq ep h,
    if_neg (show ¬ 0 < toInt ((l.length : ℤ) + 1) from hfit)]

theorem recvHttpRequestLine_cut (hf : LineCut s l t cs r) (ep : EndPoint)
    (h : ep.req.requestLine = []) :
    ep.recvHttpRequestLine s = (true, { ep.withLine l with stop := true }, t) := by
  obtain ⟨m, hm, he⟩ := hf.eq
  rw [recvHttpRequestLine_eq he ep h, if_neg (not_lt.2 hm)]

end

/-- **What `RecvHttpRequest` does** on a new end point with `m_stop` false. -/
theorem recvHttpRequest_reads (s : RecvSide) :
    ∃ ls ok t cs, ReadsHead s ls ok t cs ∧ ∀ sock u, u.stop = false →
      ((EndPoint.new sock u).recvHttpRequest s).2 = t ∧
      (ok = false → ((EndPoint.new sock u).recvHttpRequest s).1.stop = true) ∧
      (ok = true → ∃ l, ls.head? = some l ∧
        ((EndPoint.new sock u).recvHttpRequest s).1 = parsed (.new sock u) (storedLine l)) := by
  rcases reaLine_cases s with ⟨l, t, cs, hd⟩ | ⟨l, t, cs, r, hf⟩
  · by_cases hfit : Fits l
    · obtain ⟨ls, ok, v, ds, hr, hrun⟩ := recvHttpRequestHeaderLoop_reads t
      refine ⟨l :: ls, ok, v, cs ++ ds, .header hd hfit hr, fun sock u hu => ?_⟩
      have hline := recvHttpRequestLine_fits hd hfit (.new sock u) rfl
      have hst : (EndPoint.new sock u).stop = false := hu
      simp only [recvHttpRequest, hline, hst, recvHttpRequestHeader, hrun]
      cases ok with
      | false => simp [readEnd]
      | true =>
        have hkv : (parsed (.new sock u) (storedLine l)).req.headerKv = [] := by
          rw [parsed_new]; exact (requestOf_header _).1
        simp only [readEnd, if_true, withLine_stop, hst, parseHttpRequestHeader_eq]
        rw [← parsed, recvHttpRequestBody_eq hkv]
        exact ⟨rfl, by simp, fun _ => ⟨l, rfl, rfl⟩⟩
    · refine ⟨[l], false, t, cs, .overlong hd hfit, fun sock u _ => ?_⟩
      have hline := recvHttpRequestLine_overlong hd hfit (.new sock u) rfl
      simp [recvHttpRequest, hline]
  · refine ⟨[], false, t, _, .fails hf, fun sock u _ => ?_⟩
    have hline := recvHttpRequestLine_cut hf (.new sock u) rfl
    simp [recvHttpRequest, hline]

/-! ## When the head arrives -/

theorem ReadsHeader.arrives {s t : RecvSide} {ls : List Bytes} {ok : Bool} {cs : List RecvCall}
    (h : ReadsHeader s ls ok t cs) : ok = true ↔ [] ∈ linesRead s := by
  induction h with
  | blank hd => simp [linesRead_of_read hd fits_nil]
  | line hd hl hf _ ih => simp [linesRead_of_read hd hf, ih, Ne.symm hl]
  | overlong hd hf => simp [linesRead_of_overlong hd hf]
  | fails hf => simp [linesRead_of_cut hf]

/-- **A run gets to the empty line exactly if `ReaLine` returns one** behind the
    first line, before it returns a value that is not positive. -/
theorem ReadsHead.arrives {s t : RecvSide} {ls : List Bytes} {ok : Bool} {cs : List RecvCall}
    (h : ReadsHead s ls ok t cs) : ok = true ↔ [] ∈ (linesRead s).tail := by
  cases h with
  | fails hf => simp [linesRead_of_cut hf]
  | overlong hd hf => simp [linesRead_of_overlong hd hf]
  | header hd hf hh => simp [linesRead_of_read hd hf, hh.arrives]

/-! ## The calls of a run -/

theorem ReadsHeader.recvs {s t : RecvSide} {ls : List Bytes} {ok : Bool} {cs : List RecvCall}
    (h : ReadsHeader s ls ok t cs) : Recvs s t cs := by
  induction h with
  | blank hd => exact hd.recvs
  | line hd _ _ _ ih => exact hd.recvs.trans ih
  | overlong hd => exact hd.recvs
  | fails hf => exact hf.recvs

theorem ReadsHead.recvs {s t : RecvSide} {ls : List Bytes} {ok : Bool} {cs : List RecvCall}
    (h : ReadsHead s ls ok t cs) : Recvs s t cs := by
  cases h with
  | fails hf => exact hf.recvs
  | overlong hd => exact hd.recvs
  | header hd _ hh => exact hd.recvs.trans hh.recvs

theorem ReadsHeader.count {s t : RecvSide} {ls : List Bytes} {ok : Bool} {cs : List RecvCall}
    (h : ReadsHeader s ls ok t cs) : cs.length + 3 * t.stream.length ≤ 3 * s.stream.length + 1 := by
  induction h with
  | blank hd | overlong hd => have := hd.count; omega
  | line hd _ _ _ ih =>
    have := hd.count
    rw [List.length_append]; omega
  | fails hf =>
    have := hf.count
    rw [List.length_append, List.length_singleton]; omega

/-- **A run makes at most three calls for each byte it takes**, and one more. -/
theorem ReadsHead.count {s t : RecvSide} {ls : List Bytes} {ok : Bool} {cs : List RecvCall}
    (h : ReadsHead s ls ok t cs) : cs.length + 3 * t.stream.length ≤ 3 * s.stream.length + 1 := by
  cases h with
  | fails hf =>
    have := hf.count
    rw [List.length_append, List.length_singleton]; omega
  | overlong hd => have := hd.count; omega
  | header hd _ hh =>
    have h1 := hd.count
    have h2 := hh.count
    rw [List.length_append]; omega

end EndPoint

/-- A request that is not read to its end is answered by closing the socket. -/
theorem handlerRequest_of_stop {σ : Type} (M : Machine σ) {sock : ℤ} {u : Unset} {w : World σ}
    (h : ((EndPoint.new sock u).recvHttpRequest w.rx).1.stop = true) :
    handlerRequest M sock u w =
      (((EndPoint.new sock u).recvHttpRequest w.rx).1,
        { w with
          rx := ((EndPoint.new sock u).recvHttpRequest w.rx).2
          os := w.os.close sock }) := by
  simp [handlerRequest, h]

end MyHttpServer
