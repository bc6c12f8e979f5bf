/-
  Requests all of whose bytes have arrived.

  On such a socket `ReaLine` reads the lines of the text (`LineDone.next`,
  `LineFails.next`), and no LF is missed.

  * `recvHttpRequest_block`: what is read of a request with another method
    than POST, whatever its lines are ended with;
  * `recvHttpRequest_closed`: a request that the peer cuts short is dropped;
  * `recvHttpRequest_post`: what is read of a POST, and what is lost.
-/
import Mathlib.Data.List.TakeWhile
import MyHttpServer.Proof.Request

namespace MyHttpServer

open RecvSide Util

/-! ## Lines -/

/-- A socket on which everything has arrived. -/
def arrived (bs : Bytes) (closed : Bool) : RecvSide := { queue := bs, coming := [], closed }

@[simp] theorem stream_arrived (bs : Bytes) (closed : Bool) : (arrived bs closed).stream = bs := by
  simp [arrived, stream]

theorem stream_eq_queue {s : RecvSide} (h : s.coming = []) : s.stream = s.queue := by
  simp [stream, h]

/-- A process without files, with the bytes `bs` on the socket. -/
def bare (bs : Bytes) : World ℕ :=
  { rx := arrived bs true, tx := { wire := [], plan := [] },
    os := { disk := 0, fds := [], refusals := [], sigchld := .ignore } }

def noFiles : Machine ℕ := { lookup _ _ := none, program _ _ := none }

namespace Util

theorem LineDone.next {s t : RecvSide} {l : Bytes} {cs : List RecvCall} (h : LineDone s l t cs)
    (hs : s.coming = []) : Lines.next CR LF s.stream = some (l, t.stream) := by
  rcases h.next_cases with ⟨hn, -⟩ | ⟨-, -, -, c, hc, hm⟩
  · exact hn
  · exact absurd hm (h.recvs.missesLf hs c hc)

theorem LineFails.next {s t : RecvSide} {l : Bytes} {cs : List RecvCall} {r : RecvResult}
    (h : LineFails s l t cs r) (hs : s.coming = []) : Lines.next CR LF s.stream = none := by
  have hend : t.stream.head? = none :=
    h.recvs.next_none hs ⟨false, t.stream.head?, r⟩ (by simp) h.fails
  rw [h.text, List.head?_eq_none_iff.1 hend, List.append_nil]
  exact Lines.next_eq_none.2 ⟨h.cr, h.lf⟩

end Util

namespace EndPoint

/-- The header of a socket on which everything has arrived ends with an empty
    line. -/
theorem ReadsHeader.blank_mem {s t : RecvSide} {ls : List Bytes} {ok : Bool}
    {cs : List RecvCall} (h : ReadsHeader s ls ok t cs) (hs : s.coming = []) (hok : ok = true) :
    [] ∈ Lines.split CR LF s.stream := by
  induction h with
  | blank hd => simp [Lines.split_of_next (hd.next hs)]
  | line hd _ _ _ ih =>
    rw [Lines.split_of_next (hd.next hs)]
    exact List.mem_cons_of_mem _ (ih (hd.recvs.coming_nil hs) hok)
  | overlong | fails => cases hok

/-- A head that is read to its end has a first line and, later, an empty one. -/
theorem ReadsHead.blank_mem {s t : RecvSide} {ls : List Bytes} {ok : Bool} {cs : List RecvCall}
    (h : ReadsHead s ls ok t cs) (hs : s.coming = []) (hok : ok = true) :
    [] ∈ (Lines.split CR LF s.stream).tail := by
  cases h with
  | overlong | fails => cases hok
  | header hd _ hh =>
    rw [Lines.split_of_next (hd.next hs), List.tail_cons]
    exact hh.blank_mem (hd.recvs.coming_nil hs) hok

theorem ReadsHeader.next_blank {s t : RecvSide} {ls : List Bytes} {ok : Bool}
    {cs : List RecvCall} {rest : Bytes} (h : ReadsHeader s ls ok t cs) (hs : s.coming = [])
    (hn : Lines.next CR LF s.stream = some ([], rest)) : ok = true ∧ t.stream = rest := by
  cases h with
  | blank hd => cases (hd.next hs).symm.trans hn; exact ⟨rfl, rfl⟩
  | line hd hl => cases (hd.next hs).symm.trans hn; exact absurd rfl hl
  | overlong hd hfit => cases (hd.next hs).symm.trans hn; exact absurd fits_nil hfit
  | fails hf => cases (hf.next hs).symm.trans hn

theorem ReadsHeader.next_line {s t : RecvSide} {ls : List Bytes} {ok : Bool}
    {cs : List RecvCall} {l rest : Bytes} (h : ReadsHeader s ls ok t cs) (hs : s.coming = [])
    (hn : Lines.next CR LF s.stream = some (l, rest)) (hl : l ≠ []) (hfit : Fits l) :
    ∃ s' ls' cs', ReadsHeader s' ls' ok t cs' ∧ s'.coming = [] ∧ s'.stream = rest := by
  cases h with
  | blank hd => cases (hd.next hs).symm.trans hn; exact absurd rfl hl
  | line hd _ _ hh =>
    cases (hd.next hs).symm.trans hn
    exact ⟨_, _, _, hh, hd.recvs.coming_nil hs, rfl⟩
  | overlong hd hfit' => cases (hd.next hs).symm.trans hn; exact absurd hfit hfit'
  | fails hf => cases (hf.next hs).symm.trans hn

/-- Of a text that starts with header lines and an empty line these lines are
    read and nothing else. -/
theorem ReadsHeader.block {hs : List Bytes} {tail : Bytes} :
    ∀ {s t : RecvSide} {ls : List Bytes} {ok : Bool} {cs : List RecvCall},
      ReadsHeader s ls ok t cs → s.coming = [] → Lines.Block CR LF (hs ++ [[]]) s.stream tail →
      (∀ l ∈ hs, l ≠ [] ∧ Fits l) → ok = true ∧ t.stream = tail := by
  induction hs with
  | nil =>
    intro s t ls ok cs h hs hb _
    obtain ⟨bs, hn, hb⟩ := hb.next_cons CR_ne_LF
    cases hb
    exact h.next_blank hs hn
  | cons l hs ih =>
    intro s t ls ok cs h hs0 hb hne
    obtain ⟨bs, hn, hb⟩ := hb.next_cons CR_ne_LF
    have hl := hne l (by simp)
    obtain ⟨s', ls', cs', h', hs', rfl⟩ := h.next_line hs0 hn hl.1 hl.2
    exact ih h' hs' hb fun m hm => hne m (by simp [hm])

/-- Of a text that starts with a head the head is read and nothing else. -/
theorem ReadsHead.block {s t : RecvSide} {ls hs : List Bytes} {ok : Bool} {cs : List RecvCall}
    {l tail : Bytes} (h : ReadsHead s ls ok t cs) (hs0 : s.coming = [])
    (hb : Lines.Block CR LF (l :: (hs ++ [[]])) s.stream tail) (hfit : Fits l)
    (hne : ∀ l ∈ hs, l ≠ [] ∧ Fits l) :
    ok = true ∧ ls.head? = some l ∧ t.stream = tail := by
  obtain ⟨bs, hn, hb⟩ := hb.next_cons CR_ne_LF
  cases h with
  | fails hf => cases (hf.next hs0).symm.trans hn
  | overlong hd hnot => cases (hd.next hs0).symm.trans hn; exact absurd hfit hnot
  | header hd _ hh =>
    cases (hd.next hs0).symm.trans hn
    obtain ⟨h1, h2⟩ := hh.block (hd.recvs.coming_nil hs0) hb hne
    exact ⟨h1, rfl, h2⟩

end EndPoint

/-! ## The words of the first line -/

/-- A word: not empty, and without white space. -/
structure Token where
  bytes : Bytes
  ne_nil : bytes ≠ []
  noSpace : ∀ c ∈ bytes, isSpace c = false

namespace Token

/-- `ss >> word` in front of a word that a blank or the end follows. -/
theorem extract (w : Token) {rest : Bytes} (hr : ∀ c ∈ rest.head?, isSpace c = true) :
    MyHttpServer.extract (w.bytes ++ rest) = (w.bytes, rest) := by
  have hdrop : (w.bytes ++ rest).dropWhile isSpace = w.bytes ++ rest := by
    obtain ⟨c, bs, hb⟩ := List.exists_cons_of_ne_nil w.ne_nil
    have hc := w.noSpace c (by simp [hb])
    simp [hb, hc]
  have hall : ∀ c ∈ w.bytes, (! isSpace c) = true := fun c hc => by simp [w.noSpace c hc]
  simp only [MyHttpServer.extract, hdrop]
  rw [List.takeWhile_append_of_pos hall, List.dropWhile_append_of_pos hall]
  cases rest with
  | nil => simp
  | cons c rest => simp [hr c (by simp)]

/-- The same behind a space. -/
theorem extract_space (w : Token) {rest : Bytes} (hr : ∀ c ∈ rest.head?, isSpace c = true) :
    MyHttpServer.extract (SP :: (w.bytes ++ rest)) = (w.bytes, rest) := by
  rw [← w.extract hr]
  have hsp : isSpace SP = true := by decide
  simp [MyHttpServer.extract, hsp]

end Token

/-- The first line of a request: three words with single spaces between them. -/
structure FirstLine where
  method : Token
  url : Token
  version : Token

def FirstLine.bytes (l : FirstLine) : Bytes :=
  l.method.bytes ++ SP :: (l.url.bytes ++ SP :: l.version.bytes)

theorem FirstLine.extract (l : FirstLine) :
    MyHttpServer.extract l.bytes = (l.method.bytes, SP :: (l.url.bytes ++ SP :: l.version.bytes)) ∧
    MyHttpServer.extract (SP :: (l.url.bytes ++ SP :: l.version.bytes)) =
      (l.url.bytes, SP :: l.version.bytes) ∧
    MyHttpServer.extract (SP :: l.version.bytes) = (l.version.bytes, []) := by
  have hsp : ∀ bs : Bytes, ∀ c ∈ (SP :: bs).head?, isSpace c = true := by
    intro bs c hc
    simp only [List.head?_cons, Option.mem_def, Option.some.injEq] at hc
    subst hc; decide
  refine ⟨l.method.extract (hsp _), l.url.extract_space (hsp _), ?_⟩
  simpa using @Token.extract_space l.version [] (by simp)

/-! ## The target of a GET -/

theorem find_question {url : Bytes} (h : QUESTION ∈ url) :
    find (str "?") url = some (url.takeWhile (· ≠ QUESTION)).length := by
  have hs : str "?" = [QUESTION] := by decide
  rw [hs, find_byte, if_pos h]

/-- **The query split**: the path is the target up to its first `'?'`, the
    parameter what follows it. -/
theorem splitUrl_eq {url : Bytes} (h : url.length < 2 ^ 31) :
    EndPoint.splitUrl url =
      (url.takeWhile (· ≠ QUESTION), (url.dropWhile (· ≠ QUESTION)).tail) := by
  unfold EndPoint.splitUrl
  split
  · rename_i hq
    set i := (url.takeWhile (· ≠ QUESTION)).length with hi
    have hle : i ≤ url.length := (List.takeWhile_prefix _).length_le
    have hone : (str "?").length = 1 := by decide
    have hnpos : (i : ℤ) ≠ npos := by simp only [npos]; omega
    have hadd : toSizeT ((i : ℤ) + (1 : ℕ)) = i + 1 := by
      rw [← Nat.cast_add, toSizeT_of_lt (by omega)]
    simp only [cutstring, find_question hq, ← hi, hone]
    rw [toInt_of_lt (by omega), if_pos hnpos, toSizeT_of_lt (by omega), hadd]
    have hdrop : url.drop i = url.dropWhile (· ≠ QUESTION) := by
      rw [hi, drop_length_takeWhile]
    refine Prod.ext ?_ ?_
    · exact (List.prefix_iff_eq_take.1 (List.takeWhile_prefix _)).symm
    · rw [← hdrop, List.tail_drop]
  · rename_i hq
    have hall : ∀ c ∈ url, decide (c ≠ QUESTION) = true := by
      intro c hc
      simpa using fun he : c = QUESTION => hq (he ▸ hc)
    rw [List.takeWhile_eq_self_iff.2 hall, List.dropWhile_eq_nil_iff.2 hall]
    rfl

/-! ## Reading a request -/

namespace EndPoint

section
variable {sock : ℤ} {u : Unset} (hu : u.stop = false)
include hu

/-- **A request whose head has arrived** is read up to the end of the head, with
    what is stored of its first line. -/
theorem recvHttpRequest_stored {l bytes tail : Bytes} {hs : List Bytes} (closed : Bool)
    (hb : Lines.Block CR LF (l :: (hs ++ [[]])) bytes tail)
    (hne : ∀ h ∈ hs, h ≠ []) (hfit : ∀ h ∈ l :: hs, Fits h) :
    ((EndPoint.new sock u).recvHttpRequest (arrived bytes closed)).1 =
      parsed (.new sock u) (storedLine l) ∧
    ((EndPoint.new sock u).recvHttpRequest (arrived bytes closed)).2.queue = tail := by
  obtain ⟨ls, ok, t, cs, h, hrun⟩ := recvHttpRequest_reads (arrived bytes closed)
  obtain ⟨rfl, hl, ht⟩ := h.block rfl (by rwa [stream_arrived]) (hfit l (by simp))
    fun h hh => ⟨hne h hh, hfit h (by simp [hh])⟩
  obtain ⟨h2, -, h1⟩ := hrun sock u hu
  obtain ⟨l', hl', he⟩ := h1 rfl
  cases hl.symm.trans hl'
  rw [h2, ← stream_eq_queue (h.recvs.coming_nil rfl)]
  exact ⟨he, ht⟩

theorem recvHttpRequest_head {l bytes tail : Bytes} {hs : List Bytes} (closed : Bool)
    (hb : Lines.Block CR LF (l :: (hs ++ [[]])) bytes tail)
    (hne : ∀ h ∈ hs, h ≠ []) (hlen : ∀ h ∈ l :: hs, h.length + 1 < 2 ^ 31) :
    ((EndPoint.new sock u).recvHttpRequest (arrived bytes closed)).1 =
      parsed (.new sock u) l ∧
    ((EndPoint.new sock u).recvHttpRequest (arrived bytes closed)).2.queue = tail := by
  have h := @recvHttpRequest_stored sock u hu _ _ _ _ closed hb hne fun m hm =>
    fits_of_lt (hlen m hm)
  rwa [storedLine_of_lt (hlen l (by simp))] at h

/-- **What is read of a request with another method than POST.**  The bound counts
    the line end: a line of `2 ^ 31 - 1` bytes is too long for `ReaLine`. -/
theorem recvHttpRequest_block (first : FirstLine)
    (hpost : first.method.bytes.map toUpper ≠ POST) {bytes tail : Bytes} {hs : List Bytes}
    (closed : Bool) (hb : Lines.Block CR LF (first.bytes :: (hs ++ [[]])) bytes tail)
    (hne : ∀ h ∈ hs, h ≠ []) (hlen : ∀ h ∈ first.bytes :: hs, h.length + 1 < 2 ^ 31) :
    let r := (EndPoint.new sock u).recvHttpRequest (arrived bytes closed)
    let method := first.method.bytes.map toUpper
    let url := first.url.bytes
    r.1.stop = false ∧ r.1.req.method = method ∧ r.1.req.url = url ∧
      r.1.req.version = first.version.bytes ∧ r.2.queue = tail ∧
      if method = GET then
        r.1.req.path = url.takeWhile (· ≠ QUESTION) ∧
          r.1.req.parameter = (url.dropWhile (· ≠ QUESTION)).tail ∧ r.1.resp.statusCode = OK
      else r.1.resp.statusCode = BAD_REQUEST ∧ r.1.req.path = [] ∧ r.1.req.parameter = [] := by
  intro r method url
  obtain ⟨h1, h2⟩ := @recvHttpRequest_head sock u hu _ _ _ _ closed hb hne hlen
  have hurl : url.length < 2 ^ 31 := by
    have := hlen first.bytes (by simp)
    simp only [FirstLine.bytes, List.length_append, List.length_cons] at this
    simp only [url]; omega
  obtain ⟨e1, e2, e3⟩ := first.extract
  simp only [r, h1, h2, parsed_new, codeOf, requestOf_method]
  simp only [requestOf, e1, e2, e3]
  refine ⟨hu, ?_⟩
  by_cases hg : first.method.bytes.map toUpper = GET
  · rw [if_pos (show method = GET from hg)]
    simp [hg, splitUrl_eq hurl, url, method]
  · rw [if_neg (show method ≠ GET from hg)]
    simp [hg, hpost, url, method]

omit hu in
/-- A GET with its three lines ended in three ways, and four bytes behind it. -/
theorem recvHttpRequest_block_get :
    let r := (EndPoint.new 4 ⟨false, 7, 8⟩).recvHttpRequest
      (arrived (str "get /a?b=1 HTTP/1.1\r\nHost: h\n\rTAIL") false)
    r.1.stop = false ∧ r.1.req.method = GET ∧ r.2.queue = str "TAIL" ∧
      r.1.req.path = str "/a" ∧ r.1.req.parameter = str "b=1" := by
  have hb : Lines.Block CR LF (str "get /a?b=1 HTTP/1.1" :: ([str "Host: h"] ++ [[]]))
      (str "get /a?b=1 HTTP/1.1\r\nHost: h\n\rTAIL") (str "TAIL") :=
    .cons (l := str "get /a?b=1 HTTP/1.1") (t := [CR, LF]) (by decide +kernel)
      (by decide +kernel) .crlf
      (.cons (l := str "Host: h") (t := [LF]) (by decide +kernel) (by decide +kernel) .lf
        (.cons (l := []) (t := [CR]) (by decide +kernel) (by decide +kernel)
          (.cr (by decide +kernel)) .nil))
  have h := @recvHttpRequest_block 4 ⟨false, 7, 8⟩ rfl
    ⟨⟨str "get", by decide +kernel, by decide +kernel⟩,
      ⟨str "/a?b=1", by decide +kernel, by decide +kernel⟩,
      ⟨str "HTTP/1.1", by decide +kernel, by decide +kernel⟩⟩
    (by decide +kernel) _ _ [str "Host: h"] false hb
    (by decide +kernel) (by decide +kernel)
  obtain ⟨h1, h2, -, -, h3, h4⟩ := h
  rw [if_pos (by decide +kernel)] at h4
  exact ⟨h1, h2, h3, h4.1, h4.2.1⟩

/-- **A request that the peer cuts short.**  It is read with at most three calls
    of `recv` for each byte, and one more; if it has no empty line behind its
    first, or a body shorter than `m_content_length`, it is dropped. -/
theorem recvHttpRequest_closed {σ : Type} (M : Machine σ) {w : World σ} {bs : Bytes}
    (hrx : w.rx = arrived bs true) (sock : ℤ) :
    let r := (EndPoint.new sock u).recvHttpRequest w.rx
    let w' := (handlerRequest M sock u w).2
    r.2.calls.length ≤ 3 * bs.length + 1 ∧
      (r.1.stop = false → [] ∈ (Lines.split CR LF bs).tail ∧
        r.1.req.requestBody.length = r.1.req.contentLength) ∧
      ([] ∉ (Lines.split CR LF bs).tail ∨
          r.1.req.requestBody.length < r.1.req.contentLength →
        r.1.stop = true ∧ w'.tx = w.tx ∧ w'.os.trace = w.os.trace ++ [.close sock]) := by
  intro r w'
  obtain ⟨ls, ok, t, cs, h, hrun⟩ := recvHttpRequest_reads w.rx
  have hs : w.rx.stream = bs := by rw [hrx, stream_arrived]
  have hok := h.blank_mem (by rw [hrx]; rfl)
  rw [hs] at hok
  obtain ⟨ht, hfail, hdone⟩ := hrun sock u hu
  have hdrop (hst : r.1.stop = true) :
      r.1.stop = true ∧ w'.tx = w.tx ∧ w'.os.trace = w.os.trace ++ [.close sock] := by
    simp only [w']
    rw [handlerRequest_of_stop M hst]
    exact ⟨hst, rfl, rfl⟩
  have hcount : r.2.calls.length ≤ 3 * bs.length + 1 := by
    have hc := h.count
    rw [ht, h.recvs.calls, hrx, List.length_append]
    rw [hs] at hc
    simp only [arrived, List.length_nil]; omega
  refine ⟨hcount, ?_⟩
  cases ok with
  | false =>
    have hst : r.1.stop = true := hfail rfl
    exact ⟨fun hf => absurd hf (by simp [hst]), fun _ => hdrop hst⟩
  | true =>
    obtain ⟨l, -, he⟩ := hdone rfl
    have hreq : r.1.req = requestOf (storedLine l) := by simp only [r, he, parsed_new]
    obtain ⟨-, hcl, hbody⟩ := requestOf_header (storedLine l)
    rw [hreq, hcl, hbody]
    exact ⟨fun _ => ⟨hok rfl, rfl⟩, by simp [hok rfl]⟩

omit hu in
/-- A request that breaks off behind its first header line. -/
theorem recvHttpRequest_closed_get :
    ((EndPoint.new 4 ⟨false, 0, 0⟩).recvHttpRequest (bare (str "GET /\r\nA: b\r\n")).rx).1.stop
      = true ∧
    (handlerRequest noFiles 4 ⟨false, 0, 0⟩ (bare (str "GET /\r\nA: b\r\n"))).2.os.trace
      = [.close 4] := by
  have h := recvHttpRequest_closed (u := ⟨false, 0, 0⟩) rfl noFiles
    (w := bare (str "GET /\r\nA: b\r\n")) rfl
  have hd := (h 4).2.2 (.inl (by decide +kernel))
  exact ⟨hd.1, hd.2.2⟩

end

/-! ## Reading a POST -/

/-- A POST as a client writes it. -/
structure PostRequest where
  target : Bytes
  version : Bytes
  /-- names and values of the header lines -/
  headers : List (Bytes × Bytes)
  body : Bytes
  target_noSpace : ∀ c ∈ target, isSpace c = false
  version_noSpace : ∀ c ∈ version, isSpace c = false
  names_nodup : (headers.map Prod.fst).Nodup
  name_ok : ∀ h ∈ headers, h.1 ≠ [] ∧ ¬ SEP <:+: h.1 ∧ CR ∉ h.1 ∧ LF ∉ h.1
  value_ok : ∀ h ∈ headers, CR ∉ h.2 ∧ LF ∉ h.2
  length_mem : (CONTENT_LENGTH, decimal body.length) ∈ headers
  length_lt : body.length < 2 ^ 31

namespace PostRequest

def firstLine (r : PostRequest) : Bytes := POST ++ SP :: (r.target ++ SP :: r.version)

def headerLines (r : PostRequest) : List Bytes := r.headers.map fun h => h.1 ++ SEP ++ h.2

/-- The request on the wire, with `tail` behind it. -/
def text (r : PostRequest) (tail : Bytes) : Bytes :=
  Lines.headText CR LF (r.firstLine :: r.headerLines) ++ (r.body ++ tail)

/-- Every line is below the limit of `ReaLine`. -/
def Short (r : PostRequest) : Prop := ∀ l ∈ r.firstLine :: r.headerLines, l.length + 1 < 2 ^ 31

/-- What the client wrote has been read, and no more. -/
structure ReadBack (r : PostRequest) (tail : Bytes) (ep : EndPoint) (s : RecvSide) : Prop where
  stop : ep.stop = false
  headerKv : ∀ name, ep.req.headerKv.find name = r.headers.lookup name
  contentLength : ep.req.contentLength = r.body.length
  requestBody : ep.req.requestBody = r.body
  queue : s.queue = tail

theorem headLine_header (r : PostRequest) {l : Bytes} (hl : l ∈ r.headerLines) :
    Lines.HeadLine CR LF l := by
  obtain ⟨h, hh, rfl⟩ := List.mem_map.1 hl
  obtain ⟨hne, -, hc, hf⟩ := r.name_ok h hh
  obtain ⟨vc, vf⟩ := r.value_ok h hh
  have hsep : CR ∉ SEP ∧ LF ∉ SEP := by decide
  exact ⟨by simp [hne], by simp [hc, vc, hsep.1], by simp [hf, vf, hsep.2]⟩

theorem headLine_first (r : PostRequest) : Lines.HeadLine CR LF r.firstLine := by
  have hp : POST ≠ [] ∧ CR ∉ POST ∧ LF ∉ POST ∧ CR ≠ SP ∧ LF ≠ SP := by decide
  have hw {w : Bytes} (h : ∀ c ∈ w, isSpace c = false) : CR ∉ w ∧ LF ∉ w :=
    ⟨fun hm => absurd (h CR hm) (by decide), fun hm => absurd (h LF hm) (by decide)⟩
  have ht := hw r.target_noSpace
  have hv := hw r.version_noSpace
  refine ⟨by simp [firstLine], ?_, ?_⟩ <;> simp [firstLine, hp, ht, hv]

/-- The head of the text. -/
theorem head (r : PostRequest) (tail : Bytes) :
    Lines.Head CR LF (r.firstLine :: r.headerLines) (r.body ++ tail) (r.text tail) :=
  ⟨fun _ hl => (List.mem_cons.1 hl).elim (fun h => h ▸ r.headLine_first) r.headLine_header, rfl⟩

end PostRequest

section
variable {sock : ℤ} {u : Unset} (hu : u.stop = false)
include hu

/-- **What is read of a POST**: its head.  The header lines are lost, hence no
    `Content-Length` is found and the body stays on the socket. -/
theorem recvHttpRequest_post (r : PostRequest) (hr : r.Short) (tail : Bytes) (closed : Bool) :
    let p := (EndPoint.new sock u).recvHttpRequest (arrived (r.text tail) closed)
    p.1.stop = false ∧ p.1.req.headerKv = [] ∧ p.1.req.contentLength = 0 ∧
      p.1.req.requestBody = [] ∧ p.2.queue = r.body ++ tail := by
  intro p
  have hb := (r.head tail).block
  rw [List.cons_append] at hb
  obtain ⟨h1, h2⟩ := @recvHttpRequest_head sock u hu _ _ _ _ closed hb
    (fun h hh => (r.headLine_header hh).ne_nil) hr
  obtain ⟨hkv, hlen, hbody⟩ := requestOf_header r.firstLine
  simp only [p, h1, h2, parsed_new]
  exact ⟨hu, hkv, hlen, hbody, trivial⟩

/-- **No POST is read back.** -/
theorem post_not_readBack (r : PostRequest) (tail : Bytes) (closed : Bool) :
    let p := (EndPoint.new sock u).recvHttpRequest (arrived (r.text tail) closed)
    ¬ r.ReadBack tail p.1 p.2 := by
  intro p h
  obtain ⟨ls, ok, t, cs, -, hrun⟩ := recvHttpRequest_reads (arrived (r.text tail) closed)
  obtain ⟨-, hfail, hdone⟩ := hrun sock u hu
  have hnil : p.1.req.headerKv = [] := by
    cases ok with
    | false => exact absurd (hfail rfl) (by simp [h.stop, p])
    | true =>
      obtain ⟨l, -, he⟩ := hdone rfl
      simp only [p, he, parsed_new]
      exact (requestOf_header _).1
  have hkv := h.headerKv CONTENT_LENGTH
  rw [hnil] at hkv
  simpa using List.lookup_eq_none_iff.1 hkv.symm _ r.length_mem

end

/-- `POST /t HTTP/1.1` with a header line and a body of two bytes. -/
def formPost : PostRequest where
  target := str "/t"
  version := str "HTTP/1.1"
  headers := [(CONTENT_LENGTH, str "2")]
  body := str "hi"
  target_noSpace := by decide +kernel
  version_noSpace := by decide +kernel
  names_nodup := by decide +kernel
  name_ok := by decide +kernel
  value_ok := by decide +kernel
  length_mem := by decide +kernel
  length_lt := by decide +kernel

theorem post_not_readBack_formPost :
    formPost.Short ∧ ¬ formPost.ReadBack (str "TAIL")
      ((EndPoint.new 4 ⟨false, 0, 0⟩).recvHttpRequest (arrived (formPost.text (str "TAIL")) true)).1
      ((EndPoint.new 4 ⟨false, 0, 0⟩).recvHttpRequest
        (arrived (formPost.text (str "TAIL")) true)).2 := by
  have hs : formPost.Short := by unfold PostRequest.Short; decide +kernel
  exact ⟨hs, post_not_readBack rfl formPost (str "TAIL") true⟩

/-- The body that the client wrote is not in `m_request_body`, but still on the
    socket. -/
theorem formPost_body_lost :
    formPost.Short ∧
    ((EndPoint.new 4 ⟨false, 0, 0⟩).recvHttpRequest
      (arrived (formPost.text (str "TAIL")) true)).1.req.requestBody = [] ∧
    ((EndPoint.new 4 ⟨false, 0, 0⟩).recvHttpRequest
      (arrived (formPost.text (str "TAIL")) true)).2.queue = str "hiTAIL" ∧
    ¬ ∀ (sock : ℤ) (u : Unset), u.stop = false → ∀ r : PostRequest, r.Short →
      ∀ (tail : Bytes) (closed : Bool), r.ReadBack tail
        ((EndPoint.new sock u).recvHttpRequest (arrived (r.text tail) closed)).1
        ((EndPoint.new sock u).recvHttpRequest (arrived (r.text tail) closed)).2 := by
  have hs : formPost.Short := by unfold PostRequest.Short; decide +kernel
  have hb : ((EndPoint.new 4 ⟨false, 0, 0⟩).recvHttpRequest
      (arrived (formPost.text (str "TAIL")) true)).1.req.requestBody = [] := by decide +kernel
  refine ⟨hs, hb, by decide +kernel, fun h => ?_⟩
  have := (h 4 ⟨false, 0, 0⟩ rfl formPost hs (str "TAIL") true).requestBody
  rw [hb] at this
  exact absurd this (by decide +kernel)

end EndPoint

end MyHttpServer
