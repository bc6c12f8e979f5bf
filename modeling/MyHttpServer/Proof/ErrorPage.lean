/-
  Responses with an error status.

  `BuildErrorHeader` announces a page and opens it.  It is called once for the
  statuses 400 and 500, and twice for 404, where a `break` is missing.

  * `onePage_iff`, `twoPages_iff`: what one call and two calls announce;
  * `errorPage_iff`: a response announces and carries the page of its status,
    but for 404, which carries another one as well.
-/
import MyHttpServer.Proof.Response

namespace MyHttpServer

/-! ## Pages -/

/-- A page that can be opened: a regular file shorter than 2^31 bytes. -/
structure Page {σ : Type} (M : Machine σ) (disk : σ) (path : Bytes) where
  file : Inode
  lookup : M.lookup disk (cStr path) = some file
  readable : file.readable = true
  regular : isReg file.mode = true
  short : file.content.length < 2 ^ 31

/-- The three error pages. -/
structure ErrorPages {σ : Type} (M : Machine σ) (disk : σ) where
  page400 : Page M disk PAGE_400
  page404 : Page M disk PAGE_404
  page500 : Page M disk PAGE_500

/-- What is on the page for a status. -/
def ErrorPages.content {σ : Type} {M : Machine σ} {disk : σ} (P : ErrorPages M disk) (c : ℤ) :
    Bytes :=
  if c = BAD_REQUEST then P.page400.file.content
  else if c = NOT_FOUND then P.page404.file.content
  else P.page500.file.content

section
variable {σ : Type} {M : Machine σ} {disk : σ}

theorem Page.toInt_size {path : Bytes} (P : Page M disk path) :
    toInt P.file.size = P.file.content.length := by
  rw [P.file.size_eq P.regular, toInt_of_lt P.short]

namespace EndPoint
variable {os : Os σ} {path : Bytes}

theorem buildErrorHeader_page (P : Page M disk path) (hd : os.disk = disk)
    (hr : os.refusals.headD false = false) (ep : EndPoint) :
    (0 < os.lowestFree ∧ buildErrorHeader M path ep os = (ep.withPage os.lowestFree P.file,
      (os.afterOpen path os.lowestFree [(os.lowestFree, P.file.content)]).note
        (.stat (cStr path)))) ∨
    (os.lowestFree = 0 ∧ buildErrorHeader M path ep os =
      (ep.withFd 0, os.afterOpen path 0 [(0, P.file.content)])) := by
  have hl : M.lookup os.disk (cStr path) = some P.file := by rw [hd]; exact P.lookup
  rcases buildErrorHeader_cases M path os with ⟨f, hf, hlt, h⟩ | ⟨hz, f, hf, h⟩ | ⟨hn, -⟩
  · cases hl.symm.trans hf
    exact .inl ⟨hlt, h ep⟩
  · cases hl.symm.trans hf
    exact .inr ⟨hz, h ep⟩
  · have := hn hr P.file hl
    rw [P.readable] at this; cases this

/-- The bytes of a response that ends with a page. -/
theorem page_bytes (P : Page M disk path) {ep : EndPoint} {code : ℤ} {hs : List Bytes}
    (hh : ep.HasHead code hs) (hc : code ∈ [OK, BAD_REQUEST, NOT_FOUND, SERVER_ERROR])
    (hl : ∀ l ∈ hs, Lines.HeadLine CR LF l) (c : SysCall) :
    let e := ep.withPage os.lowestFree P.file
    let os' := (os.afterOpen path os.lowestFree [(os.lowestFree, P.file.content)]).note c
    Lines.Head CR LF
      (statusText code :: (hs ++ [contentTypeLine, contentLengthLine P.file.content.length]))
      P.file.content (e.headBytes ++ e.fileBytes os') := by
  intro e os'
  have hb : e.fileBytes os' = P.file.content := by
    have hof : os'.contentOf os.lowestFree = some P.file.content := Os.contentOf_alloc os' rfl
    simp only [fileBytes, e, withPage, P.toInt_size, hof, Option.getD_some]
    rw [toSizeT_of_lt (by have := P.short; omega), List.take_length]
  have he := hh.withPage os.lowestFree P.file
  rw [P.toInt_size] at he
  rw [hb]
  refine he.head hc ?_ _
  intro l hm
  simp only [List.mem_append, List.mem_cons, List.not_mem_nil, or_false] at hm
  rcases hm with hm | rfl | rfl
  · exact hl l hm
  · exact headLine_contentType
  · exact headLine_contentLength _

/-- With one page the response announces that page. -/
theorem announces_iff {content bs : Bytes} {code : ℤ}
    (h : Lines.Head CR LF
      [statusText code, contentTypeLine, contentLengthLine content.length] content bs)
    (content' : Bytes) : (∃ ls, Announces ls content' bs) ↔ content' = content := by
  obtain ⟨k1, k2, k3, k4, k5, k6⟩ := kinds code content.length
  constructor
  · rintro ⟨ls, ha⟩
    exact (Lines.Head.unique CR_ne_LF ha.head h).2
  · rintro rfl
    exact ⟨_, h, by simp [k1, k3, k5], by simp [k2, k4, k6]⟩

/-- With two pages there are two lines of a kind. -/
theorem not_announces_two {content bs : Bytes} {code n m : ℤ}
    (h : Lines.Head CR LF [statusText code, contentTypeLine, contentLengthLine n,
      contentTypeLine, contentLengthLine m] content bs) (content' : Bytes) :
    ¬ ∃ ls, Announces ls content' bs := by
  obtain ⟨k1, -, k3, -, -, -⟩ := kinds code n
  rintro ⟨ls, ha⟩
  obtain ⟨rfl, -⟩ := Lines.Head.unique CR_ne_LF ha.head h
  have := ha.contentType
  simp [k1, k3, (kinds code n).2.2.2.2.1, (kinds code m).2.2.2.2.1] at this

/-- A response made by one call of `BuildErrorHeader` announces its page, unless
    that is opened as descriptor 0. -/
theorem onePage_iff (P : Page M disk path) (hd : os.disk = disk)
    (hr : os.refusals.headD false = false) {ep : EndPoint} {code : ℤ}
    (hh : ep.HasHead code []) (hc : code ∈ [OK, BAD_REQUEST, NOT_FOUND, SERVER_ERROR])
    {body : Bytes}
    (hb : body = (buildErrorHeader M path ep os).1.fileBytes (buildErrorHeader M path ep os).2)
    (content : Bytes) :
    (∃ ls, Announces ls content ((buildErrorHeader M path ep os).1.headBytes ++ body)) ↔
      0 ∈ os.used ∧ content = P.file.content := by
  subst hb
  rcases buildErrorHeader_page P hd hr ep with ⟨hlt, he⟩ | ⟨hz, he⟩
  · have hmem : 0 ∈ os.used := by
      by_contra h0
      rw [os.lowestFree_eq_zero.2 h0] at hlt; omega
    rw [he, announces_iff (page_bytes P hh hc (by simp) _)]
    simp [hmem]
  · have hmem : 0 ∉ os.used := os.lowestFree_eq_zero.1 hz
    rw [he]
    have hhead := (hh.withFd 0).head hc (by simp)
      ((ep.withFd 0).fileBytes (os.afterOpen path 0 [(0, P.file.content)]))
    constructor
    · rintro ⟨ls, ha⟩
      exact absurd ha (not_announces hhead _ _)
    · exact fun h => absurd h.1 hmem

/-- A response made by two calls of `BuildErrorHeader` has two pages' lines, or
    only those of the second page. -/
theorem twoPages_iff {path' : Bytes} (P : Page M disk path) (P' : Page M disk path')
    (hd : os.disk = disk) (hr : os.refusals.headD false = false)
    (hr' : os.refusals.tail.headD false = false) {ep : EndPoint} {code : ℤ}
    (hh : ep.HasHead code []) (hc : code ∈ [OK, BAD_REQUEST, NOT_FOUND, SERVER_ERROR]) :
    let r := buildErrorHeader M path ep os
    let r' := buildErrorHeader M path' r.1 r.2
    ∀ body, body = r'.1.fileBytes r'.2 → ∀ content,
      ((∃ ls, Announces ls content (r'.1.headBytes ++ body)) ↔
        0 ∉ os.used ∧ content = P'.file.content) := by
  intro r r' body hb content
  rcases buildErrorHeader_page P hd hr ep with ⟨hlt, he⟩ | ⟨hz, he⟩
  · have hmem : 0 ∈ os.used := by
      by_contra h0
      rw [os.lowestFree_eq_zero.2 h0] at hlt; omega
    have hr1 : r = _ := he
    have hh1 := hh.withPage os.lowestFree P.file
    have hl1 : ∀ l ∈ [] ++ [contentTypeLine, contentLengthLine (toInt P.file.size)],
        Lines.HeadLine CR LF l := by
      rw [P.toInt_size]
      intro l hl
      simp only [List.nil_append, List.mem_cons, List.not_mem_nil, or_false] at hl
      rcases hl with rfl | rfl
      · exact headLine_contentType
      · exact headLine_contentLength _
    have hd1 : r.2.disk = disk := by rw [hr1]; exact hd
    have hres1 : r.2.refusals.headD false = false := by rw [hr1]; exact hr'
    have hmem1 : 0 ∈ r.2.used := by
      rw [hr1]
      exact List.mem_map.2 (by
        obtain ⟨e, he, h0⟩ := List.mem_map.1 hmem
        exact ⟨e, List.mem_append_left _ he, h0⟩)
    rcases buildErrorHeader_page P' hd1 hres1 r.1 with ⟨-, he'⟩ | ⟨hz, -⟩
    · have hr1' : r' = _ := he'
      have hh2 : r.1.HasHead code
          ([] ++ [contentTypeLine, contentLengthLine (toInt P.file.size)]) := by
        rw [hr1]; exact hh1
      have hbytes := @page_bytes _ _ _ r.2 _ P' _ _ _ hh2 hc hl1 (.stat (cStr path'))
      rw [hb, hr1']
      exact ⟨fun h => absurd h (not_announces_two hbytes _), fun h => absurd hmem h.1⟩
    · exact absurd hmem1 (r.2.lowestFree_eq_zero.1 hz)
  · have hmem : 0 ∉ os.used := os.lowestFree_eq_zero.1 hz
    have hr1 : r = _ := he
    have hd1 : r.2.disk = disk := by rw [hr1]; exact hd
    have hres1 : r.2.refusals.headD false = false := by rw [hr1]; exact hr'
    have hmem1 : 0 ∈ r.2.used := by rw [hr1]; simp
    have hh1 : r.1.HasHead code [] := by rw [hr1]; exact hh.withFd 0
    rw [onePage_iff P' hd1 hres1 hh1 hc hb]
    simp [hmem, hmem1]

end EndPoint

/-- **A response with an error status announces and carries the page of that
    status, except for 404**, whose page is followed by that for 500.  (If
    descriptor 0 is free, the page that is opened as descriptor 0 counts as not
    opened.) -/
theorem errorPage_iff {sock : ℤ} {u : Unset} {w : World σ} {c : ℤ}
    (hread : ((EndPoint.new sock u).recvHttpRequest w.rx).1.stop = false)
    (hcgi : (handlerRequest M sock u w).1.req.cgi = false)
    (hc : (handlerRequest M sock u w).1.resp.statusCode = c)
    (herr : c = BAD_REQUEST ∨ c = NOT_FOUND ∨ c = SERVER_ERROR) (hfull : w.tx.plan = [])
    (P : ErrorPages M w.os.disk)
    (hres : ∀ b ∈ (requested M sock u w).2.refusals, b = false) :
    (∃ ls, Announces ls (P.content c) (sent M sock u w)) ↔
      if c = NOT_FOUND then 0 ∉ (requested M sock u w).2.used ∧ P.content c = P.content SERVER_ERROR
      else 0 ∈ (requested M sock u w).2.used := by
  obtain ⟨hep, hnil, hdisk, body, hsent, hbody⟩ := sent_of_read (M := M) hread hfull
  set m := requested M sock u w
  have hframe := EndPoint.buildResponseHelper_frame (M := M) m.1 m.2
  rw [← hep] at hframe
  have hd : m.2.disk = w.os.disk := hdisk (by rw [← hframe.1]; exact hcgi)
  have hcode : m.1.resp.statusCode = c := by rw [← hframe.2.1]; exact hc
  have hb := hbody (by rw [← hep]; exact hcgi)
  have hhead : ∀ l : List Bool, (∀ b ∈ l, b = false) → l.headD false = false := by
    rintro (_ | ⟨b, l⟩) h
    · rfl
    · exact h b (by simp)
  have hr := hhead _ hres
  have hr' := hhead m.2.refusals.tail fun b hb => hres b (List.mem_of_mem_tail hb)
  have hh := EndPoint.hasHead_withStatus hnil
  rw [hcode] at hh
  have hne : NOT_FOUND ≠ BAD_REQUEST ∧ SERVER_ERROR ≠ BAD_REQUEST ∧ SERVER_ERROR ≠ NOT_FOUND := by
    decide
  rw [hsent]
  rcases herr with rfl | rfl | rfl
  · rw [EndPoint.buildResponseHelper_400 M hcode] at hb ⊢
    rw [EndPoint.onePage_iff P.page400 hd hr hh (by simp) hb, if_neg hne.1.symm]
    simp [ErrorPages.content]
  · rw [EndPoint.buildResponseHelper_404 M hcode] at hb ⊢
    rw [EndPoint.twoPages_iff P.page404 P.page500 hd hr hr' hh (by simp) body hb, if_pos rfl]
    simp [ErrorPages.content, hne]
  · rw [EndPoint.buildResponseHelper_500 M hcode] at hb ⊢
    rw [EndPoint.onePage_iff P.page500 hd hr hh (by simp) hb, if_neg hne.2.2]
    simp [ErrorPages.content, hne]

end

def sitePages (request : Bytes) : ErrorPages site (visit request).os.disk where
  page400 := ⟨textFile (str "bad"), by rfl, rfl, by decide +kernel, by decide +kernel⟩
  page404 := ⟨textFile (str "none"), by rfl, rfl, by decide +kernel, by decide +kernel⟩
  page500 := ⟨textFile (str "error"), by rfl, rfl, by decide +kernel, by decide +kernel⟩

theorem errorPage_iff_badRequest :
    ∃ ls, Announces ls (str "bad")
      (sent site 4 ⟨false, 0, 0⟩ (visit (str "PUT / HTTP/1.1\r\n\r\n"))) := by
  have h := @errorPage_iff ℕ site 4 ⟨false, 0, 0⟩ (visit (str "PUT / HTTP/1.1\r\n\r\n"))
    BAD_REQUEST (by decide +kernel) (by decide +kernel) (by decide +kernel) (.inl rfl) rfl
    (sitePages _) (by decide +kernel)
  exact h.2 (by decide +kernel)

/-- The response for a missing file announces the page for 404, and carries that
    for 500. -/
theorem missing_response :
    sent site 4 ⟨false, 0, 0⟩ (visit (str "GET /nope HTTP/1.1\r\n\r\n")) =
      str "HTTP/1.1 404 NOTFOUND\r\n" ++
      str "Content-Type: text/html\r\nContent-Length: 4\r\n" ++
      str "Content-Type: text/html\r\nContent-Length: 5\r\n\r\nerror" ∧
    ¬ ∃ ls, Announces ls (str "none")
      (sent site 4 ⟨false, 0, 0⟩ (visit (str "GET /nope HTTP/1.1\r\n\r\n"))) := by
  have hs : sent site 4 ⟨false, 0, 0⟩ (visit (str "GET /nope HTTP/1.1\r\n\r\n")) =
      str "HTTP/1.1 404 NOTFOUND\r\n" ++
      str "Content-Type: text/html\r\nContent-Length: 4\r\n" ++
      str "Content-Type: text/html\r\nContent-Length: 5\r\n\r\nerror" := by decide +kernel
  refine ⟨hs, ?_⟩
  rw [hs]
  refine @EndPoint.not_announces_two (str "error") _ NOT_FOUND 4 5 ⟨?_, by decide +kernel⟩ _
  intro l hl
  simp only [List.mem_cons, List.not_mem_nil, or_false] at hl
  rcases hl with rfl | rfl | rfl | rfl | rfl
  · exact EndPoint.headLine_status (by simp)
  · exact EndPoint.headLine_contentType
  · exact EndPoint.headLine_contentLength 4
  · exact EndPoint.headLine_contentType
  · exact EndPoint.headLine_contentLength 5

end MyHttpServer
