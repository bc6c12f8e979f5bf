/-
  The size of a file, on its way to the client.

  `stat` reports it as an `off_t`; `setFileSize` takes an `int`, and `sendfile` a
  `size_t`.  It gets through if it fits into the `int`.

  * `sizeSent_iff`: when the number in the header and the count are the size;
  * `size_iff`: for a file that is served, and for an error page.
-/
import MyHttpServer.Proof.Response

namespace MyHttpServer

/-! ## Numbers in decimal -/

theorem decimal_inj {n m : ℕ} : decimal n = decimal m ↔ n = m := by
  constructor
  · intro h
    rw [← digitsValue_decimal n, h, digitsValue_decimal]
  · rintro rfl; rfl

theorem stdToString_eq_decimal {z : ℤ} {n : ℕ} : stdToString z = decimal n ↔ z = n := by
  cases z with
  | ofNat m =>
    rw [stdToString, decimal_inj, Int.ofNat_eq_natCast, Nat.cast_inj]
  | negSucc m =>
    refine iff_of_false ?_ (by omega)
    intro h
    have hm : (45 : UInt8) ∈ decimal n := by
      rw [← h, stdToString]
      exact List.mem_append_left _ (by decide +kernel)
    exact absurd (mem_decimal hm).1 (by decide)

theorem toInt_eq_iff (n : ℕ) : toInt n = n ↔ n < 2 ^ 31 := by
  constructor
  · intro h
    have := (toInt_range n).2
    omega
  · exact toInt_of_lt

namespace EndPoint
variable {σ : Type} {M : Machine σ}

/-! ## The header and the count -/

/-- The count that `SendHttpResponse` gives to `sendfile`. -/
def sendCount (ep : EndPoint) : ℕ := toSizeT ep.resp.fileSize

theorem sendHttpResponse_count {ep : EndPoint} (h : ep.req.cgi = false) (os : Os σ)
    (tx : SendSide) : ∃ tx' : SendSide, (ep.sendHttpResponse os tx).2 =
      (tx'.sendfile (os.contentOf ep.resp.fd) ep.sendCount).2 := by
  rw [sendHttpResponse]
  simp only [h, Bool.false_eq_true, if_false]
  exact ⟨_, rfl⟩

/-- The last line of `header` says that the size is `size`, and so does the count
    for `sendfile`. -/
structure SizeSent (size : ℕ) (header : List Bytes) (count : ℕ) : Prop where
  written : header.getLast? = some (str "Content-Length: " ++ decimal size ++ LINE_END)
  given : count = size

/-- **A size gets through if it fits into an `int`.** -/
theorem sizeSent_iff {size : ℕ} {header : List Bytes} {count : ℕ}
    (hlast : header.getLast? = some (contentLengthLine (toInt size) ++ LINE_END))
    (hcount : count = toSizeT (toInt size)) : SizeSent size header count ↔ size < 2 ^ 31 := by
  rw [← toInt_eq_iff]
  constructor
  · rintro ⟨hw, -⟩
    rw [hlast, Option.some_inj, List.append_cancel_right_eq, contentLengthLine,
      List.append_cancel_left_eq] at hw
    exact stdToString_eq_decimal.1 hw
  · intro h
    refine ⟨?_, ?_⟩
    · rw [hlast, h]; rfl
    · rw [hcount, h, toSizeT_of_lt]
      have := (toInt_eq_iff size).1 h
      omega

/-- A file that is served has its size from `stat`. -/
theorem dispatch_found {ep : EndPoint} {p : Bytes} {cgi : Bool} {st : Inode} {os : Os σ}
    (hcgi : (dispatch M (ep.found p cgi st) os).1.req.cgi = false) :
    (dispatch M (ep.found p cgi st) os).1.req.path = p ∧
      (dispatch M (ep.found p cgi st) os).1.resp.fileSize = toInt st.size := by
  rw [dispatch_req] at hcgi ⊢
  rw [dispatch_file M hcgi]
  exact ⟨rfl, rfl⟩

theorem buildHttpResponse_size {ep : EndPoint} {os : Os σ} {st : Inode}
    (hok : (buildHttpResponse M ep os).1.resp.statusCode = OK)
    (hcgi : (buildHttpResponse M ep os).1.req.cgi = false)
    (hl : M.lookup os.disk (cStr (buildHttpResponse M ep os).1.req.path) = some st) :
    (buildHttpResponse M ep os).1.resp.fileSize = toInt st.size := by
  rw [buildHttpResponse_eq] at hok hcgi hl ⊢
  rw [(buildResponseHelper_frame _ _).2.1] at hok
  rw [buildResponseHelper_ok M hok] at hcgi hl ⊢
  have hfile : (chosen M ep os).1.withStatus.resp.fileSize =
      (chosen M ep os).1.resp.fileSize := rfl
  rw [hfile]
  change (chosen M ep os).1.req.cgi = false at hcgi
  change M.lookup os.disk (cStr (chosen M ep os).1.req.path) = some st at hl
  rcases locate_cases M ep os with ⟨hb, he⟩ | ⟨-, -, he⟩ | ⟨st', -, -, -, he⟩ |
    ⟨st', -, hst, -, he⟩ <;> simp only [chosen, he] at hok hcgi hl ⊢
  · rw [hb] at hok
    exact absurd hok ne_OK.2.2
  · exact absurd hok ne_OK.2.1
  · obtain ⟨hpath, hsize⟩ := dispatch_found hcgi
    rw [hpath] at hl
    rw [hsize, hl]; rfl
  · obtain ⟨hpath, hsize⟩ := dispatch_found hcgi
    rw [hpath, hst] at hl
    cases hl
    exact hsize

end EndPoint

/-! ## Files and error pages -/

section
variable {σ : Type} {M : Machine σ}

theorem served_size {sock : ℤ} {u : Unset} {w : World σ} {st : Inode}
    (hread : ((EndPoint.new sock u).recvHttpRequest w.rx).1.stop = false)
    (hok : (handlerRequest M sock u w).1.resp.statusCode = OK)
    (hcgi : (handlerRequest M sock u w).1.req.cgi = false)
    (hl : M.lookup w.os.disk (cStr (handlerRequest M sock u w).1.req.path) = some st) :
    (handlerRequest M sock u w).1.resp.fileSize = toInt st.size := by
  rw [handlerRequest_of_read M hread] at hok hcgi hl ⊢
  exact EndPoint.buildHttpResponse_size hok hcgi hl

/-- The number in the header that `Build200header` makes for a regular file, and
    the count that it is sent with. -/
theorem served_size_iff {sock : ℤ} {u : Unset} {w : World σ} {st : Inode}
    (hread : ((EndPoint.new sock u).recvHttpRequest w.rx).1.stop = false)
    (hok : (handlerRequest M sock u w).1.resp.statusCode = OK)
    (hcgi : (handlerRequest M sock u w).1.req.cgi = false)
    (hl : M.lookup w.os.disk (cStr (handlerRequest M sock u w).1.req.path) = some st) :
    EndPoint.SizeSent st.size (handlerRequest M sock u w).1.header200
      (handlerRequest M sock u w).1.sendCount ↔ st.size < 2 ^ 31 := by
  have hsize := served_size hread hok hcgi hl
  refine EndPoint.sizeSent_iff ?_ ?_
  · simp [EndPoint.header200, hcgi, hsize, EndPoint.contentLengthLine]
  · rw [EndPoint.sendCount, hsize]

/-- The same for `BuildErrorHeader` and a page that it opens. -/
theorem page_size_iff {path : Bytes} {ep : EndPoint} {os : Os σ} {st : Inode}
    (hl : M.lookup os.disk (cStr path) = some st)
    (hopen : 0 < (EndPoint.buildErrorHeader M path ep os).1.resp.fd) :
    EndPoint.SizeSent st.size (EndPoint.buildErrorHeader M path ep os).1.resp.responseHeader
      (EndPoint.buildErrorHeader M path ep os).1.sendCount ↔ st.size < 2 ^ 31 := by
  rcases EndPoint.buildErrorHeader_cases M path os with ⟨f, hf, -, h⟩ | ⟨-, f, -, h⟩ | ⟨-, h⟩
  · cases hl.symm.trans hf
    rw [h]
    exact EndPoint.sizeSent_iff (by simp [EndPoint.withPage]) rfl
  · rw [h] at hopen
    exact absurd hopen (lt_irrefl 0)
  · rw [h] at hopen
    exact absurd hopen (show ¬ (0 : ℤ) < -1 by decide)

/-- **The size of a file gets to the client exactly if it is below 2^31**, for a file
    that is served and for an error page.  (Of a regular file, this is the number of
    its bytes.) -/
theorem size_iff (M : Machine σ) :
    (∀ sock u w st, ((EndPoint.new sock u).recvHttpRequest w.rx).1.stop = false →
      let r := handlerRequest M sock u w
      r.1.resp.statusCode = OK → r.1.req.cgi = false →
      M.lookup w.os.disk (cStr r.1.req.path) = some st →
      (∃ (os : Os σ) (tx : SendSide),
        r.2.tx = (tx.sendfile (os.contentOf r.1.resp.fd) r.1.sendCount).2) ∧
      (EndPoint.SizeSent st.size r.1.header200 r.1.sendCount ↔ st.size < 2 ^ 31)) ∧
    ∀ path ep os st, M.lookup os.disk (cStr path) = some st →
      let ep' := (EndPoint.buildErrorHeader M path ep os).1
      0 < ep'.resp.fd →
      (EndPoint.SizeSent st.size ep'.resp.responseHeader ep'.sendCount ↔ st.size < 2 ^ 31) := by
  constructor
  · intro sock u w st hread r hok hcgi hl
    refine ⟨?_, served_size_iff hread hok hcgi hl⟩
    have hr := handlerRequest_of_read M hread
    obtain ⟨tx, htx⟩ := EndPoint.sendHttpResponse_count hcgi _ w.tx
    exact ⟨_, tx, by simp only [r, hr] at htx ⊢; exact htx⟩
  · intro path ep os st hl ep' hopen
    exact page_size_iff hl hopen

end

theorem size_iff_small :
    (let r := handlerRequest site 4 ⟨false, 0, 0⟩ (visit (str "GET / HTTP/1.1\r\n\r\n"))
    EndPoint.SizeSent 4 r.1.header200 r.1.sendCount) ∧
    let ep := (EndPoint.buildErrorHeader site PAGE_400 (.new 4 ⟨false, 0, 0⟩) (visit []).os).1
    EndPoint.SizeSent 3 ep.resp.responseHeader ep.sendCount := by
  have hpath : (handlerRequest site 4 ⟨false, 0, 0⟩
      (visit (str "GET / HTTP/1.1\r\n\r\n"))).1.req.path = str "wwwroot/index.html" := by
    decide +kernel
  have hcut : cStr (str "wwwroot/index.html") = str "wwwroot/index.html" := by decide +kernel
  have hopen : 0 < (EndPoint.buildErrorHeader site PAGE_400 (.new 4 ⟨false, 0, 0⟩)
      (visit []).os).1.resp.fd := by decide +kernel
  have hbad : cStr PAGE_400 = PAGE_400 ∧ PAGE_400 ≠ str "wwwroot/index.html" := by decide +kernel
  obtain ⟨hfile, hpage⟩ := size_iff site
  constructor
  · refine (hfile 4 ⟨false, 0, 0⟩ (visit (str "GET / HTTP/1.1\r\n\r\n")) (textFile (str "home"))
      (by decide +kernel) (by decide +kernel) (by decide +kernel) ?_).2.2 (by decide)
    rw [hpath, hcut]
    simp [site]
  · refine (hpage PAGE_400 (.new 4 ⟨false, 0, 0⟩) (visit []).os (textFile (str "bad")) ?_
      hopen).2 (by decide)
    rw [hbad.1]
    simp [site, hbad.2]

/-- A file of 2^31 bytes. -/
def bigFile : Inode := textFile (List.replicate (2 ^ 31) 0)

def bigSite : Machine ℕ where
  lookup _ _ := some bigFile
  program _ _ := none

/-- It is announced with a negative size. -/
theorem big_missized :
    let w := visit (str "GET /big.txt HTTP/1.1\r\n\r\n")
    let r := handlerRequest bigSite 4 ⟨false, 0, 0⟩ w
    r.1.resp.statusCode = OK ∧ r.1.req.cgi = false ∧ isReg bigFile.mode = true ∧
      bigSite.lookup w.os.disk (cStr r.1.req.path) = some bigFile ∧ bigFile.size = 2 ^ 31 ∧
      r.1.header200.getLast? = some (str "Content-Length: -2147483648\r\n") ∧
      r.1.sendCount = 2 ^ 64 - 2 ^ 31 ∧
      ¬ EndPoint.SizeSent bigFile.size r.1.header200 r.1.sendCount := by
  intro w r
  have hok : r.1.resp.statusCode = OK := by decide +kernel
  have hcgi : r.1.req.cgi = false := by decide +kernel
  have hbig : bigFile.size = 2 ^ 31 := List.length_replicate
  -- the content is too long to be looked at: only its length is
  have hsize : r.1.resp.fileSize = -2 ^ 31 := by
    have hs : r.1.resp.fileSize = toInt bigFile.size :=
      served_size (by decide +kernel) hok hcgi rfl
    rw [hs, hbig]
    decide +kernel
  have hcount : r.1.sendCount = 2 ^ 64 - 2 ^ 31 := by
    rw [EndPoint.sendCount, hsize]
    unfold toSizeT
    rfl
  have hline : str "Content-Length: " ++ stdToString (-2 ^ 31) ++ LINE_END =
      str "Content-Length: -2147483648\r\n" := by decide +kernel
  refine ⟨hok, hcgi, rfl, rfl, hbig, ?_, hcount, ?_⟩
  · rw [← hline]
    simp [EndPoint.header200, hcgi, hsize]
  · rintro ⟨-, hg⟩
    rw [hcount, hbig] at hg
    cases hg

end MyHttpServer
