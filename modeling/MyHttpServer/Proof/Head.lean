/-
  The head of a response, decoded.

  On a socket that accepts everything, what is in front of the first empty line
  is the status line and the header lines, each a field made of a name, `": "`
  and a value that the server, not the client, has written.

  * `dispatch_status`, `chosen_status`: there are four statuses;
  * `buildResponseHelper_fields`: what the header lines are;
  * `head_decodes`: the head that was sent, decoded.
-/
import MyHttpServer.Proof.Response

namespace MyHttpServer

/-! ## Statuses -/

/-- The statuses of the server. -/
def statuses : List ℤ := [OK, BAD_REQUEST, NOT_FOUND, SERVER_ERROR]

theorem codeAnaly_ne_nil {code : ℤ} (h : code ∈ statuses) : codeAnaly code ≠ [] := by
  simp only [statuses, List.mem_cons, List.not_mem_nil, or_false] at h
  rcases h with rfl | rfl | rfl | rfl <;> decide +kernel

namespace EndPoint
variable {σ : Type} (M : Machine σ)

theorem cgiCode_status (r : Option ℕ) : cgiCode r ∈ statuses := by
  cases r with
  | none => simp [cgiCode, statuses]
  | some status => simp only [cgiCode]; split_ifs <;> simp [statuses]

theorem cgiRun_status (path : Bytes) (inp : CgiInput) (os : Os σ) :
    (cgiRun M path inp os).1 ∈ statuses := by
  unfold cgiRun
  rcases os.pipe with ⟨_ | input, os⟩
  · simp [statuses]
  rcases hp : os.pipe with ⟨_ | output, os'⟩
  · simp [hp, statuses]
  rcases hf : os'.fork with ⟨_ | _, os''⟩
  · simp [hp, hf, statuses]
  · simp only [hp, hf]
    exact cgiCode_status _

theorem dispatch_status (ep : EndPoint) (os : Os σ) :
    (dispatch M ep os).1.resp.statusCode ∈ statuses := by
  cases hc : ep.req.cgi with
  | true =>
    rw [dispatch_cgi M hc]
    exact cgiRun_status M _ _ _
  | false =>
    rw [dispatch_file M hc]
    show (if _ then OK else SERVER_ERROR) ∈ statuses
    split_ifs <;> simp [statuses]

/-- **Whatever fails, the status is one of the four** at `END`. -/
theorem chosen_status (ep : EndPoint) (os : Os σ) :
    (chosen M ep os).1.resp.statusCode ∈ statuses := by
  rcases locate_cases M ep os with ⟨hb, h⟩ | ⟨-, -, h⟩ | ⟨st, -, -, -, h⟩ | ⟨st, -, -, -, h⟩
  · simp [chosen, h, hb, statuses]
  · simp [chosen, h, statuses]
  · rw [chosen, h]
    exact dispatch_status M _ _
  · rw [chosen, h]
    exact dispatch_status M _ _

end EndPoint

/-! ## Header fields -/

/-- The line of a field, without its end. -/
def fieldLine (f : Bytes × Bytes) : Bytes := f.1 ++ SEP ++ f.2

/-- The two kinds of fields that the server writes. -/
inductive ServerField : Bytes × Bytes → Prop
  | contentType : ServerField (str "Content-Type", str "text/html")
  | contentLength (n : ℤ) : ServerField (str "Content-Length", stdToString n)

theorem fieldLine_contentType :
    fieldLine (str "Content-Type", str "text/html") = EndPoint.contentTypeLine := by
  decide +kernel

theorem fieldLine_contentLength (n : ℤ) :
    fieldLine (str "Content-Length", stdToString n) = EndPoint.contentLengthLine n := by
  have h : str "Content-Length" ++ SEP = str "Content-Length: " := by decide +kernel
  rw [fieldLine, EndPoint.contentLengthLine, h]

/-- A field that the server writes is one line, whatever its value. -/
theorem ServerField.headLine {f : Bytes × Bytes} (h : ServerField f) :
    Lines.HeadLine CR LF (fieldLine f) := by
  cases h with
  | contentType =>
    rw [fieldLine_contentType]
    exact EndPoint.headLine_contentType
  | contentLength n =>
    rw [fieldLine_contentLength]
    exact EndPoint.headLine_contentLength n

namespace EndPoint
variable {σ : Type} (M : Machine σ)

/-- An end point whose head is made of the status line for `code` and of the
    fields `fs`. -/
def HasFields (ep : EndPoint) (code : ℤ) (fs : List (Bytes × Bytes)) : Prop :=
  ep.HasHead code (fs.map fieldLine) ∧ ∀ f ∈ fs, ServerField f

theorem HasFields.page {ep : EndPoint} {code : ℤ} {fs : List (Bytes × Bytes)}
    (h : ep.HasFields code fs) (path : Bytes) (os : Os σ) :
    ∃ fs', (buildErrorHeader M path ep os).1.HasFields code fs' := by
  obtain ⟨hh, hf⟩ := h
  rcases buildErrorHeader_cases M path os with ⟨f, -, -, he⟩ | ⟨-, f, -, he⟩ | ⟨-, he⟩
  · refine ⟨fs ++ [(str "Content-Type", str "text/html"),
      (str "Content-Length", stdToString (toInt f.size))], ?_, ?_⟩
    · rw [he, List.map_append, List.map_cons, List.map_cons, fieldLine_contentType,
        fieldLine_contentLength]
      exact hh.withPage _ f
    · intro g hg
      simp only [List.mem_append, List.mem_cons, List.not_mem_nil, or_false] at hg
      rcases hg with hg | rfl | rfl
      · exact hf g hg
      · exact .contentType
      · exact .contentLength _
  · exact ⟨fs, by rw [he]; exact hh.withFd 0, hf⟩
  · exact ⟨fs, by rw [he]; exact hh.withFd (-1), hf⟩

/-- **All header lines are fields that the server has written.** -/
theorem buildResponseHelper_fields {ep : EndPoint} (h : ep.resp.responseHeader = [])
    (os : Os σ) :
    ∃ fs, (buildResponseHelper M ep os).1.HasFields ep.resp.statusCode fs := by
  refine buildResponseHelper_induct M (P := fun e _ => ∃ fs, e.HasFields ep.resp.statusCode fs)
    ⟨[], hasHead_withStatus h, by simp⟩ ?_
  rintro path - e os' ⟨fs, hfs⟩
  exact hfs.page M path os'

end EndPoint

/-! ## The head on the wire -/

section
variable {σ : Type} {M : Machine σ} {sock : ℤ} {u : Unset} {w : World σ}

/-- **The head of a response can be decoded**: the status is one of the four, and
    the bytes up to the first empty line are those of the status line and of the
    lines of `m_response_header`, in order. -/
theorem head_decodes (hread : ((EndPoint.new sock u).recvHttpRequest w.rx).1.stop = false)
    (hfull : w.tx.plan = []) :
    let code := (requested M sock u w).1.resp.statusCode
    let ep := (handlerRequest M sock u w).1
    code ∈ statuses ∧ codeAnaly code ≠ [] ∧
    ∃ fs : List (Bytes × Bytes), (∀ f ∈ fs, ServerField f) ∧
      ep.resp.responseHeader = fs.map (fun f => f.1 ++ SEP ++ f.2 ++ LINE_END) ∧
      ∃ body, Lines.decode CR LF (sent M sock u w) =
        some ((HTTP_VERSION ++ str " " ++ stdToString code ++ str " " ++ codeAnaly code) ::
          fs.map (fun f => f.1 ++ SEP ++ f.2), body) := by
  intro code ep
  obtain ⟨hep, hnil, -, body, hsent, -⟩ := sent_of_read (M := M) hread hfull
  have hcode : code ∈ statuses := EndPoint.chosen_status M _ _
  obtain ⟨fs, hh, hf⟩ := EndPoint.buildResponseHelper_fields M hnil (requested M sock u w).2
  rw [← hep] at hh hsent
  refine ⟨hcode, codeAnaly_ne_nil hcode, fs, hf, ?_, body, ?_⟩
  · rw [hh.responseHeader, List.map_map]
    rfl
  · have hl : ∀ l ∈ fs.map fieldLine, Lines.HeadLine CR LF l := by
      intro l hm
      obtain ⟨f, hfm, rfl⟩ := List.mem_map.1 hm
      exact (hf f hfm).headLine
    rw [hsent]
    exact (hh.head hcode hl body).decode CR_ne_LF (by simp)

end

/-- The head of the answer to a request for a missing file has lines for two pages. -/
theorem head_decodes_missing :
    let w := visit (str "GET /none HTTP/1.1\r\n\r\n")
    let code := (requested site 4 ⟨false, 0, 0⟩ w).1.resp.statusCode
    let ep := (handlerRequest site 4 ⟨false, 0, 0⟩ w).1
    code ∈ statuses ∧ codeAnaly code ≠ [] ∧
    ep.resp.responseHeader.length = 4 ∧
    ∃ fs : List (Bytes × Bytes), (∀ f ∈ fs, ServerField f) ∧
      ep.resp.responseHeader = fs.map (fun f => f.1 ++ SEP ++ f.2 ++ LINE_END) ∧
      ∃ body, Lines.decode CR LF (sent site 4 ⟨false, 0, 0⟩ w) =
        some ((HTTP_VERSION ++ str " " ++ stdToString code ++ str " " ++ codeAnaly code) ::
          fs.map (fun f => f.1 ++ SEP ++ f.2), body) := by
  intro w code ep
  obtain ⟨hcode, htext, hfields⟩ := @head_decodes _ site 4 ⟨false, 0, 0⟩ w (by decide +kernel) rfl
  exact ⟨hcode, htext, by decide +kernel, hfields⟩

end MyHttpServer
