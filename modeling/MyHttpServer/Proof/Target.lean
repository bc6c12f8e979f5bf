/-
  Which file a request reaches, and what is done with it.

  The home page of a directory is found in two ways: behind a final slash it is
  looked up by its own path, and otherwise the directory is, and the home page
  is taken without a look at what is there.  The flag for programs is set by
  the method POST and by the mode of the path that is looked up first.

  * `directory_same_iff`: when a directory is served alike with and without the
    final slash;
  * `execs_runnable_iff`: when only programs are handed to `execl`.
-/
import MyHttpServer.Proof.Cgi

namespace MyHttpServer

/-! ## Processes that differ in their traces -/

namespace Os
variable {σ : Type} {M : Machine σ} {os os' : Os σ}

/-- The two differ in their traces at most. -/
def Like (os os' : Os σ) : Prop := ∃ t, os' = { os with trace := t }

theorem Like.openFile (h : os.Like os') (path : Bytes) :
    (os'.openFile M path).1 = (os.openFile M path).1 ∧
      (os.openFile M path).2.Like (os'.openFile M path).2 := by
  obtain ⟨t, rfl⟩ := h
  have hcases := ({ os with trace := t } : Os σ).openFile_cases (M := M) path
  rcases os.openFile_cases (M := M) path with ⟨f, hr, hl, hf, he⟩ | ⟨hn, he⟩
  · rcases hcases with ⟨f', -, hl', -, he'⟩ | ⟨hn', -⟩
    · obtain rfl : f' = f := Option.some.inj (hl'.symm.trans hl)
      rw [he, he']
      exact ⟨rfl, _, rfl⟩
    · exact absurd (hn' hr f hl) (by simp [hf])
  · rcases hcases with ⟨f', hr', hl', hf', -⟩ | ⟨-, he'⟩
    · exact absurd (hn hr' f' hl') (by simp [hf'])
    · rw [he, he']
      exact ⟨rfl, _, rfl⟩

end Os

namespace EndPoint
variable {σ : Type} {M : Machine σ} {os : Os σ}

/-! ## The home page of a directory -/

/-- A request that is going to be served a page has one of two statuses. -/
theorem dispatch_file_status {ep : EndPoint} (h : ep.req.cgi = false) (os : Os σ) :
    (dispatch M ep os).1.resp.statusCode = OK ∨
      (dispatch M ep os).1.resp.statusCode = SERVER_ERROR := by
  rw [dispatch_file M h]
  simp only
  split
  · exact .inl rfl
  · exact .inr rfl

/-- It has the same one in two processes that differ in their traces. -/
theorem dispatch_like {ep ep' : EndPoint} {os' : Os σ} (h : ep.req.cgi = false)
    (h' : ep'.req.cgi = false) (hpath : ep'.req.path = ep.req.path) (hos : os.Like os') :
    (dispatch M ep' os').1.resp.statusCode = (dispatch M ep os).1.resp.statusCode := by
  obtain ⟨-, h1⟩ := hos.openFile (M := M) ep.req.path
  obtain ⟨h2, -⟩ := h1.openFile (M := M) ep.req.path
  rw [dispatch_file M h, dispatch_file M h', hpath]
  simp only [h2]

theorem servedPath_of_no_slash {path : Bytes} (h : (WWW_ROOT ++ path).getLast? ≠ some SLASH) :
    servedPath path = WWW_ROOT ++ path := by
  rw [servedPath, if_neg h]

/-- Behind a final slash the path of the home page is looked up. -/
theorem servedPath_slash (path : Bytes) :
    servedPath (path ++ [SLASH]) = homePath (WWW_ROOT ++ path) := by
  have hs : str "/" = [SLASH] := by decide
  have hl : (WWW_ROOT ++ (path ++ [SLASH])).getLast? = some SLASH := by
    rw [← List.append_assoc, List.getLast?_append]
    rfl
  rw [servedPath, if_pos hl, homePath, hs]
  simp

/-- What `BuildHttpResponse` decides: the status, whether a program is run, and
    the path that is served. -/
def outcome (M : Machine σ) (ep : EndPoint) (os : Os σ) : ℤ × Bool × Bytes :=
  let r := (buildHttpResponse M ep os).1
  (r.resp.statusCode, r.req.cgi, r.req.path)

theorem outcome_missing {ep ep' : EndPoint} {os' : Os σ} (h : locate M ep os = .error (ep', os')) :
    outcome M ep os = (ep'.resp.statusCode, ep'.req.cgi, ep'.req.path) := by
  rw [outcome, buildHttpResponse_eq, (buildResponseHelper_frame _ _).1,
    (buildResponseHelper_frame _ _).2.1, chosen, h]

theorem outcome_found {ep ep' : EndPoint} {os' : Os σ} (h : locate M ep os = .ok (ep', os')) :
    outcome M ep os =
      ((dispatch M ep' os').1.resp.statusCode, ep'.req.cgi, ep'.req.path) := by
  rw [outcome, buildHttpResponse_eq, (buildResponseHelper_frame _ _).1,
    (buildResponseHelper_frame _ _).2.1, chosen, h]
  simp only [dispatch_req]

/-- **A directory is served alike with and without the final slash exactly if
    its home page is an ordinary file.** -/
theorem directory_same_iff {ep ep' : EndPoint} {d : Inode}
    (hstatus : ep.resp.statusCode ≠ BAD_REQUEST) (hstatus' : ep'.resp.statusCode ≠ BAD_REQUEST)
    (hcgi : ep.req.cgi = false) (hcgi' : ep'.req.cgi = false)
    (hslash : (WWW_ROOT ++ ep.req.path).getLast? ≠ some SLASH)
    (hpath : ep'.req.path = ep.req.path ++ [SLASH])
    (hl : M.lookup os.disk (cStr (WWW_ROOT ++ ep.req.path)) = some d)
    (hd : isDir d.mode = true) :
    outcome M ep os = outcome M ep' os ↔
      ∃ f, M.lookup os.disk (cStr (homePath (WWW_ROOT ++ ep.req.path))) = some f ∧
        isDir f.mode = false ∧ executable f.mode = false := by
  have hserved := servedPath_of_no_slash hslash
  have hserved' := servedPath_slash ep.req.path
  rw [← hpath] at hserved'
  set home := homePath (WWW_ROOT ++ ep.req.path)
  -- without the slash: the home page, whatever is there
  have hdir := locate_dir hstatus (by rwa [hserved]) hd
  rw [hserved, hcgi] at hdir
  rw [outcome_found hdir]
  cases hf : M.lookup os.disk (cStr home) with
  | none =>
    have hmiss := locate_missing hstatus' (by rwa [hserved'])
    rw [outcome_missing hmiss]
    refine iff_of_false ?_ (by simp)
    intro h
    have h404 := congrArg Prod.fst h
    simp only at h404
    rcases @dispatch_file_status _ M (ep.found home false _) rfl _ with h2 | h2
    · exact absurd (h2.symm.trans h404) (by decide)
    · exact absurd (h2.symm.trans h404) (by decide)
  | some f =>
    cases hfd : isDir f.mode with
    | true =>
      have hdir' := locate_dir hstatus' (by rwa [hserved']) hfd
      rw [hserved'] at hdir'
      rw [outcome_found hdir']
      refine iff_of_false ?_ (by simp [hfd])
      intro h
      have hpath : home.length = (homePath home).length :=
        congrArg (fun r : ℤ × Bool × Bytes => r.2.2.length) h
      rw [homePath, List.length_append, List.length_append] at hpath
      have hlen : 0 < (str "/").length := by decide
      omega
    | false =>
      have hfile := locate_file hstatus' (by rwa [hserved']) hfd
      rw [hserved', hcgi', Bool.false_or] at hfile
      rw [outcome_found hfile]
      cases hx : executable f.mode with
      | true =>
        refine iff_of_false ?_ (by simp [hx])
        intro h
        cases congrArg (fun r : ℤ × Bool × Bytes => r.2.1) h
      | false =>
        refine iff_of_true ?_ ⟨f, rfl, hfd, hx⟩
        rw [Prod.mk.injEq]
        exact ⟨dispatch_like rfl rfl rfl ⟨_, rfl⟩, rfl⟩

end EndPoint

/-- A directory. -/
def directory : Inode :=
  { mode := 0o040755, size := 4096, content := [], readable := true,
    size_eq := fun h => absurd h (by decide) }

/-- A site with the directory `docs`, and in it the home page `page`, if any. -/
def docs (page : Option Inode) : Machine ℕ where
  lookup _ p :=
    if p = str "wwwroot/docs" then some directory
    else if p = str "wwwroot/docs/index.html" then page
    else none
  program _ _ := none

/-- The end point that has read this request. -/
def asking (line : String) : EndPoint := EndPoint.parsed (.new 4 ⟨false, 0, 0⟩) (str line)

theorem directory_same_iff_page :
    EndPoint.outcome (docs (some (textFile (str "hi")))) (asking "GET /docs HTTP/1.1")
        (visit []).os =
      EndPoint.outcome (docs (some (textFile (str "hi")))) (asking "GET /docs/ HTTP/1.1")
        (visit []).os :=
  (EndPoint.directory_same_iff (d := directory) (by decide +kernel) (by decide +kernel)
    (by decide +kernel) (by decide +kernel) (by decide +kernel) (by decide +kernel) (by rfl)
    (by decide +kernel)).2 ⟨textFile (str "hi"), by rfl, by decide +kernel, by decide +kernel⟩

/-- Without a home page the status is 500 in one case and 404 in the other. -/
theorem docs_differ :
    isDir directory.mode = true ∧
    (docs none).lookup (visit []).os.disk (str "wwwroot/docs") = some directory ∧
    EndPoint.outcome (docs none) (asking "GET /docs HTTP/1.1") (visit []).os =
      (SERVER_ERROR, false, str "wwwroot/docs/index.html") ∧
    EndPoint.outcome (docs none) (asking "GET /docs/ HTTP/1.1") (visit []).os =
      (NOT_FOUND, false, str "wwwroot/docs/index.html") :=
  ⟨by decide +kernel, by rfl, by decide +kernel, by decide +kernel⟩

/-! ## What is handed to `execl` -/

/-- The path that a call hands to `execl`. -/
def SysCall.handed : SysCall → Option Bytes
  | .exec p _ => some p
  | _ => none

/-- The paths that the calls of `t` hand to `execl`, in order. -/
def execPaths (t : List SysCall) : List Bytes := t.filterMap SysCall.handed

theorem pathless_handed : Pathless (·.handed = none) := by
  rintro (_ | _ | _ | _ | _ | _ | _) h <;> first | rfl | cases h

section
variable {σ : Type} {M : Machine σ} {os os' : Os σ}

theorem execPaths_of_calls (h : Calls (·.handed = none) os os') :
    execPaths os'.trace = execPaths os.trace := by
  obtain ⟨cs, ht, hc⟩ := h
  rw [ht, execPaths, List.filterMap_append, List.filterMap_eq_nil_iff.2 hc, List.append_nil,
    execPaths]

theorem runChild_execs (path : Bytes) (inp : CgiInput) (os : Os σ) :
    execPaths (os.runChild M path inp).2.trace = execPaths os.trace ++ [cStr path] := by
  unfold Os.runChild
  cases M.program os.disk (cStr path) <;> simp [execPaths, SysCall.handed, Os.note]

namespace EndPoint

/-- One call of `CgiProcess` hands its path over once, if it gets its child. -/
theorem cgiRun_execs (path : Bytes) (inp : CgiInput) (os : Os σ) :
    execPaths (cgiRun M path inp os).2.2.trace = execPaths os.trace ++
        (if (childStarts os.refusals).1 then [cStr path] else []) ∧
      (cgiRun M path inp os).2.2.refusals = (childStarts os.refusals).2 := by
  constructor
  swap
  · cases hd : (cgiRun M path inp os).2 with
    | mk out os' =>
      have h := cgiRun_done (M := M) path inp os
      rw [hd] at h
      cases h <;> assumption
  unfold cgiRun
  rcases hp1 : os.pipe with ⟨_ | input, os1⟩
  · obtain ⟨-, -, hn1⟩ := Inert.pipe hp1
    have hs : (childStarts os.refusals).1 = false := by rw [childStarts, if_pos (hn1.1 rfl)]
    rw [hs]
    simpa using execPaths_of_calls (Calls.pipe pathless_handed hp1)
  obtain ⟨-, hr1, hn1⟩ := Inert.pipe hp1
  have hf1 : os.refusals.headD false ≠ true := fun h => by cases hn1.2 h
  have hc1 := Calls.pipe pathless_handed hp1
  rcases hp2 : os1.pipe with ⟨_ | output, os2⟩
  · obtain ⟨-, -, hn2⟩ := Inert.pipe hp2
    have hs : (childStarts os.refusals).1 = false := by
      rw [childStarts, if_neg hf1, ← hr1, if_pos (hn2.1 rfl)]
    simp only [hp2]
    rw [hs]
    simpa using execPaths_of_calls (hc1.trans (Calls.pipe pathless_handed hp2))
  obtain ⟨-, hr2, hn2⟩ := Inert.pipe hp2
  have hf2 : os1.refusals.headD false ≠ true := fun h => by cases hn2.2 h
  have hc2 := hc1.trans (Calls.pipe pathless_handed hp2)
  rcases hp3 : os2.fork with ⟨started, os3⟩
  obtain ⟨-, -, hn3⟩ := Inert.fork hp3
  have hs : (childStarts os.refusals).1 = started := by
    rw [childStarts, if_neg hf1, ← hr1, if_neg hf2, ← hr2, hn3]
  have hc3 := hc2.trans (Calls.fork pathless_handed hp3)
  cases started with
  | false =>
    simp only [hp2, hp3]
    rw [hs]
    simpa using execPaths_of_calls hc3
  | true =>
    simp only [hp2, hp3]
    rw [hs, if_pos rfl]
    have hbefore := execPaths_of_calls (hc3.trans
      ((Calls.close pathless_handed os3 input.1).trans (Calls.close pathless_handed _ output.2)))
    have hchild := runChild_execs (M := M) path inp ((os3.close input.1).close output.2)
    rw [hbefore] at hchild
    rw [← hchild]
    exact execPaths_of_calls ((Calls.waitpid pathless_handed _ _).trans
      ((Calls.close pathless_handed _ _).trans (Calls.close pathless_handed _ _)))

/-- The kernel is going to grant one of two calls of `CgiProcess` its two pipes
    and its child. -/
def ChildStarts (refusals : List Bool) : Prop :=
  (childStarts refusals).1 = true ∨ (childStarts (childStarts refusals).2).1 = true

/-- A request for a program hands its path over, if any of its two calls gets a
    child, and no other path. -/
theorem dispatch_execs {ep : EndPoint} (h : ep.req.cgi = true) (os : Os σ) :
    ∃ ps, execPaths (dispatch M ep os).2.trace = execPaths os.trace ++ ps ∧
      ∀ p, p ∈ ps ↔ p = cStr ep.req.path ∧ ChildStarts os.refusals := by
  rw [dispatch_cgi M h]
  obtain ⟨h1, hr⟩ := cgiRun_execs (M := M) ep.req.path ep.cgiInput os
  set r := cgiRun M ep.req.path ep.cgiInput os
  obtain ⟨h2, -⟩ := cgiRun_execs (M := M) ep.req.path ep.cgiInput r.2.2
  refine ⟨_, by rw [h2, h1, hr, List.append_assoc], fun p => ?_⟩
  rw [ChildStarts, List.mem_append]
  split <;> split <;> simp_all

theorem openFile_execs (path : Bytes) (os : Os σ) :
    execPaths (os.openFile M path).2.trace = execPaths os.trace := by
  rcases os.openFile_cases (M := M) path with ⟨f, -, -, -, he⟩ | ⟨-, he⟩ <;>
    simp [he, execPaths, SysCall.handed]

theorem buildResponseHelper_execs (ep : EndPoint) (os : Os σ) :
    execPaths (buildResponseHelper M ep os).2.trace = execPaths os.trace := by
  refine buildResponseHelper_induct M (P := fun _ os' => execPaths os'.trace =
    execPaths os.trace) rfl ?_
  intro path _ e os' h
  rw [← h]
  rcases buildErrorHeader_cases M path os' with ⟨f, -, -, he⟩ | ⟨-, f, -, he⟩ | ⟨-, he⟩ <;>
    simp [he, execPaths, SysCall.handed, Os.note]

end EndPoint

/-- A program: no directory, and its mode has an execute bit. -/
def Runnable (M : Machine σ) (disk : σ) (p : Bytes) : Prop :=
  ∃ f, M.lookup disk p = some f ∧ isDir f.mode = false ∧ EndPoint.executable f.mode = true

/-- All paths that are handed to `execl` between `os` and `os'` name programs on
    the disk of `os`. -/
def HandsPrograms (M : Machine σ) (os os' : Os σ) : Prop :=
  ∃ ps, execPaths os'.trace = execPaths os.trace ++ ps ∧ ∀ p ∈ ps, Runnable M os.disk p

theorem handsPrograms_of_eq (h : execPaths os'.trace = execPaths os.trace) :
    HandsPrograms M os os' := ⟨[], by simp [h], by simp⟩

/-- A file that has been found is handed over if it is marked as a program. -/
theorem handsPrograms_dispatch {os₁ : Os σ} (ep : EndPoint)
    (htrace : execPaths os₁.trace = execPaths os.trace) (hr : os₁.refusals = os.refusals)
    (h' : execPaths os'.trace = execPaths (EndPoint.dispatch M ep os₁).2.trace) :
    HandsPrograms M os os' ↔ (ep.req.cgi = true → EndPoint.ChildStarts os.refusals →
      Runnable M os.disk (cStr ep.req.path)) := by
  cases hc : ep.req.cgi with
  | true =>
    obtain ⟨ps, ht, hps⟩ := EndPoint.dispatch_execs (M := M) hc os₁
    rw [htrace, ← h'] at ht
    rw [hr] at hps
    constructor
    · rintro ⟨qs, hq, hall⟩ - hstarts
      rw [ht, List.append_cancel_left_eq] at hq
      exact hall _ (hq ▸ (hps _).2 ⟨rfl, hstarts⟩)
    · intro hrun
      refine ⟨ps, ht, fun p hp => ?_⟩
      obtain ⟨rfl, hstarts⟩ := (hps p).1 hp
      exact hrun rfl hstarts
  | false =>
    refine iff_of_true (handsPrograms_of_eq ?_) (by simp)
    rw [h', EndPoint.dispatch_file M hc]
    exact (EndPoint.openFile_execs _ _).trans ((EndPoint.openFile_execs _ _).trans htrace)

variable {sock : ℤ} {u : Unset} {w : World σ}

/-- Behind `END` nothing is handed over. -/
theorem answer_execs (hread : ((EndPoint.new sock u).recvHttpRequest w.rx).1.stop = false) :
    execPaths (handlerRequest M sock u w).2.os.trace =
      execPaths (EndPoint.chosen M ((EndPoint.new sock u).recvHttpRequest w.rx).1
        w.os).2.trace := by
  rw [handlerRequest_of_read M hread, EndPoint.buildHttpResponse_eq]
  have hbuild := EndPoint.buildResponseHelper_execs (M := M)
    (EndPoint.chosen M ((EndPoint.new sock u).recvHttpRequest w.rx).1 w.os).1
    (EndPoint.chosen M ((EndPoint.new sock u).recvHttpRequest w.rx).1 w.os).2
  rw [← hbuild]
  exact execPaths_of_calls ((EndPoint.sendHttpResponse_calls pathless_handed _ _ _).trans
    (Calls.close pathless_handed _ sock))

/-- **Only programs are handed to `execl` exactly if** the method is not POST,
    or no call of `CgiProcess` gets a child, or the path in question, if its file
    exists at all, names a program. -/
theorem execs_runnable_iff (M : Machine σ) (sock : ℤ) (u : Unset) (w : World σ) :
    let ep := ((EndPoint.new sock u).recvHttpRequest w.rx).1
    HandsPrograms M w.os (handlerRequest M sock u w).2.os ↔
      ep.stop = true ∨ ep.req.method ≠ POST ∨ ¬ EndPoint.ChildStarts w.os.refusals ∨
        ∀ path, EndPoint.targetPath M w.os ep.req.path = some path →
          Runnable M w.os.disk (cStr path) := by
  intro ep
  cases hstop : ep.stop with
  | true =>
    refine iff_of_true (handsPrograms_of_eq ?_) (.inl rfl)
    rw [handlerRequest_of_stop M hstop]
    exact execPaths_of_calls (Calls.close pathless_handed w.os sock)
  | false =>
    obtain ⟨-, line, he⟩ := recvHttpRequest_parsed hstop
    have hep : ep = EndPoint.parsed (.new sock u) line := he
    have hpost : ep.req.cgi = true ↔ ep.req.method = POST := by
      rw [hep, EndPoint.parsed_new]
      exact EndPoint.requestOf_cgi line
    have hans := answer_execs (M := M) hstop
    have hnote (os : Os σ) (p : Bytes) :
        execPaths (os.note (.stat p)).trace = execPaths os.trace := by
      simp [execPaths, SysCall.handed, Os.note]
    simp only [Bool.false_eq_true, false_or]
    rcases EndPoint.locate_cases M ep w.os with ⟨hb, hl⟩ | ⟨hb, hf, hl⟩ | ⟨st, hb, hf, hd, hl⟩ |
      ⟨st, hb, hf, hd, hl⟩
    · refine iff_of_true (handsPrograms_of_eq ?_) (.inl ?_)
      · rw [hans, EndPoint.chosen, hl]
      · intro hm
        rw [hep, EndPoint.parsed_new] at hb hm
        have hcode : EndPoint.codeOf line = OK := if_pos (.inr hm)
        exact absurd (hcode.symm.trans hb) (by decide)
    · refine iff_of_true (handsPrograms_of_eq ?_) (.inr (.inr ?_))
      · rw [hans, EndPoint.chosen, hl]
        exact hnote _ _
      · rw [EndPoint.targetPath, hf]
        rintro path ⟨⟩
    · rw [EndPoint.chosen, hl] at hans
      rw [handsPrograms_dispatch _ ((hnote _ _).trans (hnote _ _)) rfl hans,
        EndPoint.targetPath_eq hf, if_pos hd]
      simp only [Option.some.injEq, forall_eq', EndPoint.found_path, EndPoint.found_cgi]
      rw [hpost, imp_iff_not_or, imp_iff_not_or]
    · rw [EndPoint.chosen, hl] at hans
      rw [handsPrograms_dispatch _ (hnote _ _) rfl hans, EndPoint.targetPath_eq hf,
        if_neg (by simp [hd])]
      simp only [Option.some.injEq, forall_eq', EndPoint.found_path, EndPoint.found_cgi]
      have hx : EndPoint.executable st.mode = true →
          Runnable M w.os.disk (cStr (EndPoint.servedPath ep.req.path)) :=
        fun hx => ⟨st, hf, hd, hx⟩
      rw [Bool.or_eq_true, hpost, or_imp, and_iff_left fun h _ => hx h, imp_iff_not_or,
        imp_iff_not_or]

end

/-- A POST hands a text file to `execl`, two times. -/
theorem page_handed :
    let w := visit (str "POST / HTTP/1.1\r\n\r\n")
    let r := handlerRequest site 4 ⟨false, 0, 0⟩ w
    execPaths r.2.os.trace = [str "wwwroot/index.html", str "wwwroot/index.html"] ∧
      EndPoint.executable (textFile (str "home")).mode = false ∧
      ¬ HandsPrograms site w.os r.2.os := by
  have hpaths : execPaths (handlerRequest site 4 ⟨false, 0, 0⟩
      (visit (str "POST / HTTP/1.1\r\n\r\n"))).2.os.trace =
      [str "wwwroot/index.html", str "wwwroot/index.html"] := by decide +kernel
  refine ⟨hpaths, by decide +kernel, ?_⟩
  rintro ⟨ps, hp, hall⟩
  have hps : ps = [str "wwwroot/index.html", str "wwwroot/index.html"] :=
    (List.nil_append ps).symm.trans (hp.symm.trans hpaths)
  obtain ⟨f, hf, -, hx⟩ := hall (str "wwwroot/index.html") (by simp [hps])
  obtain rfl : f = textFile (str "home") := (Option.some.inj hf).symm
  revert hx
  decide +kernel

end MyHttpServer
