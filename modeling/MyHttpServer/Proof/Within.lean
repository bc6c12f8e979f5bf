/-
  Where the paths lead that a request makes the server use.

  The path asked for is written behind `wwwroot` as it comes.  A `NUL` in it
  ends what the system calls read, and its `..` segments are followed.

  * `within_iff`: the paths that are used lead to `wwwroot` or below it exactly
    if the path asked for does, and how that shows in its normal form;
  * `within_file`: the files found by such paths, in a tree without links.
-/
import MyHttpServer.Lib.Path
import MyHttpServer.Proof.Response
import MyHttpServer.Proof.Trace

namespace MyHttpServer

open Path EndPoint

/-! ## Segments -/

/-- The segment that is written as `s`. -/
def segmentOf (s : Bytes) : Seg Bytes :=
  if s = [] ∨ s = [DOT] then .here else if s = [DOT, DOT] then .up else .name s

/-- The segments of a relative path. -/
def segments (p : Bytes) : List (Seg Bytes) := (p.splitOn SLASH).map segmentOf

theorem segments_slash (p q : Bytes) :
    segments (p ++ SLASH :: q) = segments p ++ segments q := by
  simp [segments, List.splitOn_append_cons_self]

theorem segments_homePage : segments HOME_PAGE = [.name HOME_PAGE] := by decide +kernel

/-- The path `p` leads, from the working directory `cwd`, to `wwwroot` or below
    it. -/
def Within (cwd : List Bytes) (p : Bytes) : Prop := WWW_ROOT :: cwd <:+ resolve cwd (segments p)

instance (cwd : List Bytes) (p : Bytes) : Decidable (Within cwd p) :=
  inferInstanceAs (Decidable (_ <:+ _))

/-- In the normal form of the path, all steps up are taken back: behind them
    come the names of the directories that they have left, and `wwwroot`. -/
def ComesBack (cwd : List Bytes) (p : Bytes) : Prop :=
  WWW_ROOT :: cwd.take (norm (segments p)).ups <:+ (norm (segments p)).names

instance (cwd : List Bytes) (p : Bytes) : Decidable (ComesBack cwd p) :=
  inferInstanceAs (Decidable (_ <:+ _))

section
variable {cwd : List Bytes}

theorem within_iff_comesBack (p : Bytes) : Within cwd p ↔ ComesBack cwd p := by
  rw [Within, ComesBack, resolve_eq, Norm.within_iff]

/-! ## The two paths -/

theorem cStr_append_of_mem {p : Bytes} (h : 0 ∈ p) (q : Bytes) : cStr (p ++ q) = cStr p := by
  induction p with
  | nil => cases h
  | cons c p ih =>
    by_cases hc : c = 0
    · simp [cStr, hc]
    · have hp : 0 ∈ p := by
        rcases List.mem_cons.1 h with rfl | hp
        · exact absurd rfl hc
        · exact hp
      simpa [cStr, hc] using ih hp

theorem cStr_append_of_notMem {p : Bytes} (h : 0 ∉ p) (q : Bytes) :
    cStr (p ++ q) = p ++ cStr q := by
  refine List.takeWhile_append_of_pos fun c hc => ?_
  simp only [decide_not, Bool.not_eq_eq_eq_not, Bool.not_true, decide_eq_false_iff_not]
  rintro rfl
  exact h hc

/-- A path that leads below `wwwroot` with its home page, or a slash, behind it
    does so without. -/
theorem within_slash (p : Bytes) {q : Bytes} (hq : q = [] ∨ q = HOME_PAGE) :
    Within cwd (cStr (p ++ SLASH :: q)) ↔ Within cwd (cStr p) := by
  by_cases h : 0 ∈ p
  · rw [cStr_append_of_mem h]
  have hp : cStr p = p := by
    have := cStr_append_of_notMem h []
    rwa [show cStr [] = [] from rfl, List.append_nil] at this
  rw [cStr_append_of_notMem h, hp]
  rcases hq with rfl | rfl
  · have hs : cStr [SLASH] = SLASH :: [] := by decide
    rw [hs, Within, segments_slash, resolve_append]
    rfl
  · have hs : cStr (SLASH :: HOME_PAGE) = SLASH :: HOME_PAGE := by decide +kernel
    have hne : WWW_ROOT ≠ HOME_PAGE := by decide +kernel
    rw [hs, Within, segments_slash, resolve_append, segments_homePage, Within]
    refine List.suffix_cons_iff.trans (or_iff_right fun he => ?_)
    exact hne (List.cons.inj he).1

theorem within_homePath (p : Bytes) :
    Within cwd (cStr (homePath p)) ↔ Within cwd (cStr p) := by
  have h : homePath p = p ++ SLASH :: HOME_PAGE := by simp [homePath]; rfl
  rw [h, within_slash p (.inr rfl)]

theorem within_servedPath (path : Bytes) :
    Within cwd (cStr (servedPath path)) ↔ Within cwd (cStr (WWW_ROOT ++ path)) := by
  rw [servedPath]
  split
  · rename_i h
    obtain ⟨p, hp⟩ := List.getLast?_eq_some_iff.1 h
    rw [hp, within_slash p (.inl rfl), List.append_assoc, List.singleton_append,
      within_slash p (.inr rfl)]
  · rfl

/-! ## A whole request -/

/-- A call that is given no path, or one that leads to `wwwroot` or below it. -/
def StaysWithin (cwd : List Bytes) (c : SysCall) : Prop := ∀ p, c.path = some p → Within cwd p

theorem within_page {p : Bytes} (h : p ∈ [PAGE_400, PAGE_404, PAGE_500]) :
    Within cwd (cStr p) := by
  have hn : ∀ p ∈ [PAGE_400, PAGE_404, PAGE_500], (norm (segments (cStr p))).ups = 0 ∧
      [WWW_ROOT] <:+ (norm (segments (cStr p))).names := by decide +kernel
  obtain ⟨hu, hs⟩ := hn p h
  rw [within_iff_comesBack, ComesBack, hu]
  exact hs

variable {σ : Type} {M : Machine σ} {sock : ℤ} {u : Unset} {w : World σ}

/-- A request for a path that leads below `wwwroot` uses no other paths. -/
theorem calls_within
    (hread : ((EndPoint.new sock u).recvHttpRequest w.rx).1.stop = false)
    (hcode : ((EndPoint.new sock u).recvHttpRequest w.rx).1.resp.statusCode ≠ BAD_REQUEST)
    (h : Within cwd (cStr (servedPath ((EndPoint.new sock u).recvHttpRequest w.rx).1.req.path))) :
    Calls (StaysWithin cwd) w.os (handlerRequest M sock u w).2.os := by
  have hP : Pathless (StaysWithin cwd) := by
    intro c hc p hp
    rw [hc] at hp; cases hp
  have hpath {p : Bytes} (hw : Within cwd p) (c : SysCall) (hc : c.path = some p) :
      StaysWithin cwd c := by
    intro q hq
    rw [hc] at hq; cases hq
    exact hw
  have hstat := Calls.stat w.os fun c hc _ => hpath h c hc
  have hbefore := chosen_calls (M := M) hP hcode (hpath h) (hpath ((within_homePath _).2 h)) w.os
  have hbehind := answer_calls (M := M) hP (fun p hp c hc _ => hpath (within_page hp) c hc) hread
  exact hstat.trans (hbefore.trans hbehind)

theorem code_of_method (hread : ((EndPoint.new sock u).recvHttpRequest w.rx).1.stop = false)
    (hmethod : ((EndPoint.new sock u).recvHttpRequest w.rx).1.req.method = GET ∨
      ((EndPoint.new sock u).recvHttpRequest w.rx).1.req.method = POST) :
    ((EndPoint.new sock u).recvHttpRequest w.rx).1.resp.statusCode ≠ BAD_REQUEST := by
  obtain ⟨-, line, he⟩ := recvHttpRequest_parsed hread
  rw [he, parsed_new] at hmethod ⊢
  rw [codeOf, if_pos hmethod]
  exact show OK ≠ BAD_REQUEST by decide

/-- **The paths that a request makes the server use lead to `wwwroot` or below
    it** exactly if the path asked for, written behind `wwwroot` and cut at its
    first `NUL`, comes back there. -/
theorem calls_within_iff (cwd : List Bytes)
    (hread : ((EndPoint.new sock u).recvHttpRequest w.rx).1.stop = false)
    (hmethod : ((EndPoint.new sock u).recvHttpRequest w.rx).1.req.method = GET ∨
      ((EndPoint.new sock u).recvHttpRequest w.rx).1.req.method = POST) :
    Calls (StaysWithin cwd) w.os (handlerRequest M sock u w).2.os ↔
      ComesBack cwd
        (cStr (WWW_ROOT ++ ((EndPoint.new sock u).recvHttpRequest w.rx).1.req.path)) := by
  have hcode := code_of_method hread hmethod
  set ep := ((EndPoint.new sock u).recvHttpRequest w.rx).1
  rw [← within_iff_comesBack, ← within_servedPath]
  constructor
  · intro h
    -- whatever there is, the path asked for is looked up
    have hall : Calls (fun _ => True) (w.os.note (.stat (cStr (servedPath ep.req.path))))
        (handlerRequest M sock u w).2.os :=
      (chosen_calls (fun _ _ => trivial) hcode (fun _ _ => trivial) (fun _ _ => trivial) w.os).trans
        (answer_calls (fun _ _ => trivial) (fun _ _ _ _ _ => trivial) hread)
    exact h.head hall _ rfl
  · exact calls_within hread hcode

end

/-! ## Files in a tree -/

section
variable {σ : Type}

/-- A machine whose files are the nodes of a tree without links.  The server
    has `cwd` for its working directory. -/
def Machine.ofTree (cwd : List Bytes) (node : σ → List Bytes → Option Inode)
    (program : σ → Bytes → Option (Program σ)) : Machine σ where
  lookup disk p :=
    (walk (fun l => (node disk l).any fun f => isDir f.mode) cwd (segments p)).bind (node disk)
  program := program

/-- **In a tree, a path that leads below `wwwroot` names a file that is there.** -/
theorem within_file {cwd : List Bytes} {node : σ → List Bytes → Option Inode}
    {program : σ → Bytes → Option (Program σ)} {disk : σ} {p : Bytes} {f : Inode}
    (h : Within cwd p) (hl : (Machine.ofTree cwd node program).lookup disk p = some f) :
    ∃ l, WWW_ROOT :: cwd <:+ l ∧ node disk l = some f := by
  obtain ⟨l, hw, hf⟩ := Option.bind_eq_some_iff.1 hl
  obtain rfl := walk_eq hw
  exact ⟨_, h, hf⟩

end

/-- The files of `/srv`: the directory `wwwroot`, and a file beside it. -/
def srv (l : List Bytes) : Option Inode :=
  if l ∈ [[], [str "srv"], [WWW_ROOT, str "srv"]] then
    some { mode := 0o040755, size := 0, content := [], readable := true,
           size_eq := fun h => absurd h (by decide) }
  else if l = [str "secret", str "srv"] then some (textFile (str "key"))
  else none

/-- A server that runs in `/srv`. -/
def srvMachine : Machine ℕ := .ofTree [str "srv"] (fun _ => srv) fun _ _ => none

theorem calls_within_iff_inside :
    Calls (StaysWithin [str "srv"])
      (visit (str "GET /a/../b HTTP/1.1\r\n\r\n")).os
      (handlerRequest srvMachine 4 ⟨false, 0, 0⟩
        (visit (str "GET /a/../b HTTP/1.1\r\n\r\n"))).2.os :=
  (calls_within_iff _ (by decide +kernel) (by decide +kernel)).2 (by decide +kernel)

/-- The file beside `wwwroot` is sent to whoever asks for it. -/
theorem secret_sent :
    sent srvMachine 4 ⟨false, 0, 0⟩ (visit (str "GET /../secret HTTP/1.1\r\n\r\n")) =
      str "HTTP/1.1 200 OK\r\n\r\nkey" ∧
    ¬ Calls (StaysWithin [str "srv"])
      (visit (str "GET /../secret HTTP/1.1\r\n\r\n")).os
      (handlerRequest srvMachine 4 ⟨false, 0, 0⟩
        (visit (str "GET /../secret HTTP/1.1\r\n\r\n"))).2.os := by
  refine ⟨by decide +kernel, ?_⟩
  rintro ⟨cs, ht, hc⟩
  have hopen : SysCall.open (str "wwwroot/../secret") 3 ∈ (handlerRequest srvMachine 4
      ⟨false, 0, 0⟩ (visit (str "GET /../secret HTTP/1.1\r\n\r\n"))).2.os.trace := by
    decide +kernel
  rw [ht] at hopen
  have hw : Within [str "srv"] (str "wwwroot/../secret") := hc _ hopen _ rfl
  exact absurd hw (by decide +kernel)

end MyHttpServer
