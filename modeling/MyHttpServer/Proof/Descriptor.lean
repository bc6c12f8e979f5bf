/-
  The descriptors of a request for a file.

  What a request opens is held behind the descriptors that were there before
  (`Opened`).  It closes the last one that it got, and its socket
  (`Opened.settle`): one that it opened earlier stays open.

  * `handlerRequest_handled`: what a request leaves open, and when that is
    nothing;
  * `serve_balanced`: when a run of requests leaves the descriptors of the
    process as they were.
-/
import MyHttpServer.Proof.Response

namespace MyHttpServer

/-- The descriptor that a call of `open` returns. -/
def SysCall.opened : SysCall → Option ℕ
  | .open _ (.ofNat n) => some n
  | _ => none

/-- Every descriptor that is opened is closed once behind that. -/
def ClosedOnce : List SysCall → Prop
  | [] => True
  | c :: cs => (∀ n, c.opened = some n → cs.count (.close n) = 1) ∧ ClosedOnce cs

section
variable {σ : Type} {M : Machine σ} {os os' os'' : Os σ} {held held' : List (ℕ × Bytes)}
  {fd : ℤ}

/-- `os'` comes from `os` by calls that close once what they open. -/
def ClosesAll (os os' : Os σ) : Prop := ∃ cs, os'.trace = os.trace ++ cs ∧ ClosedOnce cs

/-! ## What is held -/

/-- `os'` comes from `os` by calls that open `held` and close nothing. -/
structure Opened (os os' : Os σ) (held : List (ℕ × Bytes)) : Prop where
  disk : os'.disk = os.disk
  fds : os'.fds = os.fds ++ held
  calls : ∃ cs, os'.trace = os.trace ++ cs ∧
    cs.filterMap SysCall.opened = held.map Prod.fst ∧ ∀ c ∈ cs, ∀ fd, c ≠ .close fd
  fresh : ∀ e ∈ held, e.1 ∉ os.used
  distinct : (held.map Prod.fst).Nodup

/-- `os'` comes from `os` by an `open` with the result `fd`, which is `held`. -/
structure Fetched (os os' : Os σ) (held : List (ℕ × Bytes)) (fd : ℤ) : Prop
    extends Opened os os' held where
  result : held = [] ∧ fd = -1 ∨ ∃ e, held = [e] ∧ fd = (e.1 : ℤ)

theorem Fetched.all (h : Fetched os os' held fd) : ∀ e ∈ held, (e.1 : ℤ) = fd := by
  rcases h.result with ⟨rfl, -⟩ | ⟨e, rfl, rfl⟩ <;> simp

/-- What is opened has not been in use. -/
theorem Fetched.new (h : Fetched os os' held fd) {n : ℕ} (hn : n ∈ os.used) : (n : ℤ) ≠ fd := by
  rcases h.result with ⟨-, rfl⟩ | ⟨e, rfl, rfl⟩
  · omega
  · intro he
    exact h.fresh e (by simp) (by rwa [← Int.ofNat.inj he])

namespace Opened

theorem used_eq (h : Opened os os' held) : os'.used = os.used ++ held.map Prod.fst := by
  rw [Os.used, h.fds, List.map_append, Os.used]

theorem trans (h : Opened os os' held) (h' : Opened os' os'' held') :
    Opened os os'' (held ++ held') := by
  obtain ⟨cs, ht, ho, hc⟩ := h.calls
  obtain ⟨cs', ht', ho', hc'⟩ := h'.calls
  refine ⟨h'.disk.trans h.disk, by rw [h'.fds, h.fds, List.append_assoc], ⟨cs ++ cs', ?_, ?_, ?_⟩,
    ?_, ?_⟩
  · rw [ht', ht, List.append_assoc]
  · rw [List.filterMap_append, ho, ho', List.map_append]
  · intro c hm
    rcases List.mem_append.1 hm with hm | hm
    · exact hc c hm
    · exact hc' c hm
  · intro e he
    rcases List.mem_append.1 he with he | he
    · exact h.fresh e he
    · intro hu
      exact h'.fresh e he (by rw [h.used_eq]; exact List.mem_append_left _ hu)
  · rw [List.map_append, List.nodup_append]
    refine ⟨h.distinct, h'.distinct, ?_⟩
    rintro n hn m hm rfl
    obtain ⟨e, he, rfl⟩ := List.mem_map.1 hm
    exact h'.fresh e he (by rw [h.used_eq]; exact List.mem_append_right _ hn)

/-- All that is held behind an `open` is its result, if nothing was held before. -/
theorem all_iff (h : Opened os os' held) (h' : Fetched os' os'' held' fd) :
    (∀ e ∈ held ++ held', (e.1 : ℤ) = fd) ↔ held = [] := by
  constructor
  · intro hall
    by_contra hne
    obtain ⟨e, he⟩ := List.exists_mem_of_ne_nil held hne
    refine h'.new ?_ (hall e (List.mem_append_left _ he))
    rw [h.used_eq]
    exact List.mem_append_right _ (List.mem_map_of_mem he)
  · rintro rfl
    simpa using h'.all

theorem refl (os : Os σ) : Opened os os [] :=
  ⟨rfl, by simp, ⟨[], by simp, rfl, by simp⟩, by simp, by simp⟩

theorem stat (os : Os σ) (path : Bytes) : Opened os (os.note (.stat path)) [] :=
  ⟨rfl, by simp [Os.note], ⟨[.stat path], rfl, rfl, by simp⟩, by simp, by simp⟩

end Opened

/-- The kernel grants the next `open`, and the file can be read. -/
def Opens (M : Machine σ) (os : Os σ) (path : Bytes) : Prop :=
  os.refusals.headD false = false ∧
    ∃ f, M.lookup os.disk (cStr path) = some f ∧ f.readable = true

theorem openFile_fetched (M : Machine σ) (os : Os σ) (path : Bytes) :
    ∃ held, Fetched os (os.openFile M path).2 held (os.openFile M path).1 ∧
      (held = [] ↔ ¬ Opens M os path) ∧ (os.openFile M path).2.refusals = os.refusals.tail ∧
      ((os.openFile M path).1 > 0 ↔ held ≠ [] ∧ 0 ∈ os.used) := by
  rcases os.openFile_cases (M := M) path with ⟨f, hr, hl, hf, he⟩ | ⟨hn, he⟩
  · rw [he]
    refine ⟨[(os.lowestFree, f.content)], ⟨⟨rfl, rfl, ⟨_, rfl, rfl, by simp⟩, ?_, by simp⟩,
      .inr ⟨_, rfl, rfl⟩⟩, ?_, rfl, ?_⟩
    · intro e hm
      rw [List.mem_singleton.1 hm]
      exact os.lowestFree_notMem
    · simp only [List.cons_ne_nil, false_iff, not_not]
      exact ⟨hr, f, hl, hf⟩
    · simp only [gt_iff_lt, Int.natCast_pos, ne_eq, List.cons_ne_nil, not_false_iff, true_and]
      rw [Nat.pos_iff_ne_zero, ne_eq, os.lowestFree_eq_zero, not_not]
  · rw [he]
    refine ⟨[], ⟨⟨rfl, rfl, ⟨_, rfl, rfl, by simp⟩, by simp, by simp⟩, .inl ⟨rfl, rfl⟩⟩, ?_, rfl,
      by simp⟩
    simp only [true_iff]
    rintro ⟨hr, f, hl, hf⟩
    rw [hn hr f hl] at hf
    cases hf

namespace EndPoint

/-- `BuildErrorHeader` opens its page and nothing else. -/
theorem buildErrorHeader_open (path : Bytes) (ep : EndPoint) (os : Os σ) :
    (buildErrorHeader M path ep os).1.resp.fd = (os.openFile M path).1 ∧
      ((buildErrorHeader M path ep os).2 = (os.openFile M path).2 ∨
        (buildErrorHeader M path ep os).2 = (os.openFile M path).2.note (.stat (cStr path))) := by
  simp only [buildErrorHeader]
  split
  · simp only [Os.stat]
    constructor
    · split <;> rfl
    · simp
  · exact ⟨rfl, .inl rfl⟩

theorem buildErrorHeader_fetched (path : Bytes) (ep : EndPoint) (os : Os σ) :
    ∃ held, Fetched os (buildErrorHeader M path ep os).2 held
        (buildErrorHeader M path ep os).1.resp.fd ∧ (held = [] ↔ ¬ Opens M os path) := by
  obtain ⟨held, h, ho, -, -⟩ := openFile_fetched M os path
  obtain ⟨hfd, hos⟩ := buildErrorHeader_open (M := M) path ep os
  rw [hfd]
  refine ⟨held, ⟨?_, h.result⟩, ho⟩
  rcases hos with hos | hos
  · rw [hos]; exact h.toOpened
  · rw [hos]
    have := h.toOpened.trans (Opened.stat _ (cStr path))
    rwa [List.append_nil] at this

end EndPoint

/-! ## What is closed -/

theorem closedOnce_append {cs : List SysCall} (hc : ∀ c ∈ cs, ∀ fd, c ≠ .close fd)
    (fd sock : ℤ) : ClosedOnce (cs ++ [.close fd, .close sock]) ↔
      ∀ n ∈ cs.filterMap SysCall.opened, [SysCall.close fd, .close sock].count (.close n) = 1 := by
  induction cs with
  | nil => simp [ClosedOnce, SysCall.opened]
  | cons c cs ih =>
    have hcount (n : ℕ) : cs.count (.close n) = 0 :=
      List.count_eq_zero.2 fun hm => hc _ (by simp [hm]) n rfl
    rw [List.cons_append, ClosedOnce, ih fun d hd => hc d (by simp [hd])]
    simp only [List.count_append, hcount, Nat.zero_add, List.filterMap_cons]
    cases c.opened <;> simp

/-- The request on `sock` has left `left` open. -/
structure Handled (os os' : Os σ) (sock : ℕ) (left : List (ℕ × Bytes)) : Prop where
  fds : os'.fds = os.fds.filter (fun e => e.1 ≠ sock) ++ left
  fresh : ∀ e ∈ left, e.1 ∉ os.used
  closes : ClosesAll os os' ↔ left = []

/-- **What is held is left open, but for the descriptor that is closed.** -/
theorem Opened.settle (h : Opened os os' held) {sock : ℕ} (hsock : sock ∈ os.used)
    (hfd : ∀ n ∈ os.used, (n : ℤ) ≠ fd) :
    Handled os ((os'.close fd).close sock) sock (held.filter fun e => (e.1 : ℤ) ≠ fd) := by
  have hold (e : ℕ × Bytes) (he : e ∈ held) : e.1 ≠ sock := fun hs => h.fresh e he (hs ▸ hsock)
  refine ⟨?_, fun e he => h.fresh e (List.mem_filter.1 he).1, ?_⟩
  · simp only [Os.close, h.fds, List.filter_append, List.filter_filter]
    congr 1
    · refine List.filter_congr fun e he => ?_
      have := hfd e.1 (List.mem_map_of_mem he)
      simp [this]
    · refine List.filter_congr fun e he => ?_
      have := hold e he
      simp [this]
  · obtain ⟨cs, ht, ho, hc⟩ := h.calls
    have htrace : ((os'.close fd).close sock).trace =
        os.trace ++ (cs ++ [.close fd, .close sock]) := by
      simp [Os.close, ht]
    have hiff : ClosesAll os ((os'.close fd).close sock) ↔
        ClosedOnce (cs ++ [.close fd, .close sock]) := by
      constructor
      · rintro ⟨cs', ht', hcl⟩
        rw [htrace, List.append_cancel_left_eq] at ht'
        rwa [ht']
      · intro hcl
        exact ⟨_, htrace, hcl⟩
    rw [hiff, closedOnce_append hc, ho, List.filter_eq_nil_iff]
    simp only [List.mem_map, forall_exists_index, and_imp, forall_apply_eq_imp_iff₂]
    refine forall₂_congr fun e he => ?_
    have hs : (sock : ℤ) ≠ e.1 := by exact_mod_cast (hold e he).symm
    by_cases hf : (e.1 : ℤ) = fd
    · subst hf
      simp [hs]
    · simp [hf, hs, Ne.symm hf]

/-! ## A request -/

namespace EndPoint

/-- The response is built: `P` says when all that is held is `m_fd`. -/
def Built (os : Os σ) (r : EndPoint × Os σ) (P : Prop) : Prop :=
  ∃ held, Opened os r.2 held ∧ (∀ n ∈ os.used, (n : ℤ) ≠ r.1.resp.fd) ∧
    ((∀ e ∈ held, (e.1 : ℤ) = r.1.resp.fd) ↔ P)

theorem Built.congr {r : EndPoint × Os σ} {P Q : Prop} (h : Built os r P) (hPQ : P ↔ Q) :
    Built os r Q := by
  obtain ⟨held, ho, hn, hall⟩ := h
  exact ⟨held, ho, hn, hall.trans hPQ⟩

theorem built_of_fetched {r : EndPoint × Os σ} (h : Opened os os' held)
    (h' : Fetched os' r.2 held' r.1.resp.fd) : Built os r (held = []) := by
  refine ⟨held ++ held', h.trans h'.toOpened, fun n hn => h'.new ?_, h.all_iff h'⟩
  rw [h.used_eq]
  exact List.mem_append_left _ hn

/-- Of what a request opens, only its last descriptor is in use at its end: it
    has opened its file in the second attempt at most, or there is no such file
    and `PAGE_404` cannot be opened. -/
def OpensOnce (M : Machine σ) (ep : EndPoint) (os : Os σ) : Prop :=
  ep.resp.statusCode = BAD_REQUEST ∨
    match targetPath M os ep.req.path with
    | none => ¬ Opens M os PAGE_404
    | some path => ¬ Opens M os path ∧ (¬ Opens M os.refuse.2 path ∨ 0 ∈ os.used)

theorem opensOnce_found {ep : EndPoint} {path : Bytes} (hb : ep.resp.statusCode ≠ BAD_REQUEST)
    (h : targetPath M os ep.req.path = some path) :
    OpensOnce M ep os ↔ ¬ Opens M os path ∧ (¬ Opens M os.refuse.2 path ∨ 0 ∈ os.used) := by
  rw [OpensOnce, h]
  exact ⟨fun h => h.resolve_left hb, .inr⟩

/-- The file is opened twice, and its page for status 500 if that fails. -/
theorem dispatch_built {ep : EndPoint} (hc : ep.req.cgi = false) (h : Opened os os' [])
    (hr : os'.refusals = os.refusals) :
    let c := dispatch M ep os'
    Built os (buildResponseHelper M c.1 c.2)
      (¬ Opens M os ep.req.path ∧ (¬ Opens M os.refuse.2 ep.req.path ∨ 0 ∈ os.used)) := by
  obtain ⟨held, h1, ho1, hr1, -⟩ := openFile_fetched M os' ep.req.path
  obtain ⟨held', h2, ho2, -, hpos⟩ :=
    openFile_fetched M (os'.openFile M ep.req.path).2 ep.req.path
  have hd := dispatch_file M hc os'
  set r := os'.openFile M ep.req.path
  set r' := r.2.openFile M ep.req.path
  have hfirst : Opens M os' ep.req.path ↔ Opens M os ep.req.path := by
    rw [Opens, Opens, hr, h.disk]
  have hsecond : Opens M r.2 ep.req.path ↔ Opens M os.refuse.2 ep.req.path := by
    rw [Opens, Opens, hr1, hr, h1.disk, h.disk]
    rfl
  have hheld := h.trans h1.toOpened
  rw [List.nil_append] at hheld
  rw [hfirst] at ho1
  rw [hsecond] at ho2
  have hused : r.2.used = os.used ++ held.map Prod.fst := hheld.used_eq
  simp only [hd]
  by_cases hgot : r'.1 > 0
  · -- the descriptor of the second attempt is kept
    rw [if_pos hgot, buildResponseHelper_ok M rfl]
    refine Built.congr (built_of_fetched hheld h2) ?_
    rw [ho1, iff_self_and]
    intro hno
    have hz := (hpos.1 hgot).2
    rw [hused, ho1.2 hno, List.map_nil, List.append_nil] at hz
    exact .inr hz
  · -- the second attempt has failed, or got descriptor 0, and the page comes behind it
    rw [if_neg hgot, buildResponseHelper_500 M rfl]
    obtain ⟨page, h3, -⟩ := buildErrorHeader_fetched (M := M) PAGE_500
      (withStatus { ep with resp.fd := r'.1, resp.statusCode := SERVER_ERROR }) r'.2
    refine Built.congr (built_of_fetched (hheld.trans h2.toOpened) h3) ?_
    rw [List.append_eq_nil_iff, ho1]
    refine and_congr_right fun hno => ?_
    rw [hused, ho1.2 hno, List.map_nil, List.append_nil] at hpos
    rw [← ho2]
    constructor
    · exact .inl
    · rintro (h0 | hz)
      · exact h0
      · by_contra hne
        exact hgot (hpos.2 ⟨hne, hz⟩)

/-- Status 404 opens two pages. -/
theorem missing_built {ep : EndPoint} (hs : ep.resp.statusCode = NOT_FOUND)
    (h : Opened os os' []) : Built os (buildResponseHelper M ep os') (¬ Opens M os' PAGE_404) := by
  obtain ⟨page, h1, ho⟩ := buildErrorHeader_fetched (M := M) PAGE_404 ep.withStatus os'
  rw [buildResponseHelper_404 M hs]
  set r := buildErrorHeader M PAGE_404 ep.withStatus os'
  obtain ⟨page', h2, -⟩ := buildErrorHeader_fetched (M := M) PAGE_500 r.1 r.2
  refine Built.congr (built_of_fetched (h.trans h1.toOpened) h2) ?_
  rw [List.nil_append, ho]

/-- **When a response is built, all that is held is `m_fd` exactly if
    `OpensOnce`.** -/
theorem buildHttpResponse_built {ep : EndPoint} (os : Os σ)
    (hcgi : (buildHttpResponse M ep os).1.req.cgi = false) :
    Built os (buildHttpResponse M ep os) (OpensOnce M ep os) := by
  rw [buildHttpResponse_eq] at hcgi ⊢
  rw [(buildResponseHelper_frame _ _).1] at hcgi
  rcases locate_cases M ep os with ⟨hb, he⟩ | ⟨hb, hl, he⟩ | ⟨st, hb, hl, hd, he⟩ |
    ⟨st, hb, hl, hd, he⟩
  · -- status 400 has one page
    have hc : chosen M ep os = (ep, os) := by rw [chosen, he]
    rw [hc, buildResponseHelper_400 M hb]
    obtain ⟨page, h, -⟩ := buildErrorHeader_fetched (M := M) PAGE_400 ep.withStatus os
    refine Built.congr (built_of_fetched (Opened.refl os) h) ?_
    simp [OpensOnce, hb]
  · rw [chosen, he]
    refine Built.congr (missing_built rfl (Opened.stat os _)) ?_
    rw [OpensOnce, targetPath, hl, Option.map_none]
    exact ⟨.inr, fun h => h.resolve_left hb⟩
  · rw [chosen, he] at hcgi ⊢
    rw [opensOnce_found hb (targetPath_eq hl), if_pos hd]
    exact dispatch_built (by rwa [dispatch_req] at hcgi)
      ((Opened.stat os _).trans (Opened.stat _ _)) rfl
  · rw [chosen, he] at hcgi ⊢
    rw [opensOnce_found hb (targetPath_eq hl), if_neg (by simp [hd])]
    exact dispatch_built (by rwa [dispatch_req] at hcgi) (Opened.stat os _) rfl

/-- Behind the file of a response its descriptor is closed. -/
theorem sendHttpResponse_file_os {ep : EndPoint} (h : ep.req.cgi = false) (os : Os σ)
    (tx : SendSide) : (ep.sendHttpResponse os tx).1 = os.close ep.resp.fd := by
  rw [sendHttpResponse]
  simp only [h, Bool.false_eq_true, if_false]

end EndPoint

/-- A request that is closed unread opens nothing. -/
theorem handled_close (os : Os σ) (sock : ℕ) : Handled os (os.close sock) sock [] := by
  refine ⟨by simp [Os.close], by simp, ?_⟩
  simp only [iff_true]
  exact ⟨[.close sock], rfl, by simp [ClosedOnce, SysCall.opened]⟩

/-- **What a request for a file leaves open**: nothing, exactly if it is not
    answered or `OpensOnce`. -/
theorem handlerRequest_handled {sock : ℕ} {u : Unset} {w : World σ} (hsock : sock ∈ w.os.used)
    (hcgi : (handlerRequest M sock u w).1.req.cgi = false) :
    let ep := ((EndPoint.new sock u).recvHttpRequest w.rx).1
    ∃ left, Handled w.os (handlerRequest M sock u w).2.os sock left ∧
      (left = [] ↔ ep.stop = true ∨ EndPoint.OpensOnce M ep w.os) := by
  intro ep
  cases hstop : ep.stop with
  | true =>
    refine ⟨[], ?_, by simp⟩
    rw [handlerRequest_of_stop M hstop]
    exact handled_close w.os sock
  | false =>
    have hr := handlerRequest_of_read M hstop
    rw [hr] at hcgi ⊢
    obtain ⟨held, ho, hn, hall⟩ := EndPoint.buildHttpResponse_built w.os hcgi
    refine ⟨held.filter fun e => (e.1 : ℤ) ≠ (EndPoint.buildHttpResponse M ep w.os).1.resp.fd,
      ?_, ?_⟩
    · simp only [EndPoint.sendHttpResponse_file_os hcgi]
      exact ho.settle hsock hn
    · rw [List.filter_eq_nil_iff]
      simpa using hall

/-! ## Many requests -/

/-- A client, with what has changed around the process since the last one was
    served. -/
structure Client (σ : Type) where
  sock : ℕ
  u : Unset
  rx : RecvSide
  tx : SendSide
  disk : σ
  refusals : List Bool

namespace Client
variable (c : Client σ)

/-- The process at the start of the request. -/
def enter (os : Os σ) : Os σ := { os with disk := c.disk, refusals := c.refusals }

/-- `HandlerRequest` for the client. -/
def handle (M : Machine σ) (os : Os σ) : EndPoint × World σ :=
  handlerRequest M c.sock c.u ⟨c.rx, c.tx, c.enter os⟩

/-- The request as it has been read. -/
def asked : EndPoint := ((EndPoint.new c.sock c.u).recvHttpRequest c.rx).1

/-- The request is not answered, or only the last descriptor that it opens is
    in use at its end. -/
def Balanced (M : Machine σ) (os : Os σ) : Prop :=
  c.asked.stop = true ∨ EndPoint.OpensOnce M c.asked (c.enter os)

end Client

/-- The process after the requests of `cs`. -/
def serve (M : Machine σ) (os : Os σ) : List (Client σ) → Os σ
  | [] => os
  | c :: cs => serve M (c.handle M os).2.os cs

/-- `P` holds of every client and the process at its start. -/
def Throughout (M : Machine σ) (P : Client σ → Os σ → Prop) : Os σ → List (Client σ) → Prop
  | _, [] => True
  | os, c :: cs => P c os ∧ Throughout M P (c.handle M os).2.os cs

/-- What one request does to the descriptors. -/
theorem Client.handle_handled (c : Client σ) (hsock : c.sock ∈ os.used)
    (hcgi : (c.handle M os).1.req.cgi = false) :
    ∃ left, Handled os (c.handle M os).2.os c.sock left ∧ (left = [] ↔ c.Balanced M os) := by
  obtain ⟨left, ⟨hfds, hfresh, hcloses⟩, hb⟩ :=
    handlerRequest_handled (w := ⟨c.rx, c.tx, c.enter os⟩) hsock hcgi
  exact ⟨left, ⟨hfds, hfresh, hcloses⟩, hb⟩

theorem Handled.mem_used {sock : ℕ} {left : List (ℕ × Bytes)} (h : Handled os os' sock left)
    (n : ℕ) : n ∈ os'.used ↔ n ∈ os.used ∧ n ≠ sock ∨ n ∈ left.map Prod.fst := by
  rw [Os.used, h.fds, List.map_append, List.mem_append]
  refine or_congr_left ?_
  simp only [List.mem_map, List.mem_filter, Os.used, decide_eq_true_eq]
  constructor
  · rintro ⟨e, ⟨he, hs⟩, rfl⟩
    exact ⟨⟨e, he, rfl⟩, hs⟩
  · rintro ⟨⟨e, he, rfl⟩, hs⟩
    exact ⟨e, ⟨he, hs⟩, rfl⟩

/-- A descriptor that is in use, but none of the clients', stays in use. -/
theorem serve_keeps {clients : List (Client σ)} (hsock : ∀ c ∈ clients, c.sock ∈ os.used)
    (hnodup : (clients.map Client.sock).Nodup)
    (hcgi : Throughout M (fun c os => (c.handle M os).1.req.cgi = false) os clients)
    {n : ℕ} (hn : n ∈ os.used) (hc : n ∉ clients.map Client.sock) :
    n ∈ (serve M os clients).used := by
  induction clients generalizing os with
  | nil => exact hn
  | cons c cs ih =>
    obtain ⟨hc0, hcgi⟩ := hcgi
    obtain ⟨left, hh, -⟩ := c.handle_handled (hsock c (by simp)) hc0
    rw [List.map_cons, List.nodup_cons] at hnodup
    rw [List.map_cons, List.mem_cons, not_or] at hc
    refine ih (fun d hd => ?_) hnodup.2 hcgi ((hh.mem_used n).2 (.inl ⟨hn, hc.1⟩)) hc.2
    refine (hh.mem_used d.sock).2 (.inl ⟨hsock d (by simp [hd]), ?_⟩)
    intro hs
    exact hnodup.1 (hs ▸ List.mem_map_of_mem hd)

/-- **A request closes what it opens, and a run of requests leaves the
    descriptors of the process as they were, but for those of the clients,
    exactly if every request is `Balanced`.** -/
theorem serve_balanced {clients : List (Client σ)} (hsock : ∀ c ∈ clients, c.sock ∈ os.used)
    (hnodup : (clients.map Client.sock).Nodup)
    (hcgi : Throughout M (fun c os => (c.handle M os).1.req.cgi = false) os clients) :
    (Throughout M (fun c os => ClosesAll os (c.handle M os).2.os) os clients ↔
      Throughout M (fun c os => c.Balanced M os) os clients) ∧
    ((∀ n, n ∈ (serve M os clients).used ↔ n ∈ os.used ∧ n ∉ clients.map Client.sock) ↔
      Throughout M (fun c os => c.Balanced M os) os clients) := by
  induction clients generalizing os with
  | nil => exact ⟨Iff.rfl, by simp [serve, Throughout]⟩
  | cons c cs ih =>
    obtain ⟨hc, hcgi⟩ := hcgi
    obtain ⟨left, hh, hb⟩ := c.handle_handled (hsock c (by simp)) hc
    rw [List.map_cons, List.nodup_cons] at hnodup
    have hsock' : ∀ d ∈ cs, d.sock ∈ (c.handle M os).2.os.used := by
      intro d hd
      refine (hh.mem_used d.sock).2 (.inl ⟨hsock d (by simp [hd]), ?_⟩)
      intro hs
      exact hnodup.1 (hs ▸ List.mem_map_of_mem hd)
    obtain ⟨ih1, ih2⟩ := ih hsock' hnodup.2 hcgi
    refine ⟨and_congr (hh.closes.trans hb) ih1, ?_⟩
    rw [Throughout, ← hb, ← ih2, serve]
    constructor
    · intro hset
      -- what the first request has left open is still open at the end
      have hleft : left = [] := by
        by_contra hne
        obtain ⟨e, he⟩ := List.exists_mem_of_ne_nil left hne
        have hnew := hh.fresh e he
        have hkeep := serve_keeps (n := e.1) hsock' hnodup.2 hcgi
          ((hh.mem_used _).2 (.inr (List.mem_map_of_mem he))) fun hm => by
            obtain ⟨d, hd, hs⟩ := List.mem_map.1 hm
            exact hnew (hs ▸ hsock d (by simp [hd]))
        exact hnew ((hset e.1).1 hkeep).1
      refine ⟨hleft, fun n => ?_⟩
      rw [hset, hh.mem_used, hleft, List.map_cons, List.mem_cons, not_or]
      simp [and_assoc]
    · rintro ⟨hleft, hset⟩ n
      rw [hset, hh.mem_used, hleft, List.map_cons, List.mem_cons, not_or]
      simp [and_assoc]

end

/-- A client with a request of these bytes. -/
def client (sock : ℕ) (request : Bytes) : Client ℕ :=
  ⟨sock, ⟨false, 0, 0⟩, (visit request).rx, (visit request).tx, 0, []⟩

/-- A process with two clients. -/
def twoClients : Os ℕ := { (visit []).os with fds := [(0, []), (1, []), (2, []), (3, []), (4, [])] }

/-- Two requests of another method: status 400 opens and closes one page. -/
theorem serve_balanced_bad :
    let clients :=
      [client 3 (str "PUT / HTTP/1.1\r\n\r\n"), client 4 (str "PUT / HTTP/1.1\r\n\r\n")]
    Throughout site (fun c os => ClosesAll os (c.handle site os).2.os) twoClients clients ∧
      ∀ n, n ∈ (serve site twoClients clients).used ↔ n ∈ [0, 1, 2, 3, 4] ∧ n ∉ [3, 4] := by
  intro clients
  have hbalanced : Throughout site (fun c os => c.Balanced site os) twoClients clients :=
    ⟨.inr (.inl (by decide +kernel)), .inr (.inl (by decide +kernel)), trivial⟩
  obtain ⟨hcloses, hused⟩ := serve_balanced (by decide +kernel) (by decide +kernel)
    (show Throughout site (fun c os => (c.handle site os).1.req.cgi = false) twoClients clients from
      ⟨by decide +kernel, by decide +kernel, trivial⟩)
  exact ⟨hcloses.2 hbalanced, hused.2 hbalanced⟩

/-- The home page is opened as 5 and as 6, and 5 is not closed. -/
theorem home_leaks :
    let c := client 3 (str "GET / HTTP/1.1\r\n\r\n")
    let r := c.handle site twoClients
    r.1.req.cgi = false ∧ r.2.os.used = [0, 1, 2, 4, 5] ∧ ¬ ClosesAll twoClients r.2.os := by
  refine ⟨by decide +kernel, by decide +kernel, ?_⟩
  rintro ⟨cs, ht, hc⟩
  have hcs : cs = [.stat (str "wwwroot/index.html"), .open (str "wwwroot/index.html") 5,
      .open (str "wwwroot/index.html") 6, .close 6, .close 3] := by
    rw [← List.nil_append cs]
    exact ht.symm.trans (by decide +kernel)
  rw [hcs] at hc
  have := hc.2.1 5 rfl
  revert this
  decide +kernel

end MyHttpServer
