/-
  What holds in every run of the whole server.

  * `Minded`: every open connection is in the hands of somebody who is going to
    close it;
  * `owned`: the workers keep their contract, and the descriptors are apart;
  * `standard_open`: no client has one of the standard descriptors;
  * `answered_alone`: a connection that has been answered is as one worker alone
    would have left it;
  * `conservation`: every connection is pending, open, answered or refused, once;
  * `parts_reachable`: what the loop and the pool do in the server, they do on
    their own;
  * `uses_own`: no two threads use one descriptor.
-/
import MyHttpServer.Proof.Ownership
import MyHttpServer.Proof.Whole

namespace MyHttpServer

/-- The descriptors that a call names. -/
def KernelCall.uses : KernelCall → List ℤ
  | .receive sock _ | .send sock _ => [sock]
  | .sendfile sock fd _ => [sock, fd]
  | .close fd => [fd]
  | _ => []

namespace Server
variable {σ W : Type} {e : Setting σ} {s t : Server σ W} {g : W → Option Share}
  {owner : ℕ → Owner W}

/-! ## Nobody forgets a connection -/

/-- Somebody is going to close the descriptor. -/
inductive Minded (s : Server σ W) (g : W → Option Share) (fd : ℤ) : Prop
  | loop {p c n} : s.loop.pc = .closeAccepted p (some c) → s.loop.idlefd = some n → fd = (n : ℕ) →
      Minded s g fd
  | pushing {x} : (s.pool.producer ()).task = some x → x.sock = fd → Minded s g fd
  | queued {x} : x ∈ s.pool.q → x.1.sock = fd → Minded s g fd
  | popped {w x} : (s.pool.worker w).task = some x → g w = none → x.1.sock = fd → Minded s g fd
  | shared {w a} : g w = some a → a.isOpen = true → fd = (a.sock : ℕ) → Minded s g fd

/-- Nobody has forgotten a connection. -/
def Covered (s : Server σ W) (g : W → Option Share) : Prop :=
  ∀ fd c, s.loop.fds fd = some (.conn c) → Minded s g (fd : ℕ)

theorem Covered.accept4 (h : Covered s g) {n c : ℕ} {queue : List ℕ} {outcomes : List Accept4}
    (hp : s.loop.pc = .accept4) (hpool : s.pool.producer () = .accept) :
    Covered { s with
      loop := { s.loop with
        fds := Function.update s.loop.fds n (some (.conn c)), queue, outcomes }
      pool := s.pool.setProducer () (.lock ⟨n⟩) } g := by
  intro fd d hfd
  by_cases hn : fd = n
  · subst hn
    exact .pushing (x := ⟨fd⟩) (by rw [Pool.setProducer_producer, if_pos rfl]; rfl) rfl
  · cases h fd d ((Function.update_of_ne hn ..).symm.trans hfd) with
    | loop hp' => rw [hp] at hp'; cases hp'
    | pushing hx => rw [hpool] at hx; cases hx
    | queued hx hs => exact .queued hx hs
    | popped hx hg hs => exact .popped hx hg hs
    | shared hg ho hs => exact .shared hg ho hs

/-- The loop does anything else: the connection that it accepts in vain, it closes. -/
theorem Covered.loop (h : Covered s g) {l : LoopState} (hl : s.loop.Step e.limit e.files l)
    (hpc : l.pc ≠ s.loop.pc) : Covered { s with loop := l } g := by
  -- what the loop does not hold is in the same hands
  have hkeep (fd c : ℕ) (hfd : s.loop.fds fd = some (.conn c))
      (hno : ∀ p c, s.loop.pc = .closeAccepted p (some c) → s.loop.idlefd ≠ some fd) :
      Minded { s with loop := l } g (fd : ℕ) := by
    cases h fd c hfd with
    | loop hp hi hn => cases Int.ofNat.inj hn; exact absurd hi (hno _ _ hp)
    | pushing hx hs => exact .pushing hx hs
    | queued hx hs => exact .queued hx hs
    | popped hx hg hs => exact .popped hx hg hs
    | shared hg ho hs => exact .shared hg ho hs
  intro fd c hfd
  cases hl with
  | accept4_sock | connect | other_open | other_close => exact absurd rfl hpc
  | accept4_EMFILE hp | accept4_error hp | accept_EMFILE hp | openNull_error hp =>
    exact hkeep fd c hfd (by simp [hp])
  | closeIdle hp => exact hkeep fd c (OpenFiles.close_some hfd).2 (by simp [hp])
  | @accept p n c' queue hp =>
    by_cases hn : fd = n
    · subst hn
      exact .loop rfl rfl rfl
    · exact hkeep fd c ((Function.update_of_ne hn ..).symm.trans hfd) (by simp [hp])
  | closeAccepted hp =>
    exact hkeep fd c (OpenFiles.close_some hfd).2 fun _ _ _ => (OpenFiles.close_some hfd).1
  | @openNull p conn n hp =>
    by_cases hn : fd = n
    · subst hn
      exact absurd ((Function.update_self ..).symm.trans hfd) (by simp)
    · exact hkeep fd c ((Function.update_of_ne hn ..).symm.trans hfd) (by simp [hp])

theorem Covered.connect (h : Covered s g) :
    Covered { s with loop := { s.loop with
      queue := s.loop.queue ++ [s.loop.connected], connected := s.loop.connected + 1 } } g := by
  intro fd c hfd
  cases h fd c hfd with
  | loop hp hi hn => exact .loop hp hi hn
  | pushing hx hs => exact .pushing hx hs
  | queued hx hs => exact .queued hx hs
  | popped hx hg hs => exact .popped hx hg hs
  | shared hg ho hs => exact .shared hg ho hs

variable [DecidableEq W]

/-- A task that leaves the producer is in the queue, and one that leaves the queue
    is a worker's. -/
theorem Covered.pool (h : Covered s g) (ho : Owned e s g owner) {p : Pool W Unit}
    (hs : s.pool.Step p) (hh : p.handled = s.pool.handled)
    (ha : s.pool.producer () = .accept → p.producer () = .accept) :
    Covered { s with pool := p } g := by
  obtain ⟨-, hcases⟩ := hs.holding hh fun _ => ha
  intro fd c hfd
  cases h fd c hfd with
  | loop hp hi hn => exact .loop hp hi hn
  | shared hg hopen hs => exact .shared hg hopen hs
  | @pushing x hx hfd =>
    rcases hcases with ⟨-, -, hp⟩ | ⟨r, y, i, hy, hq, -, -⟩ | ⟨w, y, -, -, hp, -⟩
    · exact .pushing ((hp ()).trans hx) hfd
    · cases hx.symm.trans hy
      exact .queued (x := (x, i)) (by rw [hq]; simp) hfd
    · exact .pushing (by rw [hp]; exact hx) hfd
  | @queued x hx hfd =>
    rcases hcases with ⟨hq, -, -⟩ | ⟨r, y, i, -, hq, -, -⟩ | ⟨w, y, hq, hno, -, hw⟩
    · exact .queued (by rw [hq]; exact hx) hfd
    · exact .queued (by rw [hq]; exact List.mem_append_left _ hx) hfd
    · rw [hq] at hx
      rcases List.mem_cons.1 hx with rfl | hx
      · have hg : g w = none := by
          by_contra hne
          obtain ⟨a, hga⟩ := Option.ne_none_iff_exists'.1 hne
          obtain ⟨z, hz⟩ := (ho.shares w a hga).task
          rw [hz] at hno
          cases hno
        exact .popped (w := w) (x := x) (by rw [hw, if_pos rfl]) hg hfd
      · exact .queued hx hfd
  | @popped v x hx hg hfd =>
    rcases hcases with ⟨-, hw, -⟩ | ⟨r, y, i, -, -, hw, -⟩ | ⟨w, y, -, hno, -, hw⟩
    · exact .popped ((hw v).trans hx) hg hfd
    · exact .popped ((hw v).trans hx) hg hfd
    · refine .popped (w := v) (x := x) ?_ hg hfd
      rw [hw, if_neg, hx]
      rintro rfl
      rw [hno] at hx
      cases hx

/-- A worker that has been given its share has its socket. -/
theorem Covered.start (h : Covered s g) {w : W} (hw : g w = none) {x : Numbered}
    (hx : s.pool.worker w = .handerTask x) {a : Share} (hopen : a.isOpen = true)
    (hsock : (a.sock : ℤ) = x.1.sock) {serving : W → Serving} :
    Covered { s with serving } (Function.update g w (some a)) := by
  intro fd c hfd
  cases h fd c hfd with
  | loop hp hi hn => exact .loop hp hi hn
  | pushing hx hs => exact .pushing hx hs
  | queued hx hs => exact .queued hx hs
  | @popped v y hy hg hs =>
    by_cases hv : v = w
    · subst hv
      rw [hx] at hy
      cases hy
      exact .shared (Function.update_self ..) hopen (by rw [hsock, hs])
    · exact .popped hy (by rw [Function.update_of_ne hv, hg]) hs
  | @shared v b hg hb hs =>
    by_cases hv : v = w
    · rw [hv, hw] at hg
      cases hg
    · exact .shared (by rw [Function.update_of_ne hv, hg]) hb hs

theorem Covered.finish (h : Covered s g) {w : W} {a : Share} (hw : g w = some a)
    (hopen : a.isOpen = false) {handled : List Numbered} :
    Covered { s with pool := { s.pool.setWorker w .lock with handled } }
      (Function.update g w none) := by
  intro fd c hfd
  cases h fd c hfd with
  | loop hp hi hn => exact .loop hp hi hn
  | pushing hx hs => exact .pushing hx hs
  | queued hx hs => exact .queued hx hs
  | @popped v y hy hg hs =>
    have hv : v ≠ w := by
      rintro rfl
      rw [hw] at hg
      cases hg
    refine .popped (w := v) (x := y) ?_ (by rw [Function.update_of_ne hv, hg]) hs
    rw [← hy]
    exact congrArg WorkerPc.task ((Pool.setWorker_worker ..).trans (if_neg hv))
  | @shared v b hg hb hs =>
    have hv : v ≠ w := by
      rintro rfl
      rw [hw] at hg
      cases hg
      rw [hopen] at hb
      cases hb
    exact .shared (by rw [Function.update_of_ne hv, hg]) hb hs

/-- What a call of a worker leaves as it is. -/
structure Beside (s t : Server σ W) : Prop where
  pool : t.pool = s.pool
  pc : t.loop.pc = s.loop.pc
  idlefd : t.loop.idlefd = s.loop.idlefd
  queue : t.loop.queue = s.loop.queue
  fewer : s.loop.fds.Fewer t.loop.fds

theorem Call.beside {w : W} {c : KernelCall} {r : c.Answer} (h : Call e w s c r t) :
    Beside s t := by
  have hconns {t : OpenFiles} (ht : s.loop.fds.Fewer t) {content : ℕ → Bytes}
      {serving : W → Serving} {answered : List (ℕ × Serving)} :
      Beside s { s with loop := { s.loop with fds := t }, content, serving, answered } :=
    ⟨rfl, rfl, rfl, rfl, ht⟩
  have hsame := OpenFiles.fewer_refl s.loop.fds
  cases h with
  | receive | receive_error | send | send_error | sendfile | sendfile_error | stat | open_missing
  | open_refused | pipe_refused | fork | fork_refused | exec | waitpid =>
    exact ⟨rfl, rfl, rfl, rfl, hsame⟩
  | «open» => exact hconns (OpenFiles.fewer_open _ _ (by simp))
  | close =>
    split_ifs
    · exact hconns (OpenFiles.fewer_close _ _)
    · exact ⟨rfl, rfl, rfl, rfl, hsame⟩
  | close_conn => exact hconns (OpenFiles.fewer_close _ _)
  | pipe =>
    refine hconns fun fd c hfd => ?_
    exact OpenFiles.fewer_open _ _ (by simp) _ _ (OpenFiles.fewer_open _ _ (by simp) _ _ hfd)

/-- A worker keeps its socket until it closes it. -/
theorem Call.sock {w : W} {c : KernelCall} {r : c.Answer} {a b : Share}
    (h : Call e w s c r t) (hb : (workerContract e).post a c r b) (hopen : a.isOpen = true) :
    b.sock = a.sock ∧ (b.isOpen = true ∨ t.loop.fds a.sock = none) := by
  have hclose {fd : ℤ} (ht : fd = (a.sock : ℕ) → t.loop.fds a.sock = none) :
      (a.closeFd fd).isOpen = true ∨ t.loop.fds a.sock = none := by
    by_cases hfd : fd = (a.sock : ℕ)
    · exact .inr (ht hfd)
    · exact .inl (by simp [Share.closeFd, hopen, Ne.symm hfd])
  cases h with
  | receive | receive_error | send | send_error | sendfile | sendfile_error | stat | waitpid =>
    obtain ⟨-, rfl⟩ := hb
    exact ⟨rfl, .inl hopen⟩
  | exec =>
    obtain ⟨left, rfl, -⟩ := hb
    exact ⟨rfl, .inl hopen⟩
  | «open» | open_missing | open_refused =>
    rcases hb with ⟨f, fd, -, -, -, -, rfl⟩ | ⟨-, rfl⟩ | ⟨-, -, rfl⟩ <;> exact ⟨rfl, .inl hopen⟩
  | pipe | pipe_refused =>
    rcases hb with ⟨m, n, -, -, -, -, rfl⟩ | ⟨-, rfl⟩ <;> exact ⟨rfl, .inl hopen⟩
  | fork | fork_refused =>
    cases (show b = _ from hb)
    exact ⟨rfl, .inl hopen⟩
  | close | close_conn =>
    cases (show b = _ from hb)
    refine ⟨rfl, hclose ?_⟩
    rintro rfl
    exact Function.update_self ..

theorem Covered.call (h : Covered s g) {w : W} {a b : Share} (hw : g w = some a)
    {c : KernelCall} {r : c.Answer} (hc : Call e w s c r t)
    (hb : (workerContract e).post a c r b) : Covered t (Function.update g w (some b)) := by
  have hbe := hc.beside
  intro fd c hfd
  cases h fd c (hbe.fewer _ _ hfd) with
  | loop hp hi hn => exact .loop (by rw [hbe.pc, hp]) (by rw [hbe.idlefd, hi]) hn
  | pushing hx hs => exact .pushing (by rw [hbe.pool, hx]) hs
  | queued hx hs => exact .queued (by rw [hbe.pool]; exact hx) hs
  | @popped v y hy hg hs =>
    have hv : v ≠ w := by
      rintro rfl
      rw [hw] at hg
      cases hg
    exact .popped (by rw [hbe.pool, hy]) (by rw [Function.update_of_ne hv, hg]) hs
  | @shared v a' hg ha hs =>
    by_cases hv : v = w
    · subst hv
      cases hw.symm.trans hg
      obtain ⟨hsock, hopen | hnone⟩ := hc.sock hb ha
      · exact .shared (Function.update_self ..) hopen (by rw [hsock, hs])
      · rw [Int.ofNat.inj hs, hnone] at hfd
        cases hfd
    · exact .shared (by rw [Function.update_of_ne hv, hg]) ha hs

/-! ## The workers keep their contract -/

/-- The descriptors are apart, and no connection is forgotten. -/
def Kept (e : Setting σ) (s : Server σ W) (g : W → Option Share) : Prop :=
  (∃ owner, Owned e s g owner) ∧ Covered s g

omit [DecidableEq W] in
/-- At the start there are the standard descriptors and the reserve. -/
theorem Start.kept (h : Start e s) : Kept e s fun _ => none := by
  obtain ⟨⟨⟨n, hidle, hn⟩, hpc, -, hno, hq, hk, -, hh⟩, hpool, hdisk, hstd, hclient, hans⟩ := h
  have hne : ¬ n < 3 := by
    intro hlt
    rw [hstd n hlt] at hn
    cases hn
  refine ⟨⟨fun fd => if fd < 3 then .standard else .loop, hdisk, ?_, by simp [hpool, Pool.start],
    by simp, by simp [hpc], ?_⟩, fun fd c hfd => absurd hfd (hno fd c)⟩
  · intro o fd k hd
    cases hd with
    | @standard n hlt => exact ⟨n, .other, rfl, if_pos hlt, hstd n hlt, rfl⟩
    | reserve _ hi =>
      cases hi.symm.trans hidle
      exact ⟨n, .null, rfl, if_neg hne, hn, rfl⟩
    | accepted hp => rw [hpc] at hp; cases hp
    | pushing hx => rw [hpool] at hx; cases hx
    | queued hx => rw [hpool] at hx; cases hx
    | popped hx => rw [hpool] at hx; cases hx
  · have hopened (c : ℕ) : s.loop.fds.opened c = 0 := if_neg (not_exists.2 fun fd => hno fd c)
    refine ⟨fun fd _ c hfd => absurd hfd (hno fd c), fun c => ?_, fun c _ => hclient c, ?_⟩
    · simp [hq, hopened, hans, LoopState.refused, hh, hpc, hk]
    · simp [hans]

/-- **The server upholds the contract of the workers.** -/
theorem upholds (hd : e.DiskKept) :
    (host W e).Upholds (workerContract e) (fun _ a => a.isOpen = false) (Kept e) where
  init s h := Start.kept h
  env s t g := by
    rintro ⟨⟨owner, ho⟩, hc⟩ he
    refine ⟨ho.env he, ?_⟩
    cases he with
    | accept4 hp hpool => exact hc.accept4 hp hpool
    | loop _ hl hpc => exact hc.loop hl hpc
    | connect => exact hc.connect
    | pool hs hh ha => exact hc.pool ho hs hh ha
  start s t g w p := by
    rintro ⟨⟨owner, ho⟩, hc⟩ hw ⟨x, u, hx, rfl, rfl⟩
    obtain ⟨a, hb, hsock, hu, ho'⟩ := ho.start hw hx u
    refine ⟨a, ⟨⟨owner, ho'⟩, hc.start hw hx hb.isOpen hsock⟩, ?_⟩
    rw [← hsock, ← hu]
    exact handlerRequest_meets hd hb
  call s t g w a c r := by
    rintro ⟨⟨owner, ho⟩, hc⟩ hw hpre hcall
    obtain ⟨b, owner', hb, ho'⟩ := ho.call hd hw hpre hcall
    exact ⟨b, hb, ⟨owner', ho'⟩, hc.call hw hcall hb⟩
  finish s t g w ep a := by
    rintro ⟨⟨owner, ho⟩, hc⟩ hw hopen ⟨x, -, rfl⟩
    exact ⟨⟨owner, ho.finish⟩, hc.finish hw hopen⟩

variable {s t : Running KernelCall.Answer (Server σ W) W EndPoint}

/-- **In any run of the server**, the workers keep their contract, and the
    descriptors are apart. -/
theorem owned (hd : e.DiskKept) (h : (system W e).Reachable s) :
    ∃ g owner, Owned e s.shared g owner ∧ Covered s.shared g ∧
      ∀ w, Host.Kept (workerContract e) (fun _ a => a.isOpen = false) (s.routine w) (g w) := by
  obtain ⟨g, ⟨⟨owner, ho⟩, hc⟩, hk⟩ := (upholds hd).reachable h
  exact ⟨g, owner, ho, hc, hk⟩

/-- The standard descriptors stay as they are: nothing that is printed gets to a
    client, but through a child. -/
theorem standard_open (hd : e.DiskKept) (h : (system W e).Reachable s) {n : ℕ} (hn : n < 3) :
    s.shared.loop.fds n = some .other := by
  obtain ⟨g, owner, ho, -⟩ := owned hd h
  obtain ⟨m, f, hm, -, hf, rfl⟩ := ho.demands _ _ _ (.standard hn)
  rwa [Int.ofNat.inj hm]

/-! ## A run -/

/-- Clients that send `bytes` and close, to a server without files. -/
def sends (bytes : Bytes) : Setting ℕ where
  machine := noFiles
  disk := 0
  limit := 16
  files := fun _ => true
  client := fun _ => (arrived bytes true, { wire := [], plan := [] })

theorem diskKept_sends (bytes : Bytes) : (sends bytes).DiskKept := by
  rintro path prog inp h
  cases h

/-- A server with one worker, as `Loop` is called. -/
def called {σ : Type} (e : Setting σ) : Server σ Unit where
  loop :=
    { fds := fun fd => if fd < 3 then some .other else if fd = 4 then some .null else none
      queue := [], connected := 0, idlefd := some 4, pc := .accept4, outcomes := [], handled := [] }
  pool := .start
  disk := e.disk
  content := fun _ => []
  rx := fun c => (e.client c).1
  tx := fun c => (e.client c).2
  serving := fun _ => ⟨0, ⟨false, 0, 0⟩, [], [], []⟩
  answered := []

/-- A client comes in, and a worker is going to handle its request. -/
theorem reachable_serving {σ : Type} (e : Setting σ) (hlimit : 5 < e.limit) :
    ∃ s : Running KernelCall.Answer (Server σ Unit) Unit EndPoint,
      (system Unit e).Reachable s ∧ s.shared.file 5 = some (.conn 0) ∧
      s.shared.serving () = ⟨5, ⟨false, 0, 0⟩, [], [], []⟩ ∧ s.shared.rx 0 = (e.client 0).1 ∧
      s.routine () = some (Worker.handlerRequest 5 ⟨false, 0, 0⟩) := by
  have h0 : (system Unit e).Reachable ⟨called e, fun _ => none⟩ := by
    refine .init ⟨⟨?_, rfl, rfl, fun fd hfd => if_pos hfd, fun _ => rfl, rfl⟩, fun _ => rfl⟩
    refine ⟨⟨4, rfl, rfl⟩, rfl, fun fd => ?_, fun fd c => ?_, rfl, rfl, rfl, rfl⟩
    · show (if fd < 3 then _ else _) ≠ _ → fd < e.limit
      split_ifs <;> intro h <;> first | omega | exact absurd rfl h
    · show (if fd < 3 then _ else _) ≠ _
      split_ifs <;> simp
  have h1 := h0.step (.env .connect)
  have hfree : OpenFiles.Free e.limit (called e).loop.fds 5 := ⟨hlimit, rfl⟩
  have h2 := h1.step (.env (.accept4 rfl rfl hfree rfl))
  have h3 := h2.step (.env (.pool (.push_lock (p := ()) rfl rfl) rfl nofun))
  have h4 := h3.step (.env (.pool (.push (p := ()) rfl) rfl nofun))
  have h5 := h4.step (.env (.pool (.push_unLock (p := ()) rfl) rfl nofun))
  have h6 := h5.step (.env (.pool (.lock (w := ()) rfl rfl) rfl id))
  have h7 := h6.step (.env (.pool (.size_pos (w := ()) rfl nofun) rfl id))
  have h8 := h7.step (.env (.pool (.popTask (w := ()) rfl rfl) rfl id))
  have h9 := h8.step (.env (.pool (.unLock (w := ()) rfl) rfl id))
  have h10 := h9.step (.start (w := ()) rfl ⟨(⟨5⟩, 0), ⟨false, 0, 0⟩, rfl, rfl, rfl⟩)
  exact ⟨_, h10, rfl, rfl, rfl, rfl⟩

/-- What is left of `handlerRequest 5` when the response has been built. -/
def sendingRoutine (ep : EndPoint) : Calling EndPoint := do
  Worker.sendHttpResponse ep
  Calling.close 5
  return ep

section
variable {bytes line : Bytes}
  (hep : ((EndPoint.new 5 ⟨false, 0, 0⟩).recvHttpRequest (arrived bytes true)).1 =
    EndPoint.parsed (.new 5 ⟨false, 0, 0⟩) line)
  (hcode : EndPoint.codeOf line = BAD_REQUEST) (hcgi : (EndPoint.requestOf line).cgi = false)
include hep hcode hcgi

/-- The request has been read, which is a bad one, and there is no page to send. -/
theorem reachable_sending : ∃ s : Running KernelCall.Answer (Server ℕ Unit) Unit EndPoint,
    ∃ ep : EndPoint, (system Unit (sends bytes)).Reachable s ∧
      s.shared.file 5 = some (.conn 0) ∧
      s.shared.serving () = ⟨5, ⟨false, 0, 0⟩, [false], [], []⟩ ∧
      s.routine () = some (sendingRoutine ep) ∧
      ep.sock = 5 ∧ ep.resp.responseHeader = [] ∧ ep.req.cgi = false ∧ ep.resp.fd = -1 := by
  obtain ⟨s, h, hfile, hserving, hrx, hw⟩ := reachable_serving (sends bytes) (show 5 < 16 by decide)
  have hconn : s.shared.conn 5 = some 0 := by rw [conn, hfile]
  rw [show arrived bytes true = s.shared.rx 0 from hrx.symm, EndPoint.parsed_new] at hep
  -- the page for 400 is looked for, and there is none
  have hbuild {t : Server ℕ Unit} {ep : EndPoint} (hbad : ep.resp.statusCode = BAD_REQUEST) :
      Host.Completes (host Unit (sends bytes)) () t (Worker.buildHttpResponse ep)
        (t.meet () false) (ep.withStatus.withFd (-1)) := by
    have heq : Worker.buildHttpResponse ep = Worker.buildErrorHeader PAGE_400 ep.withStatus := by
      simp [Worker.buildHttpResponse, Worker.locate, Worker.buildResponseHelper, hbad, BAD_REQUEST,
        EndPoint.withStatus]
    rw [heq]
    exact .call (.open_missing fun f hf => by cases hf) (.done _ _)
  have h₁ := h.step (.call hw (.receive hconn))
  set ep := ((EndPoint.new 5 ⟨false, 0, 0⟩).recvHttpRequest (s.shared.rx 0)).1 with hdef
  have hif : (if ep.stop then Calling.close 5 >>= fun _ => pure ep
      else Worker.buildHttpResponse ep >>= sendingRoutine) =
        Worker.buildHttpResponse ep >>= sendingRoutine := if_neg (by simp [hep])
  have h₂ := (hbuild (by rw [hep]; exact hcode)).reachable h₁
    (show _ = some (Worker.buildHttpResponse ep >>= sendingRoutine) from congrArg some hif)
  refine ⟨_, ep.withStatus.withFd (-1), h₂, hfile, ?_, rfl, ?_, ?_, ?_, rfl⟩
  · simp [meet, note, hserving]
  · rw [hep]; rfl
  · rw [hep]; rfl
  · rw [hep]; exact hcgi

/-- The response has been sent, and the connection is closed. -/
theorem reachable_answered : ∃ s : Running KernelCall.Answer (Server ℕ Unit) Unit EndPoint,
    (system Unit (sends bytes)).Reachable s ∧
      (0, ⟨5, ⟨false, 0, 0⟩, [false], [], []⟩) ∈ s.shared.answered := by
  obtain ⟨s, ep, h, hfile, hserving, hw, hsock, hheader, hcgi, hfd⟩ :=
    reachable_sending hep hcode hcgi
  have hconn : s.shared.conn ep.sock = some 0 := by rw [conn, hsock, hfile]
  have hsend : Worker.sendHttpResponse ep =
      .call (.send ep.sock ep.resp.statusLine) fun _ => .call (.send ep.sock ep.resp.blank) fun _ =>
        .call (.sendfile ep.sock (-1) (toSizeT ep.resp.fileSize)) fun _ =>
          .call (.close (-1)) .done := by
    rw [Worker.sendHttpResponse, hheader, hcgi, hfd]
    rfl
  have hsends : ∃ tx, Host.Completes (host Unit (sends bytes)) () s.shared
      (Worker.sendHttpResponse ep) { s.shared with tx } () := by
    rw [hsend]
    exact ⟨_, .call (.send hconn) (.call (.send hconn) (.call (.sendfile hconn)
      (.call (.close fun c hc => by cases hc) (.done _ _))))⟩
  obtain ⟨tx, hsends⟩ := hsends
  have h₁ := hsends.reachable h hw
  have hfile' : Server.file { s.shared with tx } 5 = some (.conn 0) := hfile
  have hclose : Host.Completes (host Unit (sends bytes)) () { s.shared with tx }
      (Calling.close 5) _ () := .call (.close_conn hfile') (.done _ _)
  have h₂ := hclose.reachable h₁ (Function.update_self ..)
  exact ⟨_, h₂, List.mem_append_right _ (by simp [hserving])⟩

end

/-- Clients that send the line `X`, and an empty line. -/
def oneLine : Setting ℕ := sends (str "X\n\n")

theorem block_oneLine : Lines.Block CR LF (str "X" :: ([] ++ [[]])) (str "X\n\n") [] := by
  have h2 : Lines.Block CR LF [[]] ([] ++ [LF] ++ []) [] :=
    .cons (by simp) (by simp) .lf .nil
  exact .cons (l := str "X") (by decide +kernel) (by decide +kernel) .lf h2

theorem parsed_oneLine :
    ((EndPoint.new 5 ⟨false, 0, 0⟩).recvHttpRequest (arrived (str "X\n\n") true)).1 =
      EndPoint.parsed (.new 5 ⟨false, 0, 0⟩) (str "X") :=
  (@EndPoint.recvHttpRequest_head 5 ⟨false, 0, 0⟩ rfl _ _ _ [] true block_oneLine (by simp)
    (by decide +kernel)).1

theorem badRequest_oneLine : EndPoint.codeOf (str "X") = BAD_REQUEST ∧
    (EndPoint.requestOf (str "X")).cgi = false := by
  decide +kernel

theorem sending_oneLine : ∃ s : Running KernelCall.Answer (Server ℕ Unit) Unit EndPoint,
    ∃ ep : EndPoint, (system Unit oneLine).Reachable s ∧ s.shared.file 5 = some (.conn 0) ∧
      s.routine () = some (sendingRoutine ep) ∧ ep.sock = 5 := by
  obtain ⟨s, ep, h, hfile, -, hw, hsock, -⟩ :=
    reachable_sending parsed_oneLine badRequest_oneLine.1 badRequest_oneLine.2
  exact ⟨s, ep, h, hfile, hw, hsock⟩

theorem answered_oneLine : ∃ s : Running KernelCall.Answer (Server ℕ Unit) Unit EndPoint,
    (system Unit oneLine).Reachable s ∧
      (0, ⟨5, ⟨false, 0, 0⟩, [false], [], []⟩) ∈ s.shared.answered :=
  reachable_answered parsed_oneLine badRequest_oneLine.1 badRequest_oneLine.2

/-! ## Answers -/

/-- **A connection that has been answered** is as one worker alone leaves it, on
    a disk of its own, with the same calls refused and the same left for its
    children: whatever the others do, and whatever the descriptors of its files
    are, the same is read from it and written to it. -/
theorem answered_alone (hd : e.DiskKept) (h : (system W e).Reachable s) {c : ℕ} {r : Serving}
    (hr : (c, r) ∈ s.shared.answered) :
    (e.handledAlone c r).rx = s.shared.rx c ∧ (e.handledAlone c r).tx = s.shared.tx c := by
  obtain ⟨g, owner, ho, -, -⟩ := owned hd h
  exact ho.books.done (c, r) hr

theorem answered_alone_oneLine :
    ∃ s : Running KernelCall.Answer (Server ℕ Unit) Unit EndPoint,
      (0, ⟨5, ⟨false, 0, 0⟩, [false], [], []⟩) ∈ s.shared.answered ∧
      (oneLine.handledAlone 0 ⟨5, ⟨false, 0, 0⟩, [false], [], []⟩).tx = s.shared.tx 0 := by
  obtain ⟨s, h, hr⟩ := answered_oneLine
  exact ⟨s, hr, (answered_alone (diskKept_sends _) h hr).2⟩

/-- **Every connection that has come in is in one place**: pending, open, answered
    or refused. -/
theorem conservation (hd : e.DiskKept) (h : (system W e).Reachable s) :
    s.shared.loop.fds.Single ∧
    ∀ c, s.shared.loop.queue.count c + s.shared.loop.fds.opened c +
      (s.shared.answered.map Prod.fst).count c + s.shared.loop.refused.count c =
        if c < s.shared.loop.connected then 1 else 0 := by
  obtain ⟨g, owner, ho, -, -⟩ := owned hd h
  exact ⟨ho.books.single, ho.books.place⟩

theorem conservation_oneLine : ∃ s : Running KernelCall.Answer (Server ℕ Unit) Unit EndPoint,
    s.shared.file 5 = some (.conn 0) ∧ s.shared.loop.fds.Single := by
  obtain ⟨s, ep, h, hfile, -⟩ := sending_oneLine
  exact ⟨s, hfile, (conservation (diskKept_sends _) h).1⟩

/-! ## The parts -/

omit [DecidableEq W] in
/-- The loop does not hold what a worker closes. -/
theorem Shares.not_held {s : Server σ W} {w : W} {a : Share} (ha : Shares s owner w a)
    (ho : Owned e s g owner) (hopen : a.isOpen = true) : ¬ s.loop.Holds (.conn a.conn) := by
  rintro (hf | hf | ⟨p, c, hp, hf⟩)
  · cases hf
  · cases hf
  · cases hf
    obtain ⟨n, hi⟩ := Option.ne_none_iff_exists'.1 (mt (ho.idle p _ hp).1 (by simp))
    obtain ⟨hn, hfd⟩ := ho.idlefd (.accepted hp hi)
    obtain ⟨hw, hsock, -⟩ := ha.sock hopen
    rw [ho.books.single _ _ _ hfd hsock, hw] at hn
    cases hn

/-- What a worker does to the descriptors, some other thread of `Loop`'s may do. -/
theorem Call.loop_steps {s t : Server σ W} {w : W} {c : KernelCall} {r : c.Answer} {a : Share}
    (ho : Owned e s g owner) (hw : g w = some a) (hpre : (workerContract e).pre a c)
    (h : Call e w s c r t) (hl : (LoopState.loop e.limit e.files).Reachable s.loop) :
    (LoopState.loop e.limit e.files).Reachable t.loop := by
  have ha := ho.shares w a hw
  cases h with
  | receive | receive_error | send | send_error | sendfile | sendfile_error | stat | open_missing
  | open_refused | pipe_refused | fork | fork_refused | exec | waitpid => exact hl
  | «open» _ _ hfree => exact hl.step (.other_open hfree)
  | @close fd hno =>
    rcases hpre with rfl | ⟨d, hmem, rfl⟩ | ⟨⟨rfl, hopen⟩, -⟩
    · exact hl
    · rw [if_pos (Int.natCast_nonneg _), Int.toNat_natCast]
      refine hl.step (.other_close (ha.own d hmem).2.1 ?_)
      rintro (hf | hf | ⟨p, c, -, hf⟩) <;> cases hf
    · exact absurd (ha.sock hopen).2.1 (hno _)
  | @close_conn fd c hconn =>
    rcases hpre with rfl | ⟨d, hmem, rfl⟩ | ⟨⟨rfl, hopen⟩, -⟩
    · cases hconn
    · rw [ha.file hmem] at hconn
      cases hconn
    · exact hl.step (.other_close (ha.sock hopen).2.1 (ha.not_held ho hopen))
  | pipe hm hn hne =>
    have hn' := (hl.step (.other_open hm)).step
      (.other_open ⟨hn.1, (Function.update_of_ne hne.symm ..).trans hn.2⟩)
    exact hn'

theorem pool_reachable (h : (system W e).Reachable s) :
    (Pool.system W Unit).Reachable s.shared.pool := by
  induction h with
  | init h => exact .init h.1.2.1
  | step _ hst ih =>
    cases hst with
    | env he =>
      cases he with
      | accept4 _ hpool => exact ih.step (.accept _ hpool)
      | loop | connect => exact ih
      | pool hstep => exact ih.step hstep
    | start _ hs =>
      obtain ⟨x, u, -, -, rfl⟩ := hs
      exact ih
    | call _ hc => exact hc.beside.pool ▸ ih
    | finish _ hf =>
      obtain ⟨x, hx, rfl⟩ := hf
      exact ih.step (.handerTask hx)

/-- **The parts of the server**: what its pool and its loop do, they do on their
    own, with any threads that push, and any that open and close descriptors.  So
    what holds of all their runs holds in the server. -/
theorem parts_reachable (hd : e.DiskKept) (h : (system W e).Reachable s) :
    (Pool.system W Unit).Reachable s.shared.pool ∧
      (LoopState.loop e.limit e.files).Reachable s.shared.loop := by
  refine ⟨pool_reachable h, ?_⟩
  induction h with
  | init h => exact .init h.1.1
  | @step s t hs hst ih =>
    cases hst with
    | env he =>
      cases he with
      | accept4 hpc _ hfree hq => exact ih.step (.accept4_sock hpc hfree hq)
      | loop _ hstep => exact ih.step hstep
      | connect => exact ih.step .connect
      | pool => exact ih
    | start _ hs =>
      obtain ⟨x, u, -, -, rfl⟩ := hs
      exact ih
    | @call w c next r t hr hc =>
      obtain ⟨g, owner, ho, -, hk⟩ := owned hd hs
      obtain ⟨a, ha, hpre, -⟩ := (hk w).exists_some hr
      exact hc.loop_steps ho ha hpre ih
    | finish _ hf =>
      obtain ⟨x, -, rfl⟩ := hf
      exact ih

theorem parts_reachable_oneLine : ∃ s : Running KernelCall.Answer (Server ℕ Unit) Unit EndPoint,
    s.shared.answered ≠ [] ∧ (Pool.system Unit Unit).Reachable s.shared.pool ∧
      (LoopState.loop oneLine.limit oneLine.files).Reachable s.shared.loop := by
  obtain ⟨s, h, hr⟩ := answered_oneLine
  exact ⟨s, List.ne_nil_of_mem hr, parts_reachable (diskKept_sends _) h⟩

/-! ## Descriptors -/

/-- `fd` is the connection that the worker was given, or a file that it has opened
    and not closed. -/
def Given (s : Server σ W) (w : W) (fd : ℤ) : Prop :=
  (fd = (s.serving w).sock ∧ ∃ c, s.file fd = some (.conn c)) ∨
    ∃ n ∈ (s.serving w).own, fd = (n : ℕ) ∧ s.file fd = some .other

omit [DecidableEq W] in
/-- A call names descriptors of its worker only. -/
theorem Owned.uses {s : Server σ W} {w : W} {a : Share} {c : KernelCall} {fd : ℤ}
    (ho : Owned e s g owner) (hw : g w = some a) (hpre : (workerContract e).pre a c)
    (hfd : fd ∈ c.uses) : fd = -1 ∨ ∃ n : ℕ, fd = n ∧ owner n = .worker w ∧ s.Given w fd := by
  have ha := ho.shares w a hw
  have hsock (h : a.IsSock fd) : ∃ n : ℕ, fd = n ∧ owner n = .worker w ∧ s.Given w fd := by
    obtain ⟨rfl, hopen⟩ := h
    refine ⟨a.sock, rfl, (ha.sock hopen).1, .inl ⟨?_, _, (ha.sock hopen).2.1⟩⟩
    rw [ha.serving]
    rfl
  have hown (h : ∃ d ∈ a.own, (d.1 : ℤ) = fd) :
      ∃ n : ℕ, fd = n ∧ owner n = .worker w ∧ s.Given w fd := by
    obtain ⟨d, hd, rfl⟩ := h
    refine ⟨d.1, rfl, (ha.own d hd).1, .inr ⟨d.1, ?_, rfl, (ha.own d hd).2.1⟩⟩
    rw [ha.serving]
    exact List.mem_map_of_mem hd
  cases c with
  | receive | send =>
    cases List.mem_singleton.1 hfd
    exact .inr (hsock hpre)
  | sendfile sock fd' count =>
    rcases List.mem_cons.1 hfd with rfl | hfd
    · exact .inr (hsock hpre.1)
    · cases List.mem_singleton.1 hfd
      exact hpre.2.imp_right hown
  | close =>
    cases List.mem_singleton.1 hfd
    rcases hpre with h | h | h
    · exact .inl h
    · exact .inr (hown h)
    · exact .inr (hsock h.1)
  | stat | «open» | pipe | fork | exec | waitpid => cases hfd

/-- **No descriptor is used by two threads, or after it has been closed**: those
    that a call names are the connection that its worker was given, and files that
    it has opened and not closed.  They are not those of another worker, of a task
    in the queue or on its way there, nor the one that the loop is going to close. -/
theorem uses_own (hd : e.DiskKept) (h : (system W e).Reachable s) {w : W} {c : KernelCall}
    {next : c.Answer → Calling EndPoint} (hw : s.routine w = some (.call c next)) {fd : ℤ}
    (hfd : fd ∈ c.uses) (hne : fd ≠ -1) :
    2 < fd ∧ s.shared.Given w fd ∧
    (∀ v c' next', s.routine v = some (.call c' next') → fd ∈ c'.uses → v = w) ∧
    (∀ x ∈ s.shared.pool.q, x.1.sock ≠ fd) ∧
    (∀ x, (s.shared.pool.producer ()).task = some x → x.sock ≠ fd) ∧
    ∀ n : ℕ, (s.shared.loop.pc.HasReserve ∨ ∃ p k, s.shared.loop.pc = .closeAccepted p (some k)) →
      s.shared.loop.idlefd = some n → (n : ℤ) ≠ fd := by
  obtain ⟨g, owner, ho, -, hk⟩ := owned hd h
  obtain ⟨a, ha, hpre, -⟩ := (hk w).exists_some hw
  obtain ⟨n, rfl, hn, hgiven⟩ := (ho.uses ha hpre hfd).resolve_left hne
  -- nobody but `w` owns it
  have hother {o : Owner W} {fd : ℤ} {k : Option OpenFile} (hdem : Demand s.shared g o fd k)
      (ho' : o ≠ .worker w) : fd ≠ n := by
    obtain ⟨m, f, rfl, hm, -⟩ := ho.demands _ _ _ hdem
    intro he
    rw [Int.ofNat.inj he, hn] at hm
    exact ho' hm.symm
  refine ⟨?_, hgiven, fun v c' next' hv hfd' => ?_, fun x hx => hother (.queued hx) (by simp),
    fun x hx => hother (.pushing hx) (by simp), fun m hpc hi => ?_⟩
  · by_contra hle
    exact hother (.standard (n := n) (by omega)) (by simp) rfl
  · obtain ⟨b, hb, hpre', -⟩ := (hk v).exists_some hv
    obtain ⟨m, hm, hvm, -⟩ := (ho.uses hb hpre' hfd').resolve_left hne
    rw [← Int.ofNat.inj hm, hn] at hvm
    cases hvm
    rfl
  · rcases hpc with hpc | ⟨p, k, hpc⟩
    · exact hother (.reserve hpc hi) (by simp)
    · exact hother (.accepted hpc hi) (by simp)

theorem uses_own_oneLine : ∃ s : Running KernelCall.Answer (Server ℕ Unit) Unit EndPoint,
    (∃ bs next, s.routine () = some (.call (.send 5 bs) next)) ∧ s.shared.Given () 5 ∧
      ∀ x ∈ s.shared.pool.q, x.1.sock ≠ 5 := by
  obtain ⟨s, ep, h, -, hw, hsock⟩ := sending_oneLine
  rw [sendingRoutine, Worker.sendHttpResponse, hsock] at hw
  have huses : (5 : ℤ) ∈ KernelCall.uses (.send 5 ep.resp.statusLine) := by simp [KernelCall.uses]
  have hall := uses_own (diskKept_sends _) h hw huses (by decide)
  exact ⟨s, ⟨_, _, hw⟩, hall.2.1, hall.2.2.2.1⟩

end Server

end MyHttpServer
