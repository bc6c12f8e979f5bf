/-
  The program, from `main` on.

  * `main_meets`: what `main` has done when it gets to `Loop`, and otherwise how it
    exits, whatever the kernel answers;
  * `serverProcess_runs`: from there on the program does what the server does, so
    that what holds in every run of the server holds of the program.
-/
import MyHttpServer.Model.Main
import MyHttpServer.Proof.Server

namespace MyHttpServer

/-! ## The calls of `main` -/

/-- The main thread may make any call, and knows what the kernel does. -/
def Kernel.contract (limit : ℕ) (files : Bytes → Bool) : Contract LaunchCall.Answer Kernel where
  pre _ _ := True
  post k c r k' := k.Call limit files c r k'

namespace Launch
variable {limit : ℕ} {files : Bytes → Bool} {k : Kernel}

/-- With a `/dev/null`, an `open` fails only if no descriptor is free. -/
theorem openNull_meets (hnull : files (str "/dev/null") = true) :
    openNull.Meets (Kernel.contract limit files) k fun r k' =>
      (∃ fd : ℕ, r = fd ∧ k.fds.Free limit fd ∧
        k' = { k with fds := Function.update k.fds fd (some .null) }) ∨
      k.fds.Full limit ∧ k' = k := by
  refine ⟨trivial, ?_⟩
  rintro r k' hc
  cases hc with
  | openNull _ hfree => exact .inl ⟨_, rfl, hfree, rfl⟩
  | openNull_error h => exact .inr ⟨h.resolve_left (by simp [hnull]), rfl⟩

theorem socket_meets : socket.Meets (Kernel.contract limit files) k fun r k' =>
    ∀ listenSock, r = .ok listenSock → ∃ fd : ℕ, listenSock = fd ∧ k.fds.Free limit fd ∧
      k' = { k with fds := Function.update k.fds fd (some .listen) } := by
  refine ⟨trivial, ?_⟩
  rintro r k' hc
  cases hc with
  | socket hfree =>
    rintro l h
    cases h
    exact ⟨_, rfl, hfree, rfl⟩
  | socket_error =>
    rintro l h
    cases h

theorem bind_meets (port listenSock : ℤ) :
    (bind port listenSock).Meets (Kernel.contract limit files) k fun r k' =>
      r = .ok () → k' = { k with port := some (htons port) } := by
  refine ⟨trivial, ?_⟩
  rintro r k' hc
  cases hc with
  | bind => exact fun _ => rfl
  | bind_error =>
    rintro h
    cases h

theorem listen_meets (listenSock : ℤ) :
    (listen listenSock).Meets (Kernel.contract limit files) k fun r k' =>
      r = .ok () → k' = { k with backlog := some BACKLOG } := by
  refine ⟨trivial, ?_⟩
  rintro r k' hc
  cases hc with
  | listen => exact fun _ => rfl
  | listen_error =>
    rintro h
    cases h

theorem initTcpServer_meets (port : ℤ) :
    (initTcpServer port).Meets (Kernel.contract limit files) k fun r k' =>
      ∀ listenSock, r = .ok listenSock → ∃ fd : ℕ, listenSock = fd ∧ k.fds.Free limit fd ∧
        k' = { k with
          fds := Function.update k.fds fd (some .listen)
          port := some (htons port), backlog := some BACKLOG } := by
  rw [initTcpServer, Routine.meets_bind]
  refine socket_meets.mono ?_
  rintro (m | listenSock) k₁ h₁
  · rintro l h
    cases h
  obtain ⟨fd, rfl, hfree, rfl⟩ := h₁ _ rfl
  refine Routine.meets_bind.2 ((bind_meets port fd).mono ?_)
  rintro (m | ⟨⟩) k₂ h₂
  · rintro l h
    cases h
  obtain rfl := h₂ rfl
  refine Routine.meets_bind.2 ((listen_meets fd).mono ?_)
  rintro (m | ⟨⟩) k₃ h₃
  · rintro l h
    cases h
  obtain rfl := h₃ rfl
  rintro l h
  cases h
  exact ⟨fd, rfl, hfree, rfl⟩

/-- Some of the threads are made. -/
theorem initThreadPool_meets (n : ℕ) :
    (initThreadPool n).Meets (Kernel.contract limit files) k fun _ k' =>
      ∃ m ≤ n, k' = { k with threads := k.threads + m } := by
  induction n generalizing k with
  | zero => exact ⟨0, le_rfl, rfl⟩
  | succ n ih =>
    rw [initThreadPool, Routine.meets_bind]
    refine ⟨trivial, ?_⟩
    rintro r k' hc
    cases hc with
    | pthreadCreate =>
      refine ih.mono ?_
      rintro _ k' ⟨m, hm, rfl⟩
      exact ⟨m + 1, by omega, by simp only [Nat.add_assoc, Nat.add_comm 1 m]⟩
    | pthreadCreate_error =>
      refine ih.mono ?_
      rintro _ k' ⟨m, hm, rfl⟩
      exact ⟨m, by omega, rfl⟩

theorem initServer_meets (port : ℤ) :
    (initServer port).Meets (Kernel.contract limit files) k fun r k' =>
      ∀ listenSock, r = .ok listenSock → ∃ fd : ℕ, ∃ m ≤ NUM, listenSock = fd ∧
        k.fds.Free limit fd ∧ k' = {
          fds := Function.update k.fds fd (some .listen)
          sigpipe := .ignore, sigchld := .ignore
          port := some (htons port), backlog := some BACKLOG, threads := k.threads + m } := by
  rw [initServer, Routine.meets_bind]
  refine ⟨trivial, ?_⟩
  rintro r k₁ hc
  cases hc
  refine Routine.meets_bind.2 ⟨trivial, ?_⟩
  rintro r k₂ hc
  cases hc
  refine Routine.meets_bind.2 ((initTcpServer_meets port).mono ?_)
  rintro (m | listenSock) k₃ h₃
  · rintro l h
    cases h
  obtain ⟨fd, rfl, hfree, rfl⟩ := h₃ _ rfl
  refine Routine.meets_bind.2 ((initThreadPool_meets NUM).mono ?_)
  rintro ⟨⟩ k₄ ⟨m, hm, rfl⟩ l h
  cases h
  exact ⟨fd, m, hm, rfl, hfree, rfl⟩

/-- The process when `Loop` is called: two descriptors of `/dev/null`, of which the
    server that is used has the second, and the listening socket. -/
structure Launches (limit : ℕ) (k : Kernel) (arg : Bytes) (idlefd : ℤ) (k' : Kernel) : Prop where
  fds : ∃ (unused idle sock : ℕ) (t₁ t₂ : OpenFiles), idlefd = idle ∧
    k.fds.Free limit unused ∧ t₁ = Function.update k.fds unused (some .null) ∧
    t₁.Free limit idle ∧ t₂ = Function.update t₁ idle (some .null) ∧
    t₂.Free limit sock ∧ k'.fds = Function.update t₂ sock (some .listen)
  sigpipe : k'.sigpipe = .ignore
  sigchld : k'.sigchld = .ignore
  port : k'.port = some (htons (atoi arg))
  backlog : k'.backlog = some BACKLOG
  threads : k'.threads ≤ k.threads + NUM

/-- How `main` can end. -/
def Ends (limit : ℕ) (argv : List Bytes) (k : Kernel) : Launched → Kernel → Prop
  | .usage, _ => argv.length ≠ 2
  | .errExit _, _ => argv.length = 2
  | .loop _ idlefd, k' => ∃ name arg, argv = [name, arg] ∧ Launches limit k arg idlefd k'

/-- **What `main` does**, whatever the kernel answers. -/
theorem main_meets (hnull : files (str "/dev/null") = true) (argv : List Bytes) :
    (main argv).Meets (Kernel.contract limit files) k (Ends limit argv k) := by
  rcases argv with _ | ⟨name, _ | ⟨arg, _ | ⟨_, _⟩⟩⟩
  · exact Nat.zero_ne_add_one 1
  · exact Nat.succ_ne_succ_iff.2 Nat.zero_ne_one
  · refine Routine.meets_bind.2 ((openNull_meets hnull).mono fun r₁ k₁ h₁ => ?_)
    refine Routine.meets_bind.2 ((openNull_meets hnull).mono fun idlefd k₂ h₂ => ?_)
    refine Routine.meets_bind.2 ((initServer_meets (atoi arg)).mono ?_)
    rintro (m | listenSock) k₃ h₃
    · exact rfl
    obtain ⟨sock, n, hn, -, hsock, rfl⟩ := h₃ _ rfl
    -- a socket is not made if there was no descriptor left for `/dev/null`
    rcases h₂ with ⟨idle, rfl, hidle, rfl⟩ | ⟨hfull, rfl⟩
    swap
    · exact absurd hfull hsock.not_full
    rcases h₁ with ⟨unused, -, hunused, rfl⟩ | ⟨hfull, rfl⟩
    swap
    · exact absurd hfull hidle.not_full
    exact ⟨name, arg, rfl, ⟨unused, idle, sock, _, _, rfl, hunused, rfl, hidle, rfl, hsock, rfl⟩,
      rfl, rfl, rfl, rfl, Nat.add_le_add_left hn _⟩
  · exact fun h => by simp at h

/-- `Loop` is called as it is meant to be. -/
theorem Launches.start {arg : Bytes} {idlefd : ℤ} {k' : Kernel} (hk : k.Start limit)
    (h : Launches limit k arg idlefd k') :
    (k'.loopState idlefd).Start limit ∧ (∀ fd < 3, k'.fds fd = some .other) ∧
      k'.threads ≤ NUM := by
  obtain ⟨hfds, hlimit, hthreads⟩ := hk
  obtain ⟨unused, idle, sock, _, _, rfl, hunused, rfl, hidle, rfl, hsock, he⟩ := h.fds
  have hne : idle ≠ sock := by
    rintro rfl
    simpa using hsock.2
  have hused (fd : ℕ) (f : OpenFile) (hf : k'.fds fd = some f) :
      fd < limit ∧ ∀ c, f ≠ .conn c := by
    rw [he] at hf
    simp only [Function.update_apply, hfds] at hf
    split_ifs at hf with h1 h2 h3 h4
    · cases hf
      exact ⟨h1 ▸ hsock.1, by simp⟩
    · cases hf
      exact ⟨h2 ▸ hidle.1, by simp⟩
    · cases hf
      exact ⟨h3 ▸ hunused.1, by simp⟩
    · cases hf
      exact ⟨by omega, by simp⟩
  refine ⟨⟨⟨idle, ?_, ?_⟩, rfl, ?_, ?_, rfl, rfl, rfl, rfl⟩, ?_, ?_⟩
  · simp [Kernel.loopState]
  · simp [Kernel.loopState, he, hne]
  · intro fd hfd
    obtain ⟨f, hf⟩ := Option.ne_none_iff_exists'.1 hfd
    exact (hused fd f hf).1
  · intro fd c hfd
    exact (hused fd _ hfd).2 c rfl
  · intro n hn
    have hfree {t : OpenFiles} {fd : ℕ} (ht : t.Free limit fd) (h0 : t n = some .other) :
        n ≠ fd := by
      rintro rfl
      rw [ht.2] at h0
      cases h0
    have h0 : k.fds n = some .other := by simp [hfds, hn]
    have h1 := hfree hunused h0
    have h2 := hfree hidle (by rw [Function.update_of_ne h1, h0])
    have h3 := hfree hsock (by rw [Function.update_of_ne h2, Function.update_of_ne h1, h0])
    rw [he, Function.update_of_ne h3, Function.update_of_ne h2, Function.update_of_ne h1, h0]
  · have := h.threads
    omega

end Launch

/-! ## The program -/

section
variable {σ : Type} {e : Setting σ} {argv : List Bytes} {p : ServerProcess σ}

/-- Without a worker nobody is answered. -/
theorem Server.answered_of_isEmpty {W : Type} [DecidableEq W] [IsEmpty W]
    {s : Running KernelCall.Answer (Server σ W) W EndPoint}
    (h : (Server.system W e).Reachable s) : s.shared.answered = [] := by
  refine System.Reachable.induct (I := fun s => s.shared.answered = []) ?_ ?_ h
  · rintro s ⟨⟨-, -, -, -, -, hs⟩, -⟩
    exact hs
  · intro s t hs hst
    cases hst with
    | env he => cases he <;> exact hs
    | start | call | finish => exact isEmptyElim ‹W›

/-- What is left of `main`, or the server. -/
def ServerProcess.Inv (e : Setting σ) (argv : List Bytes) : ServerProcess σ → Prop
  | .launching k p => ∃ k₀ : Kernel, k₀.Start e.limit ∧
      p.Meets (Kernel.contract e.limit e.files) k (Launch.Ends e.limit argv k₀)
  | .serving k s => (∃ k₀ : Kernel, ∃ name arg idlefd, k₀.Start e.limit ∧ argv = [name, arg] ∧
      Launch.Launches e.limit k₀ arg idlefd k) ∧ (Server.system (Fin k.threads) e).Reachable s
  | .ended status => status = if argv.length = 2 then 1 else 0

theorem ServerProcess.Inv.step {q : ServerProcess σ} (h : p.Inv e argv)
    (hst : ServerProcess.Step e p q) : q.Inv e argv := by
  cases hst with
  | call hc =>
    obtain ⟨k₀, hk, -, hnext⟩ := h
    exact ⟨k₀, hk, hnext _ _ hc⟩
  | usage =>
    obtain ⟨k₀, -, hends⟩ := h
    exact (if_neg hends).symm
  | errExit =>
    obtain ⟨k₀, -, hends⟩ := h
    exact (if_pos hends).symm
  | loop hb =>
    obtain ⟨k₀, hk, name, arg, rfl, hl⟩ := h
    obtain ⟨hloop, hpool, hdisk, hclient, hans⟩ := hb
    obtain ⟨hstart, hstd, -⟩ := hl.start hk
    refine ⟨⟨k₀, name, arg, _, hk, rfl, hl⟩, .init ⟨⟨?_, hpool, hdisk, ?_, hclient, hans⟩,
      fun _ => rfl⟩⟩
    · rw [hloop]
      exact hstart
    · rw [hloop]
      exact hstd
  | serve hs => exact ⟨h.1, h.2.step hs⟩
  | exited =>
    obtain ⟨⟨k₀, name, arg, idlefd, -, rfl, -⟩, -⟩ := h
    rfl

/-- **The program, from `main` on.**  What serves is a server in a state that it
    reaches, with at most three workers, on the port that was asked for.  The
    process ends with 0 only for a wrong number of arguments. -/
theorem serverProcess_runs (hnull : e.files (str "/dev/null") = true)
    (h : (serverProcess e argv).Reachable p) :
    (∀ k s, p = .serving k s → (∃ name arg, argv = [name, arg] ∧
        k.port = some (Launch.htons (atoi arg))) ∧
      k.backlog = some Launch.BACKLOG ∧ k.sigpipe = .ignore ∧ k.sigchld = .ignore ∧
      k.threads ≤ NUM ∧ (Server.system (Fin k.threads) e).Reachable s ∧
      (k.threads = 0 → s.shared.answered = [])) ∧
    ∀ status, p = .ended status → status = if argv.length = 2 then 1 else 0 := by
  have hp : p.Inv e argv := by
    refine System.Reachable.induct (I := (·.Inv e argv)) ?_ (fun _ _ => .step) h
    rintro p ⟨k, hk, rfl⟩
    exact ⟨k, hk, Launch.main_meets hnull argv⟩
  constructor
  · rintro k s rfl
    obtain ⟨⟨k₀, name, arg, idlefd, hk, rfl, hl⟩, hs⟩ := hp
    refine ⟨⟨name, arg, rfl, hl.port⟩, hl.backlog, hl.sigpipe, hl.sigchld, (hl.start hk).2.2, hs,
      fun h0 => ?_⟩
    have : IsEmpty (Fin k.threads) := h0 ▸ Fin.isEmpty
    exact Server.answered_of_isEmpty hs
  · rintro status rfl
    exact hp

end

/-- A site with a `/dev/null`, for up to three connections at a time. -/
def sixFds : Setting ℕ where
  machine := noFiles
  disk := 0
  limit := 6
  files := LoopState.devNull
  client _ := (arrived [] true, { wire := [], plan := [] })

def started : Kernel where
  fds fd := if fd < 3 then some .other else none
  sigpipe := .default
  sigchld := .default
  port := none
  backlog := none
  threads := 0

/-- All goes well, but for one of the threads. -/
theorem reachable_served : ∃ k s, (serverProcess sixFds [str "./http_server", str "8081"]).Reachable
    (.serving k s) ∧ k.threads = 2 := by
  have h₀ : (serverProcess sixFds [str "./http_server", str "8081"]).Reachable
      (.launching started (Launch.main [str "./http_server", str "8081"])) :=
    .init ⟨started, ⟨fun _ => rfl, by decide, rfl⟩, rfl⟩
  have hnull : sixFds.files (str "/dev/null") = true := by decide +kernel
  have h₁ := h₀.step (.call (@Kernel.Call.openNull _ _ _ 3 hnull ⟨by decide, by decide⟩))
  have h₂ := h₁.step (.call (@Kernel.Call.openNull _ _ _ 4 hnull ⟨by decide, by decide⟩))
  have h₃ := h₂.step (.call .ignoreSigpipe)
  have h₄ := h₃.step (.call .ignoreSigchld)
  have h₅ := h₄.step (.call (@Kernel.Call.socket _ _ _ 5 ⟨by decide, by decide⟩))
  have h₆ := h₅.step (.call (@Kernel.Call.bind _ _ _ 5 _ (by decide)))
  have h₇ := h₆.step (.call (@Kernel.Call.listen _ _ _ 5 _ (by decide)))
  have h₈ := h₇.step (.call .pthreadCreate)
  have h₉ := h₈.step (.call (@Kernel.Call.pthreadCreate_error _ _ _ 11 (by decide)))
  have h₁₀ := h₉.step (.call .pthreadCreate)
  exact ⟨_, _, h₁₀.step (.loop (s := ⟨_, .start, 0, fun _ => [], fun _ => arrived [] true,
    fun _ => { wire := [], plan := [] }, fun _ => ⟨0, ⟨false, 0, 0⟩, [], [], []⟩, []⟩)
    ⟨rfl, rfl, rfl, fun _ => rfl, rfl⟩), rfl⟩

theorem serverProcess_runs_served : ∃ k s,
    (serverProcess sixFds [str "./http_server", str "8081"]).Reachable (.serving k s) ∧
      k.port = some 8081 ∧ (Server.system (Fin k.threads) sixFds).Reachable s := by
  obtain ⟨k, s, h, -⟩ := reachable_served
  obtain ⟨⟨name, arg, hargv, hport⟩, -, -, -, -, hs, -⟩ :=
    (serverProcess_runs (by decide +kernel) h).1 k s rfl
  have hnumber : Launch.htons (atoi (str "8081")) = 8081 := by decide +kernel
  cases hargv
  exact ⟨k, s, h, hport.trans (congrArg some hnumber), hs⟩

end MyHttpServer
