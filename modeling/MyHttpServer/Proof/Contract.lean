/-
  What a worker has for itself while it handles a request, and that this is all
  it needs.

  A `Share` is the connection of the worker and the descriptors that it has
  opened.  The contract lets a worker call only on these, and says how the
  kernel answers.  It leaves the descriptors that `open` and `pipe` return open,
  which calls are refused, and what the children are left with.

  `Follows p p' g w`: run under the contract from `g`, the code `p` does what
  `p'` does alone from `w`, if the same calls are refused, and the children are
  left with the same.  The descriptors may be others.

  * `Follows.bind`: the rule for sequences;
  * `handlerRequest_meets`: `HandlerRequest` keeps the contract, and when it closes
    its socket, the connection is as `handlerRequest` alone leaves it.
-/
import MyHttpServer.Model.Server
import MyHttpServer.Proof.Build
import MyHttpServer.Proof.Worker

namespace MyHttpServer

/-- What a worker has for itself. -/
structure Share where
  conn : ℕ
  sock : ℕ
  unset : Unset
  rx : RecvSide
  tx : SendSide
  /-- the descriptors that it has opened, and what can be read through them -/
  own : List (ℕ × Bytes)
  met : List Bool
  left : List Leftover
  /-- the socket is open -/
  isOpen : Bool

/-- A process that is alone, with standard input open, for which the calls `met`
    are refused. -/
def alone {σ : Type} (disk : σ) (met : List Bool) : Os σ where
  disk := disk
  fds := [(0, [])]
  refusals := met
  sigchld := .ignore

/-- The CGI programs leave the disk as it is. -/
def Setting.DiskKept {σ : Type} (e : Setting σ) : Prop :=
  ∀ path prog inp, e.machine.program e.disk path = some prog → (prog inp e.disk).disk = e.disk

theorem Setting.DiskKept.childRun {σ : Type} {e : Setting σ} (h : e.DiskKept) (left : Leftover)
    (path : Bytes) (inp : CgiInput) : (left.childRun e.machine e.disk path inp).disk = e.disk := by
  rw [Leftover.childRun]
  cases hp : e.machine.program e.disk path with
  | some prog => exact h _ _ _ hp
  | none => rfl

/-- The connection `c`, handled alone with the calls `r.met` refused, and `r.left`
    left for the children. -/
def Setting.handledAlone {σ : Type} (e : Setting σ) (c : ℕ) (r : Serving) :
    World (σ × List Leftover) :=
  (handlerRequest e.machine.leaving r.sock r.unset
    ⟨(e.client c).1, (e.client c).2, alone (e.disk, r.left) r.met⟩).2

namespace Share
variable (g : Share)

def contentOf (fd : ℤ) : Option Bytes := (g.own.find? fun e => (e.1 : ℤ) = fd).map Prod.snd

def meet (refused : Bool) : Share := { g with met := g.met ++ [refused] }

def leave (left : Leftover) : Share := { g with left := g.left ++ [left] }

def alloc (fd : ℕ) (content : Bytes) : Share := { g with own := g.own ++ [(fd, content)] }

/-- `fd` may be given out. -/
def Free (fd : ℕ) : Prop := 0 < fd ∧ fd ≠ g.sock ∧ ∀ e ∈ g.own, e.1 ≠ fd

def closeFd (fd : ℤ) : Share :=
  { g with
    own := g.own.filter fun e => (e.1 : ℤ) ≠ fd
    isOpen := g.isOpen && ((g.sock : ℤ) != fd) }

/-- `close(-1)` closes nothing. -/
theorem closeFd_neg : g.closeFd (-1) = g := by
  have hown : (g.own.filter fun e => (e.1 : ℤ) ≠ -1) = g.own :=
    List.filter_eq_self.2 fun e _ => by simp
  have hsock : ((g.sock : ℤ) != -1) = true := by simp
  rw [closeFd, hown, hsock, Bool.and_true]

/-- The descriptor is the socket of the request. -/
def IsSock (fd : ℤ) : Prop := fd = g.sock ∧ g.isOpen = true

def serving : Serving := ⟨g.sock, g.unset, g.met, g.left, g.own.map Prod.fst⟩

/-- The connection is as a worker that is alone leaves it. -/
def Served {σ : Type} (e : Setting σ) : Prop :=
  (e.handledAlone g.conn g.serving).rx = g.rx ∧ (e.handledAlone g.conn g.serving).tx = g.tx

end Share

/-- What a worker may call, and how it is answered. -/
def workerContract {σ : Type} (e : Setting σ) : Contract KernelCall.Answer Share where
  pre g
    | .receive sock _ | .send sock _ => g.IsSock sock
    | .sendfile sock fd _ => g.IsSock sock ∧ (fd = -1 ∨ ∃ d ∈ g.own, (d.1 : ℤ) = fd)
    | .open _ | .pipe => g.isOpen = true
    | .close fd => fd = -1 ∨ (∃ d ∈ g.own, (d.1 : ℤ) = fd) ∨ (g.IsSock fd ∧ g.Served e)
    | _ => True
  post
    | g, .receive _ ep, r, g' =>
      r = (ep.recvHttpRequest g.rx).1 ∧ g' = { g with rx := (ep.recvHttpRequest g.rx).2 }
    | g, .send _ bs, r, g' => r = (g.tx.send bs).1 ∧ g' = { g with tx := (g.tx.send bs).2 }
    | g, .sendfile _ fd count, r, g' =>
      r = (g.tx.sendfile (g.contentOf fd) count).1 ∧
        g' = { g with tx := (g.tx.sendfile (g.contentOf fd) count).2 }
    | g, .stat path, r, g' => r = e.machine.lookup e.disk (cStr path) ∧ g' = g
    | g, .open path, r, g' =>
      (∃ f fd, e.machine.lookup e.disk (cStr path) = some f ∧ f.readable = true ∧ g.Free fd ∧
        r = (fd : ℤ) ∧ g' = (g.alloc fd f.content).meet false) ∨
      (r = (-1 : ℤ) ∧ g' = g.meet true) ∨
      ((∀ f, e.machine.lookup e.disk (cStr path) = some f → f.readable = false) ∧
        r = (-1 : ℤ) ∧ g' = g.meet false)
    | g, .close fd, _, g' => g' = g.closeFd fd
    | g, .pipe, r, g' =>
      (∃ a b, g.Free a ∧ g.Free b ∧ a ≠ b ∧ r = some (a, b) ∧
        g' = ((g.alloc a []).alloc b []).meet false) ∨
      (r = none ∧ g' = g.meet true)
    | g, .fork, r, g' => g' = g.meet (!r)
    | g, .exec path inp, r, g' => ∃ left : Leftover, g' = g.leave left ∧
      r = ((left.childRun e.machine e.disk (cStr path) inp).output,
        (left.childRun e.machine e.disk (cStr path) inp).ending)
    | g, .waitpid _, r, g' => r = none ∧ g' = g

/-! ## Following a worker that is alone -/

/-- The worker still handles the same request. -/
structure Share.Keeps (g g' : Share) : Prop where
  conn : g'.conn = g.conn
  sock : g'.sock = g.sock
  unset : g'.unset = g.unset
  isOpen : g'.isOpen = g.isOpen

theorem Share.Keeps.trans {g g' g'' : Share} (h : g.Keeps g') (h' : g'.Keeps g'') :
    g.Keeps g'' where
  conn := h'.conn.trans h.conn
  sock := h'.sock.trans h.sock
  unset := h'.unset.trans h.unset
  isOpen := h'.isOpen.trans h.isOpen

/-- The two are at the same point of the same connection, and see the same disk. -/
structure Share.Agrees {σ : Type} (e : Setting σ) (g : Share) (w : World (σ × List Leftover)) :
    Prop where
  rx : w.rx = g.rx
  tx : w.tx = g.tx
  disk : w.os.disk.1 = e.disk
  sigchld : w.os.sigchld = .ignore
  stdin : 0 ∈ w.os.used
  own : ∀ d ∈ g.own, d.1 ≠ g.sock
  isOpen : g.isOpen = true

/-- With other calls refused from now on, and other things left for the children. -/
def World.facing {σ : Type} (w : World (σ × List Leftover)) (refusals : List Bool)
    (left : List Leftover) : World (σ × List Leftover) :=
  { w with os := { w.os with disk := (w.os.disk.1, left), refusals } }

/-- The worker has come to `g'`, and one that is alone to `b` in `w'`.  On the way
    the calls `ms` are refused, and the children are left with `ls`. -/
structure Comes {σ β : Type} (e : Setting σ) (p' : Calling β) (g : Share)
    (w : World (σ × List Leftover)) (g' : Share) (b : β) (w' : World (σ × List Leftover))
    (ms : List Bool) (ls : List Leftover) : Prop where
  met : g'.met = g.met ++ ms
  left : g'.left = g.left ++ ls
  run : ∀ ms' ls', p'.run (World.answer e.machine.leaving) (w.facing (ms ++ ms') (ls ++ ls')) =
    (b, w'.facing ms' ls')
  keeps : g.Keeps g'
  agrees : g'.Agrees e w'

/-- What the code `p` of a worker that has `g` does is what `p'` does alone from
    `w`, with the same calls refused, and they end with `Rel`. -/
def Follows {σ α β : Type} (e : Setting σ) (p : Calling α) (p' : Calling β) (g : Share)
    (w : World (σ × List Leftover))
    (Rel : α → Share → β → World (σ × List Leftover) → Prop) : Prop :=
  p.Meets (workerContract e) g fun a g' =>
    ∃ b w' ms ls, Comes e p' g w g' b w' ms ls ∧ Rel a g' b w'

theorem Comes.trans {σ β γ : Type} {e : Setting σ} {p' : Calling β} {f' : β → Calling γ}
    {g g' g'' : Share} {w w' w'' : World (σ × List Leftover)} {b : β} {c : γ}
    {ms ms' : List Bool} {ls ls' : List Leftover} (h : Comes e p' g w g' b w' ms ls)
    (h' : Comes e (f' b) g' w' g'' c w'' ms' ls') :
    Comes e (p' >>= f') g w g'' c w'' (ms ++ ms') (ls ++ ls') where
  met := by rw [h'.met, h.met, List.append_assoc]
  left := by rw [h'.left, h.left, List.append_assoc]
  run ms'' ls'' := by
    rw [Routine.run_bind, List.append_assoc, List.append_assoc, h.run, h'.run]
  keeps := h.keeps.trans h'.keeps
  agrees := h'.agrees

namespace Follows
variable {σ α β γ δ : Type} {e : Setting σ} {g : Share} {w : World (σ × List Leftover)}
  {Rel : α → Share → β → World (σ × List Leftover) → Prop}
  {Rel' : γ → Share → δ → World (σ × List Leftover) → Prop}

/-- **The rule for sequences.** -/
theorem bind {p : Calling α} {p' : Calling β} {f : α → Calling γ} {f' : β → Calling δ}
    (h : Follows e p p' g w Rel)
    (hf : ∀ a g' b w', g.Keeps g' → g'.Agrees e w' → Rel a g' b w' →
      Follows e (f a) (f' b) g' w' Rel') :
    Follows e (p >>= f) (p' >>= f') g w Rel' := by
  refine Routine.meets_bind.2 (h.mono ?_)
  rintro a g' ⟨b, w', ms, ls, hc, hr⟩
  refine (hf a g' b w' hc.keeps hc.agrees hr).mono ?_
  rintro c g'' ⟨d, w'', ms', ls', hc', hr'⟩
  exact ⟨d, w'', _, _, hc.trans hc', hr'⟩

theorem mono {Rel' : α → Share → β → World (σ × List Leftover) → Prop} {p : Calling α}
    {p' : Calling β}
    (h : Follows e p p' g w Rel) (hr : ∀ a g' b w', Rel a g' b w' → Rel' a g' b w') :
    Follows e p p' g w Rel' := by
  refine Routine.Meets.mono h ?_
  rintro a g' ⟨b, w', ms, ls, hc, hab⟩
  exact ⟨b, w', ms, ls, hc, hr _ _ _ _ hab⟩

theorem done {a : α} {b : β} (hg : g.Agrees e w) (h : Rel a g b w) :
    Follows e (.done a) (.done b) g w Rel :=
  ⟨b, w, [], [], ⟨by simp, by simp, fun _ _ => rfl, ⟨rfl, rfl, rfl, rfl⟩, hg⟩, h⟩

/-- One call. -/
theorem ask {c c' : KernelCall}
    {Rel : c.Answer → Share → c'.Answer → World (σ × List Leftover) → Prop}
    (hpre : (workerContract e).pre g c)
    (h : ∀ r g', (workerContract e).post g c r g' →
      ∃ b w' ms ls, Comes e (.ask c') g w g' b w' ms ls ∧ Rel r g' b w') :
    Follows e (.ask c) (.ask c') g w Rel :=
  ⟨hpre, h⟩

end Follows

/-! ## One call -/

/-- The descriptors `fd` of the worker and `fd'` of the one that is alone are both
    -1, or the same can be read through them. -/
def Handle {σ : Type} (g : Share) (w : World (σ × List Leftover)) (fd fd' : ℤ) : Prop :=
  (fd = -1 ∧ fd' = -1) ∨
    (0 < fd ∧ 0 < fd' ∧ (∃ d ∈ g.own, (d.1 : ℤ) = fd) ∧ g.contentOf fd = w.os.contentOf fd')

section
variable {σ : Type} {e : Setting σ} {g g' : Share} {w w' : World (σ × List Leftover)} {fd fd' : ℤ}

theorem Handle.keep (h : Handle g w fd fd') (hg : g'.own = g.own) (hw : w'.os.fds = w.os.fds) :
    Handle g' w' fd fd' := by
  rw [Handle, Share.contentOf, Os.contentOf, hg, hw]
  exact h

theorem Handle.pos_iff (h : Handle g w fd fd') : 0 < fd ↔ 0 < fd' := by
  rcases h with ⟨rfl, rfl⟩ | ⟨h, h', -⟩
  · rfl
  · exact iff_of_true h h'

theorem Handle.contentOf (h : Handle g w fd fd') : g.contentOf fd = w.os.contentOf fd' := by
  rcases h with ⟨rfl, rfl⟩ | ⟨-, -, -, h⟩
  · rw [Os.contentOf_neg, Share.contentOf, Option.map_eq_none_iff, List.find?_eq_none]
    rintro ⟨n, bs⟩ -
    simp
  · exact h

/-- What a worker has opened last can be read. -/
theorem Share.contentOf_alloc {n : ℕ} (h : g.Free n) (content : Bytes) :
    (g.alloc n content).contentOf n = some content := by
  have hn : g.own.find? (fun d => decide ((d.1 : ℤ) = n)) = none := by
    rw [List.find?_eq_none]
    intro d hd
    simpa using h.2.2 d hd
  rw [contentOf, alloc, List.find?_append, hn]
  simp

/-- A worker that is alone is given a descriptor other than 0. -/
theorem World.lowestFree_pos (h : 0 ∈ w.os.used) : 0 < w.os.lowestFree := by
  have := w.os.lowestFree_eq_zero.not.2 (not_not.2 h)
  omega

namespace Follows

theorem receive {sock : ℤ} (sock' : ℤ) (hs : g.IsSock sock) (hg : g.Agrees e w) (ep : EndPoint) :
    Follows e (Calling.receive sock ep) (Calling.receive sock' ep) g w fun a _ b _ =>
      a = b ∧ b = (ep.recvHttpRequest g.rx).1 := by
  refine ask hs ?_
  rintro r g' ⟨rfl, rfl⟩
  refine ⟨_, { w with rx := (ep.recvHttpRequest g.rx).2 }, [], [],
    ⟨by simp, by simp, fun ms ls => ?_, ⟨rfl, rfl, rfl, rfl⟩,
      ⟨rfl, hg.tx, hg.disk, hg.sigchld, hg.stdin, hg.own, hg.isOpen⟩⟩, rfl, rfl⟩
  show Routine.run _ (Calling.receive sock' ep) _ = _
  rw [Worker.run_receive, show (w.facing ([] ++ ms) ([] ++ ls)).rx = g.rx from hg.rx]
  rfl

theorem send {sock sock' : ℤ} (hs : g.IsSock sock) (hg : g.Agrees e w) (bs : Bytes) :
    Follows e (Calling.send sock bs) (Calling.send sock' bs) g w fun a g' b w' =>
      a = b ∧ g'.own = g.own ∧ w'.os.fds = w.os.fds := by
  refine ask hs ?_
  rintro r g' ⟨rfl, rfl⟩
  refine ⟨_, { w with tx := (g.tx.send bs).2 }, [], [], ⟨by simp, by simp, fun ms ls => ?_,
    ⟨rfl, rfl, rfl, rfl⟩, ⟨hg.rx, rfl, hg.disk, hg.sigchld, hg.stdin, hg.own, hg.isOpen⟩⟩,
    rfl, rfl, rfl⟩
  show Routine.run _ (Calling.send sock' bs) _ = _
  rw [Worker.run_send, show (w.facing ([] ++ ms) ([] ++ ls)).tx = g.tx from hg.tx]
  rfl

theorem sendfile {sock sock' : ℤ} (hs : g.IsSock sock) (hg : g.Agrees e w)
    (hfd : Handle g w fd fd') (count : ℕ) :
    Follows e (Calling.sendfile sock fd count) (Calling.sendfile sock' fd' count) g w
      fun _ g' _ w' => g'.own = g.own ∧ w'.os.fds = w.os.fds := by
  refine ask ⟨hs, hfd.imp And.left fun h => h.2.2.1⟩ ?_
  rintro r g' ⟨rfl, rfl⟩
  refine ⟨(g.tx.sendfile (g.contentOf fd) count).1,
    { w with tx := (g.tx.sendfile (g.contentOf fd) count).2 }, [], [],
    ⟨by simp, by simp, fun ms ls => ?_, ⟨rfl, rfl, rfl, rfl⟩,
      ⟨hg.rx, rfl, hg.disk, hg.sigchld, hg.stdin, hg.own, hg.isOpen⟩⟩, rfl, rfl⟩
  show Routine.run _ (Calling.sendfile sock' fd' count) _ = _
  rw [Worker.run_sendfile, show (w.facing ([] ++ ms) ([] ++ ls)).tx = g.tx from hg.tx,
    show (w.facing ([] ++ ms) ([] ++ ls)).os.contentOf fd' = g.contentOf fd from hfd.contentOf.symm]
  rfl

theorem stat (hg : g.Agrees e w) (path : Bytes) :
    Follows e (Calling.stat path) (Calling.stat path) g w fun a g' b w' =>
      a = b ∧ g'.own = g.own ∧ w'.os.fds = w.os.fds := by
  refine ask trivial ?_
  rintro r g' ⟨rfl, rfl⟩
  refine ⟨e.machine.lookup e.disk (cStr path),
    { w with os := w.os.note (.stat (cStr path)) }, [], [], ⟨by simp, by simp, fun ms ls => ?_,
    ⟨rfl, rfl, rfl, rfl⟩, ⟨hg.rx, hg.tx, hg.disk, hg.sigchld, hg.stdin, hg.own, hg.isOpen⟩⟩,
    rfl, rfl, rfl⟩
  show Routine.run _ (Calling.stat path) _ = _
  rw [Worker.run_stat, Os.stat, ← hg.disk]
  rfl

theorem openFile (hg : g.Agrees e w) (path : Bytes) :
    Follows e (Calling.openFile path) (Calling.openFile path) g w fun a g' b w' =>
      Handle g' w' a b := by
  refine ask hg.isOpen ?_
  rintro r g' (⟨f, n, hl, hf, hfree, rfl, rfl⟩ | ⟨rfl, rfl⟩ | ⟨hno, rfl, rfl⟩)
  · refine ⟨(w.os.lowestFree : ℤ), { w with
        os := w.os.afterOpen path w.os.lowestFree [(w.os.lowestFree, f.content)] }, [false],
      [], ⟨rfl, (List.append_nil _).symm, fun _ _ => ?_, ⟨rfl, rfl, rfl, rfl⟩,
        ⟨hg.rx, hg.tx, hg.disk, hg.sigchld, by simp [hg.stdin], ?_, hg.isOpen⟩⟩,
        .inr ⟨?_, ?_, ?_, ?_⟩⟩
    · show Routine.run _ (Calling.openFile path) _ = _
      rw [Worker.run_openFile, Os.openFile_granted (f := f) rfl (by rw [← hl, ← hg.disk]; rfl) hf]
      rfl
    · intro d hd
      rcases List.mem_append.1 hd with hd | hd
      · exact hg.own d hd
      · rw [List.mem_singleton.1 hd]
        exact hfree.2.1
    · exact_mod_cast hfree.1
    · exact_mod_cast World.lowestFree_pos hg.stdin
    · exact ⟨(n, f.content), List.mem_append_right _ (List.mem_singleton_self _), rfl⟩
    · rw [w.os.contentOf_alloc _ rfl]
      exact Share.contentOf_alloc hfree f.content
  · refine ⟨(-1 : ℤ), { w with os := w.os.afterOpen path (-1) [] }, [true],
      [], ⟨rfl, (List.append_nil _).symm, fun _ _ => ?_, ⟨rfl, rfl, rfl, rfl⟩,
        ⟨hg.rx, hg.tx, hg.disk, hg.sigchld, by simp [hg.stdin], hg.own, hg.isOpen⟩⟩,
        .inl ⟨rfl, rfl⟩⟩
    show Routine.run _ (Calling.openFile path) _ = _
    rw [Worker.run_openFile, Os.openFile_denied fun h => by cases h]
    rfl
  · refine ⟨(-1 : ℤ), { w with os := w.os.afterOpen path (-1) [] }, [false],
      [], ⟨rfl, (List.append_nil _).symm, fun _ _ => ?_, ⟨rfl, rfl, rfl, rfl⟩,
        ⟨hg.rx, hg.tx, hg.disk, hg.sigchld, by simp [hg.stdin], hg.own, hg.isOpen⟩⟩,
        .inl ⟨rfl, rfl⟩⟩
    show Routine.run _ (Calling.openFile path) _ = _
    rw [Worker.run_openFile,
      Os.openFile_denied fun _ f hf => hno f (by rw [← hf, ← hg.disk]; rfl)]
    rfl

/-- A worker closes what it has opened. -/
theorem close (hg : g.Agrees e w) (hfd : fd = -1 ∨ ∃ d ∈ g.own, (d.1 : ℤ) = fd)
    (hfd' : fd' ≠ 0) :
    Follows e (Calling.close fd) (Calling.close fd') g w fun _ g' _ _ =>
      g'.own = g.own.filter fun d => (d.1 : ℤ) ≠ fd := by
  have hsock : ((g.sock : ℤ) != fd) = true := by
    rcases hfd with rfl | ⟨d, hd, rfl⟩
    · simp only [bne_iff_ne, ne_eq]
      omega
    · simpa using (hg.own d hd).symm
  refine ask (hfd.imp_right .inl) ?_
  rintro r g' rfl
  refine ⟨(), { w with os := w.os.close fd' }, [], [],
    ⟨(List.append_nil _).symm, (List.append_nil _).symm, fun _ _ => rfl,
    ⟨rfl, rfl, rfl, ?_⟩, ⟨hg.rx, hg.tx, hg.disk, hg.sigchld, ?_, ?_, ?_⟩⟩, rfl⟩
  · simp [Share.closeFd, hsock]
  · obtain ⟨d, hd, hz⟩ := List.mem_map.1 hg.stdin
    refine List.mem_map.2 ⟨d, List.mem_filter.2 ⟨hd, ?_⟩, hz⟩
    simpa [hz] using hfd'.symm
  · exact fun d hd => hg.own d (List.mem_of_mem_filter hd)
  · simp [Share.closeFd, hsock, hg.isOpen]

theorem pipe (hg : g.Agrees e w) :
    Follows e Calling.pipe Calling.pipe g w fun a g' b _ =>
      (a = none ∧ b = none) ∨ ∃ r t r' t' : ℕ, a = some (r, t) ∧ b = some (r', t') ∧
        0 < r' ∧ 0 < t' ∧ g.Free r ∧ g.Free t ∧ r ≠ t ∧
        g'.own = g.own ++ [(r, []), (t, [])] := by
  refine ask hg.isOpen ?_
  rintro r g' (⟨a, b, ha, hb, hab, rfl, rfl⟩ | ⟨rfl, rfl⟩)
  · have h0 : 0 ∈ (w.os.alloc []).2.used := by
      simp only [Os.used, Os.alloc, List.map_append]
      exact List.mem_append_left _ hg.stdin
    refine ⟨some ((w.os.alloc []).1, ((w.os.alloc []).2.alloc []).1), { w with
        os := ((w.os.alloc []).2.alloc []).2.note
          (.pipe (some ((w.os.alloc []).1, ((w.os.alloc []).2.alloc []).1))) }, [false],
      [], ⟨rfl, (List.append_nil _).symm, fun _ _ => rfl, ⟨rfl, rfl, rfl, rfl⟩,
        ⟨hg.rx, hg.tx, hg.disk, hg.sigchld, ?_, ?_, hg.isOpen⟩⟩,
      .inr ⟨a, b, _, _, rfl, rfl, World.lowestFree_pos hg.stdin, ?_, ha, hb, hab, ?_⟩⟩
    · simp only [Os.used, Os.alloc, Os.note, List.map_append]
      exact List.mem_append_left _ (List.mem_append_left _ hg.stdin)
    · intro d hd
      rcases List.mem_append.1 hd with hd | hd
      · rcases List.mem_append.1 hd with hd | hd
        · exact hg.own d hd
        · rw [List.mem_singleton.1 hd]
          exact ha.2.1
      · rw [List.mem_singleton.1 hd]
        exact hb.2.1
    · exact World.lowestFree_pos (w := { w with os := (w.os.alloc []).2 }) h0
    · simp [Share.meet, Share.alloc]
  · refine ⟨none, { w with os := w.os.note (.pipe none) }, [true], [],
      ⟨rfl, (List.append_nil _).symm, fun _ _ => rfl,
      ⟨rfl, rfl, rfl, rfl⟩, ⟨hg.rx, hg.tx, hg.disk, hg.sigchld, hg.stdin, hg.own, hg.isOpen⟩⟩,
      .inl ⟨rfl, rfl⟩⟩

theorem fork (hg : g.Agrees e w) :
    Follows e Calling.fork Calling.fork g w fun a g' b _ => a = b ∧ g'.own = g.own := by
  refine ask trivial ?_
  rintro r g' rfl
  refine ⟨r, { w with os := w.os.note (.fork r) }, [!r], [],
    ⟨rfl, (List.append_nil _).symm, fun _ _ => ?_,
    ⟨rfl, rfl, rfl, rfl⟩, ⟨hg.rx, hg.tx, hg.disk, hg.sigchld, hg.stdin, hg.own, hg.isOpen⟩⟩,
    rfl, rfl⟩
  cases r <;> rfl

theorem exec (hk : e.DiskKept) (hg : g.Agrees e w) (path : Bytes) (inp : CgiInput) :
    Follows e (Calling.exec path inp) (Calling.exec path inp) g w fun a g' b _ =>
      a = b ∧ g'.own = g.own := by
  refine ask trivial ?_
  rintro r g' ⟨left, rfl, rfl⟩
  refine ⟨_, { w with os := { w.os with trace := w.os.trace ++ [.exec (cStr path) true] } }, [],
    [left], ⟨by simp [Share.leave], rfl, fun ms ls => ?_, ⟨rfl, rfl, rfl, rfl⟩,
      ⟨hg.rx, hg.tx, hg.disk, hg.sigchld, hg.stdin, hg.own, hg.isOpen⟩⟩, rfl, rfl⟩
  have hdisk := hk.childRun left (cStr path) inp
  rw [← hg.disk] at hdisk ⊢
  rw [Routine.run_ask, World.answer, Os.runChild]
  simp [World.facing, Machine.leaving, hdisk]

theorem waitpid (hg : g.Agrees e w) (ending : ChildEnd) :
    Follows e (Calling.waitpid ending) (Calling.waitpid ending) g w fun a g' b _ =>
      a = b ∧ g'.own = g.own := by
  refine ask trivial ?_
  rintro r g' ⟨rfl, rfl⟩
  refine ⟨none, { w with os := w.os.note .waitpid }, [], [], ⟨by simp, by simp, fun ms ls => ?_,
    ⟨rfl, rfl, rfl, rfl⟩, ⟨hg.rx, hg.tx, hg.disk, hg.sigchld, hg.stdin, hg.own, hg.isOpen⟩⟩,
    rfl, rfl⟩
  show Routine.run _ (Calling.waitpid ending) _ = _
  rw [Worker.run_waitpid, Os.waitpid,
    show (w.facing ([] ++ ms) ([] ++ ls)).os.sigchld = .ignore from hg.sigchld]
  rfl

end Follows

/-! ## The functions -/

namespace Follows
open EndPoint

/-- A program gets the same input, whoever waits for it. -/
theorem cgiProcess (hk : e.DiskKept) (hg : g.Agrees e w) (ep : EndPoint) :
    Follows e (Worker.cgiProcess ep) (Worker.cgiProcess ep) g w fun a _ b _ =>
      a = b ∧ b.2.req = ep.req := by
  unfold Worker.cgiProcess
  refine (pipe hg).bind ?_
  rintro _ g₁ _ w₁ - hg₁ (⟨rfl, rfl⟩ | ⟨r, t, r', t', rfl, rfl, hr', ht', hr, ht, hrt, ho⟩)
  · exact done hg₁ ⟨rfl, rfl⟩
  refine (pipe hg₁).bind ?_
  rintro _ g₂ _ w₂ - hg₂ (⟨rfl, rfl⟩ | ⟨p, q, p', q', rfl, rfl, hp', hq', hp, hq, hpq, ho₂⟩)
  · exact done hg₂ ⟨rfl, rfl⟩
  have hr₁ : (r, []) ∈ g₁.own := by simp [ho]
  have ht₁ : (t, []) ∈ g₁.own := by simp [ho]
  have hrp := hp.2.2 _ hr₁
  have htp := hp.2.2 _ ht₁
  have hrq := hq.2.2 _ hr₁
  have htq := hq.2.2 _ ht₁
  refine (fork hg₂).bind ?_
  rintro a g₃ b w₃ - hg₃ ⟨rfl, ho₃⟩
  have hown : g₃.own = g.own ++ [(r, []), (t, []), (p, []), (q, [])] := by
    rw [ho₃, ho₂, ho, List.append_assoc]
    rfl
  cases a with
  | false => exact done hg₃ ⟨rfl, rfl⟩
  | true =>
    refine (close hg₃ (.inr ⟨(r, []), by simp [hown], rfl⟩) (show (r' : ℤ) ≠ 0 by omega)).bind ?_
    rintro - g₄ - w₄ - hg₄ ho₄
    refine (close hg₄ (.inr ⟨(q, []), ?_, rfl⟩) (show (q' : ℤ) ≠ 0 by omega)).bind ?_
    · simp [ho₄, hown, Ne.symm hrq]
    rintro - g₅ - w₅ - hg₅ ho₅
    refine (exec hk hg₅ _ _).bind ?_
    rintro run g₆ _ w₆ - hg₆ ⟨rfl, ho₆⟩
    refine (waitpid hg₆ _).bind ?_
    rintro status g₇ _ w₇ - hg₇ ⟨rfl, ho₇⟩
    have hown₇ : ∀ n, n = t ∨ n = p → (n, []) ∈ g₇.own := by
      rintro n (rfl | rfl)
      · simp [ho₇, ho₆, ho₅, ho₄, hown, Ne.symm hrt, htq]
      · simp [ho₇, ho₆, ho₅, ho₄, hown, Ne.symm hrp, hpq]
    have hp'ne : (p' : ℤ) ≠ 0 := by omega
    refine (close hg₇ (.inr ⟨(p, []), hown₇ p (.inr rfl), rfl⟩) hp'ne).bind ?_
    rintro - g₈ - w₈ - hg₈ ho₈
    refine (close hg₈ (.inr ⟨(t, []), ?_, rfl⟩) (show (t' : ℤ) ≠ 0 by omega)).bind ?_
    · rw [ho₈]
      exact List.mem_filter.2 ⟨hown₇ t (.inl rfl), by simp [htp]⟩
    rintro - g₉ - w₉ - hg₉ -
    exact done hg₉ ⟨rfl, by rw [addBody_eq]; rfl⟩

/-- A file is opened, as whatever descriptor. -/
theorem notCgiProcess (hg : g.Agrees e w) (ep : EndPoint) (x : ℤ) :
    Follows e (Worker.notCgiProcess ep) (Worker.notCgiProcess (ep.withFd x)) g w
      fun a g' b w' => a.2.req = ep.req ∧ b.1 = a.1 ∧
        ∃ fd, b.2 = a.2.withFd fd ∧ Handle g' w' a.2.resp.fd fd := by
  unfold Worker.notCgiProcess
  refine (openFile hg _).bind ?_
  rintro fd g₁ fd' w₁ - hg₁ hh
  by_cases h : fd > 0
  · simp only [if_pos h, if_pos (show fd' > 0 from hh.pos_iff.1 h)]
    exact done hg₁ ⟨rfl, rfl, fd', rfl, hh⟩
  · simp only [if_neg h, if_neg (show ¬ fd' > 0 from mt hh.pos_iff.2 h)]
    exact done hg₁ ⟨rfl, rfl, fd', rfl, hh⟩

theorem setKind (hg : g.Agrees e w) (ep : EndPoint) (st : Inode) :
    Follows e (Worker.setKind ep st) (Worker.setKind ep st) g w fun a _ b _ => a = b := by
  unfold Worker.setKind
  split_ifs
  · refine (stat hg _).bind ?_
    rintro st' g₁ _ w₁ - hg₁ ⟨rfl, -⟩
    exact done hg₁ rfl
  · exact done hg rfl
  · exact done hg rfl

/-- Which file is asked for does not depend on the worker. -/
theorem locate (hg : g.Agrees e w) (ep : EndPoint) :
    Follows e (Worker.locate ep) (Worker.locate ep) g w fun a _ b _ => a = b ∧
      ∀ ep', b = .error ep' → ep'.resp.statusCode = BAD_REQUEST ∨
        ep'.resp.statusCode = NOT_FOUND := by
  unfold Worker.locate
  split_ifs with hb
  · refine done hg ⟨rfl, ?_⟩
    rintro ep' h
    cases h
    exact .inl hb
  · refine (stat hg _).bind ?_
    rintro st g₁ _ w₁ - hg₁ ⟨rfl, -⟩
    cases st with
    | none =>
      refine done hg₁ ⟨rfl, ?_⟩
      rintro ep' h
      cases h
      exact .inr rfl
    | some st =>
      refine (setKind hg₁ _ st).bind ?_
      rintro r g₂ _ w₂ - hg₂ rfl
      refine done hg₂ ⟨rfl, ?_⟩
      rintro ep' h
      cases h

/-- Two end points that differ in the descriptor of their file at most, and not
    in what can be read through it, if it is going to be. -/
def Alike (g : Share) (w : World (σ × List Leftover)) (ep ep' : EndPoint) : Prop :=
  ∃ fd, ep' = ep.withFd fd ∧ (ep.req.cgi = true ∨ Handle g w ep.resp.fd fd)

theorem dispatch (hk : e.DiskKept) (hg : g.Agrees e w) (ep : EndPoint) :
    Follows e (Worker.dispatch ep) (Worker.dispatch ep) g w fun a g' b w' => Alike g' w' a b := by
  unfold Worker.dispatch
  split_ifs with hc
  · refine (cgiProcess hk hg ep).bind ?_
    rintro r g₁ _ w₁ - hg₁ ⟨rfl, hr⟩
    refine (cgiProcess hk hg₁ r.2).bind ?_
    rintro r' g₂ _ w₂ - hg₂ ⟨rfl, hr'⟩
    refine done hg₂ ⟨r'.2.resp.fd, rfl, .inl ?_⟩
    show r'.2.req.cgi = true
    rw [hr', hr, hc]
  · refine (notCgiProcess hg ep ep.resp.fd).bind ?_
    rintro r g₁ r' w₁ - hg₁ ⟨-, -, fd, hr', -⟩
    rw [hr']
    refine (notCgiProcess hg₁ r.2 fd).bind ?_
    rintro s g₂ s' w₂ - hg₂ ⟨-, hcode, fd', hs', hh⟩
    rw [hs', hcode]
    exact done hg₂ ⟨fd', rfl, .inr hh⟩

theorem buildErrorHeader (hg : g.Agrees e w) (path : Bytes) (ep : EndPoint) (x : ℤ) :
    Follows e (Worker.buildErrorHeader path ep) (Worker.buildErrorHeader path (ep.withFd x)) g w
      fun a g' b w' => ∃ fd, b = a.withFd fd ∧ Handle g' w' a.resp.fd fd := by
  unfold Worker.buildErrorHeader
  refine (openFile hg _).bind ?_
  rintro fd g₁ fd' w₁ - hg₁ hh
  by_cases h : fd > 0
  · simp only [if_pos h, if_pos (show fd' > 0 from hh.pos_iff.1 h)]
    refine (stat hg₁ _).bind ?_
    rintro st g₂ _ w₂ - hg₂ ⟨rfl, ho, hf⟩
    cases st with
    | none => exact done hg₂ ⟨fd', rfl, hh.keep ho hf⟩
    | some st => exact done hg₂ ⟨fd', rfl, hh.keep ho hf⟩
  · simp only [if_neg h, if_neg (show ¬ fd' > 0 from mt hh.pos_iff.2 h)]
    exact done hg₁ ⟨fd', rfl, hh⟩

/-- An error page is opened whatever the end point has for its file. -/
theorem buildResponseHelper (hg : g.Agrees e w) (ep : EndPoint) (x : ℤ)
    (h : (ep.req.cgi = true ∨ Handle g w ep.resp.fd x) ∨
      ep.resp.statusCode = BAD_REQUEST ∨ ep.resp.statusCode = NOT_FOUND) :
    Follows e (Worker.buildResponseHelper ep) (Worker.buildResponseHelper (ep.withFd x)) g w
      fun a g' b w' => Alike g' w' a b := by
  have hcode : (ep.withFd x).resp.statusCode = ep.resp.statusCode := rfl
  have hpage (path : Bytes) (ep : EndPoint) (x : ℤ) {g : Share} {w : World (σ × List Leftover)}
      (hg : g.Agrees e w) : Follows e (Worker.buildErrorHeader path ep)
        (Worker.buildErrorHeader path (ep.withFd x)) g w fun a g' b w' => Alike g' w' a b :=
    (buildErrorHeader hg path ep x).mono fun a g' b w' ⟨fd, hb, hh⟩ => ⟨fd, hb, .inr hh⟩
  have hsame (hn : ep.resp.statusCode ≠ BAD_REQUEST ∧ ep.resp.statusCode ≠ NOT_FOUND) :
      ep.req.cgi = true ∨ Handle g w ep.resp.fd x := by
    rcases h with h | h | h
    · exact h
    · exact absurd h hn.1
    · exact absurd h hn.2
  unfold Worker.buildResponseHelper
  simp only [hcode]
  split_ifs with h2 h4 h404 h5
  · exact done hg ⟨x, rfl, hsame ⟨by rw [h2]; decide, by rw [h2]; decide⟩⟩
  · exact hpage PAGE_400 _ x hg
  · refine (buildErrorHeader hg PAGE_404 _ x).bind ?_
    rintro a g₁ b w₁ - hg₁ ⟨fd, rfl, -⟩
    exact hpage PAGE_500 a fd hg₁
  · exact hpage PAGE_500 _ x hg
  · exact done hg ⟨x, rfl, hsame ⟨h4, h404⟩⟩

theorem buildHttpResponse (hk : e.DiskKept) (hg : g.Agrees e w) (ep : EndPoint) :
    Follows e (Worker.buildHttpResponse ep) (Worker.buildHttpResponse ep) g w
      fun a g' b w' => Alike g' w' a b := by
  unfold Worker.buildHttpResponse
  refine (locate hg ep).bind ?_
  rintro r g₁ _ w₁ - hg₁ ⟨rfl, hr⟩
  cases r with
  | error ep' => exact buildResponseHelper hg₁ ep' ep'.resp.fd (.inr (hr ep' rfl))
  | ok ep' =>
    refine (dispatch hk hg₁ ep').bind ?_
    rintro a g₂ b w₂ - hg₂ ⟨fd, rfl, hh⟩
    exact buildResponseHelper hg₂ a fd (.inl hh)

theorem sendHeader {sock sock' : ℤ} (lines : List Bytes) {g : Share} {w : World (σ × List Leftover)}
    (hs : g.IsSock sock) (hg : g.Agrees e w) :
    Follows e (Worker.sendHeader sock lines) (Worker.sendHeader sock' lines) g w
      fun _ g' _ w' => g'.own = g.own ∧ w'.os.fds = w.os.fds := by
  induction lines generalizing g w with
  | nil => exact done hg ⟨rfl, rfl⟩
  | cons line lines ih =>
    unfold Worker.sendHeader
    refine (send hs hg line).bind ?_
    rintro n g₁ _ w₁ hk₁ hg₁ ⟨rfl, ho, hf⟩
    refine (ih ?_ hg₁).mono fun _ g' _ w' h => ⟨h.1.trans ho, h.2.trans hf⟩
    exact ⟨by rw [hs.1, hk₁.sock], hk₁.isOpen.trans hs.2⟩

theorem sendBody {sock sock' : ℤ} (body : Bytes) (total : ℕ) {g : Share}
    {w : World (σ × List Leftover)}
    (hs : g.IsSock sock) (hg : g.Agrees e w) :
    Follows e (Worker.sendBody sock body total) (Worker.sendBody sock' body total) g w
      fun _ _ _ _ => True := by
  induction hn : body.length - total using Nat.strong_induction_on generalizing total g w with
  | _ n ih =>
    subst hn
    rw [Worker.sendBody_eq, Worker.sendBody_eq]
    split_ifs with ht
    · refine (send hs hg (body.drop total)).bind ?_
      rintro n g₁ _ w₁ hk₁ hg₁ ⟨rfl, -⟩
      split_ifs with hsize
      · exact ih _ (by omega) _ ⟨by rw [hs.1, hk₁.sock], hk₁.isOpen.trans hs.2⟩ hg₁ rfl
      · exact done hg₁ trivial
    · exact done hg trivial

theorem sendHttpResponse {ep ep' : EndPoint} (hs : g.IsSock ep.sock) (hg : g.Agrees e w)
    (h : Alike g w ep ep') :
    Follows e (Worker.sendHttpResponse ep) (Worker.sendHttpResponse ep') g w
      fun _ _ _ _ => True := by
  obtain ⟨fd, rfl, hfd⟩ := h
  unfold Worker.sendHttpResponse
  refine (send hs hg _).bind ?_
  rintro - g₁ - w₁ hk₁ hg₁ ⟨-, ho₁, hf₁⟩
  have hs₁ : g₁.IsSock ep.sock := ⟨by rw [hs.1, hk₁.sock], hk₁.isOpen.trans hs.2⟩
  refine (sendHeader _ hs₁ hg₁).bind ?_
  rintro - g₂ - w₂ hk₂ hg₂ ⟨ho₂, hf₂⟩
  have hs₂ : g₂.IsSock ep.sock := ⟨by rw [hs₁.1, hk₂.sock], hk₂.isOpen.trans hs₁.2⟩
  refine (send hs₂ hg₂ _).bind ?_
  rintro - g₃ - w₃ hk₃ hg₃ ⟨-, ho₃, hf₃⟩
  have hs₃ : g₃.IsSock ep.sock := ⟨by rw [hs₂.1, hk₃.sock], hk₃.isOpen.trans hs₂.2⟩
  have hcgi : (ep.withFd fd).req.cgi = ep.req.cgi := rfl
  rw [hcgi]
  split_ifs with hc
  · exact sendBody _ 0 hs₃ hg₃
  · have hh : Handle g₃ w₃ ep.resp.fd fd :=
      (hfd.resolve_left hc).keep (by rw [ho₃, ho₂, ho₁]) (by rw [hf₃, hf₂, hf₁])
    refine (sendfile hs₃ hg₃ hh _).bind ?_
    rintro - g₄ - w₄ - hg₄ ⟨ho₄, hf₄⟩
    have hh₄ : Handle g₄ w₄ ep.resp.fd fd := hh.keep ho₄ hf₄
    have hne : fd ≠ 0 := by
      rcases hh₄ with ⟨-, rfl⟩ | ⟨-, hpos, -⟩
      · decide
      · exact hpos.ne'
    exact (close hg₄ (hh₄.imp And.left fun h => h.2.2.1) hne).mono fun _ _ _ _ _ => trivial

end Follows

end

/-! ## A whole request -/

namespace EndPoint

theorem buildHttpResponse_sock {σ : Type} (M : Machine σ) (ep : EndPoint) (os : Os σ) :
    (buildHttpResponse M ep os).1.sock = ep.sock := by
  rw [buildHttpResponse_eq]
  refine buildResponseHelper_induct (P := fun ep' _ => ep'.sock = ep.sock) M ?_ ?_
  · show (chosen M ep os).1.sock = ep.sock
    have hd (ep : EndPoint) (os : Os σ) : (dispatch M ep os).1.sock = ep.sock := by
      cases hc : ep.req.cgi with
      | true => rw [dispatch_cgi M hc]; rfl
      | false => rw [dispatch_file M hc]
    rw [chosen]
    rcases locate_cases M ep os with ⟨-, h⟩ | ⟨-, -, h⟩ | ⟨st, -, -, -, h⟩ | ⟨st, -, -, -, h⟩ <;>
      rw [h]
    · exact hd _ _
    · exact hd _ _
  · intro path _ ep' os' h
    rcases buildErrorHeader_cases M path os' with ⟨f, -, -, he⟩ | ⟨-, f, -, he⟩ | ⟨-, he⟩ <;>
      rw [he] <;> exact h

end EndPoint

section
variable {σ : Type} {e : Setting σ} {g g' : Share}

/-- A worker is about to handle a request on a connection that nobody has used. -/
structure Share.Begins (e : Setting σ) (g : Share) : Prop where
  client : (g.rx, g.tx) = e.client g.conn
  own : g.own = []
  met : g.met = []
  left : g.left = []
  isOpen : g.isOpen = true

/-- The same request before a worker that is alone. -/
def Share.world (e : Setting σ) (g : Share) : World (σ × List Leftover) :=
  ⟨g.rx, g.tx, alone (e.disk, []) []⟩

theorem Share.Begins.agrees (h : g.Begins e) : g.Agrees e (g.world e) where
  rx := rfl
  tx := rfl
  disk := rfl
  sigchld := rfl
  stdin := by simp [Share.world, Os.used, alone]
  own := by simp [h.own]
  isOpen := h.isOpen

theorem Share.Begins.served (h : g.Begins e) (hk : g.Keeps g') {b : EndPoint}
    {w : World (σ × List Leftover)}
    (hrun : (Worker.handlerRequest g.sock g.unset).run (World.answer e.machine.leaving)
      ((g.world e).facing g'.met g'.left) = (b, w)) (hrx : w.rx = g'.rx) (htx : w.tx = g'.tx) :
    g'.Served e := by
  have hw : e.handledAlone g'.conn g'.serving = w := by
    rw [Worker.run_handlerRequest] at hrun
    rw [Setting.handledAlone, Share.serving, hk.conn, hk.sock, hk.unset, ← h.client]
    exact congrArg Prod.snd hrun
  rw [Share.Served, hw]
  exact ⟨hrx, htx⟩

/-- A worker closes its socket when the connection is as it should be. -/
theorem close_sock {sock : ℤ} (hs : g.IsSock sock) (hg : g.Served e) (ep : EndPoint) :
    (Calling.close sock >>= fun _ => (pure ep : Calling EndPoint)).Meets (workerContract e) g
      fun _ g' => g'.isOpen = false := by
  refine ⟨.inr (.inr ⟨hs, hg⟩), ?_⟩
  rintro - g' rfl
  show (g.isOpen && ((g.sock : ℤ) != sock)) = false
  simp [hs.1]

/-- **`HandlerRequest` keeps the contract.** -/
theorem handlerRequest_meets (hd : e.DiskKept) (hb : g.Begins e) :
    (Worker.handlerRequest g.sock g.unset).Meets (workerContract e) g
      fun _ g' => g'.isOpen = false := by
  have hs : g.IsSock g.sock := ⟨rfl, hb.isOpen⟩
  unfold Worker.handlerRequest
  refine Routine.meets_bind.2 (Routine.Meets.mono
    (Follows.receive g.sock hs hb.agrees _) ?_)
  rintro ep g₁ ⟨_, w₁, ms₁, ls₁, hc₁, rfl, hep⟩
  have hs₁ : g₁.IsSock g.sock := ⟨by rw [hc₁.keeps.sock], hc₁.keeps.isOpen.trans hb.isOpen⟩
  have hmet₁ : g₁.met = ms₁ := by rw [hc₁.met, hb.met, List.nil_append]
  have hleft₁ : g₁.left = ls₁ := by rw [hc₁.left, hb.left, List.nil_append]
  split_ifs with hstop
  · refine close_sock hs₁ (hb.served hc₁.keeps (b := ep) (w := { w₁.facing [] [] with
      os := (w₁.facing [] []).os.close g.sock }) ?_ hc₁.agrees.rx hc₁.agrees.tx) ep
    have hrun := hc₁.run [] []
    rw [List.append_nil, List.append_nil, ← hmet₁, ← hleft₁] at hrun
    rw [Worker.handlerRequest, Routine.run_bind, hrun, if_pos hstop]
    rfl
  · refine Routine.meets_bind.2 (Routine.Meets.mono
      (Follows.buildHttpResponse hd hc₁.agrees ep) ?_)
    rintro a g₂ ⟨b, w₂, ms₂, ls₂, hc₂, hab⟩
    have hsock : a.sock = g.sock := by
      have hrun := hc₂.run [] []
      rw [Worker.run_buildHttpResponse] at hrun
      have hres : (EndPoint.buildHttpResponse e.machine.leaving ep
          (w₁.facing (ms₂ ++ []) (ls₂ ++ [])).os).1 = b := congrArg Prod.fst hrun
      have hb' : b.sock = ep.sock := by
        rw [← hres]
        exact EndPoint.buildHttpResponse_sock _ _ _
      obtain ⟨fd, rfl, -⟩ := hab
      have hep' : ep.sock = g.sock := by
        rw [hep] at hstop ⊢
        obtain ⟨-, line, he⟩ :=
          recvHttpRequest_parsed (w := g.world e) (Bool.eq_false_iff.2 hstop)
        rw [show g.rx = (g.world e).rx from rfl, he, EndPoint.parsed_new]
      exact hb'.trans hep'
    have hs₂ : g₂.IsSock a.sock := by
      rw [hsock]
      exact ⟨by rw [hs₁.1, hc₂.keeps.sock], hc₂.keeps.isOpen.trans hs₁.2⟩
    refine Routine.meets_bind.2 (Routine.Meets.mono
      (Follows.sendHttpResponse hs₂ hc₂.agrees hab) ?_)
    rintro _ g₃ ⟨_, w₃, ms₃, ls₃, hc₃, -⟩
    have hs₃ : g₃.IsSock g.sock := by
      rw [← hsock]
      exact ⟨by rw [hs₂.1, hc₃.keeps.sock], hc₃.keeps.isOpen.trans hs₂.2⟩
    have hkeep : g.Keeps g₃ := (hc₁.keeps.trans hc₂.keeps).trans hc₃.keeps
    refine close_sock hs₃ (hb.served hkeep (b := b) (w := { w₃.facing [] [] with
      os := (w₃.facing [] []).os.close g.sock }) ?_ hc₃.agrees.rx hc₃.agrees.tx) a
    have hmet : g₃.met = ms₁ ++ (ms₂ ++ (ms₃ ++ [])) := by
      rw [hc₃.met, hc₂.met, hmet₁, List.append_nil, List.append_assoc]
    have hleft : g₃.left = ls₁ ++ (ls₂ ++ (ls₃ ++ [])) := by
      rw [hc₃.left, hc₂.left, hleft₁, List.append_nil, List.append_assoc]
    rw [hmet, hleft, Worker.handlerRequest, Routine.run_bind, hc₁.run, if_neg hstop,
      Routine.run_bind, hc₂.run, Routine.run_bind, hc₃.run]
    rfl

end

end MyHttpServer
