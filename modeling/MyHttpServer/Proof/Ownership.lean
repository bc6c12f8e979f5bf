/-
  Who owns which descriptor of the server.

  Every descriptor that the loop, the queue, the producer or a worker is going to
  use has one owner.  A step of one of them changes the descriptors that it owns,
  and those that are free; what the others have stays as it is (`Untouched`).

  * `Owned.env`, `Owned.start`, `Owned.call`, `Owned.finish`: every step keeps
    the descriptors apart.
-/
import MyHttpServer.Proof.Ledger
import MyHttpServer.Proof.Pool

namespace MyHttpServer

/-- The task that the producer is pushing. -/
def ProducerPc.task : ProducerPc → Option Task
  | .lock t | .push t => some t
  | _ => none

/-- What a step of the pool does to those who hold a task, if it is neither the
    begin of a `PushTask` nor the end of a `HanderTask`. -/
theorem Pool.Step.holding {W P : Type} [DecidableEq W] [DecidableEq P] {s t : Pool W P}
    (h : Pool.Step s t) (hh : t.handled = s.handled)
    (ha : ∀ p, s.producer p = .accept → t.producer p = .accept) :
    (∀ w x, s.worker w = .handerTask x → t.worker w = .handerTask x) ∧
    ((t.q = s.q ∧ (∀ w, (t.worker w).task = (s.worker w).task) ∧
        ∀ p, (t.producer p).task = (s.producer p).task) ∨
      (∃ p x n, (s.producer p).task = some x ∧ t.q = s.q ++ [(x, n)] ∧
        (∀ w, (t.worker w).task = (s.worker w).task) ∧
        ∀ r, (t.producer r).task = if r = p then none else (s.producer r).task) ∨
      ∃ w x, s.q = x :: t.q ∧ (s.worker w).task = none ∧ t.producer = s.producer ∧
        ∀ v, (t.worker v).task = if v = w then some x else (s.worker v).task) := by
  have hkeep (w : W) (pc : WorkerPc) (hw : ∀ x, s.worker w ≠ .handerTask x) (v : W) (x : Numbered)
      (hv : s.worker v = .handerTask x) : (s.setWorker w pc).worker v = .handerTask x := by
    rw [Pool.setWorker_worker, if_neg, hv]
    rintro rfl
    exact hw x hv
  cases h with
  | lock hw | size_zero hw | size_pos hw | wait hw | wake hw | relock hw | unLock hw =>
    exact ⟨hkeep _ _ (by simp [hw]), .inl ⟨rfl,
      fun v => Pool.setWorker_task _ _ _ _ (by rw [hw]; rfl), fun _ => rfl⟩⟩
  | @popTask w x q hw hq =>
    refine ⟨hkeep _ _ (by simp [hw]), .inr (.inr ⟨w, x, hq, by rw [hw]; rfl, rfl, fun v => ?_⟩)⟩
    show ((s.setWorker w (.unLock x)).worker v).task = _
    rw [Pool.setWorker_worker]
    split <;> rfl
  | @handerTask w x hw =>
    have := congrArg List.length hh
    simp at this
  | @accept p x hp =>
    have := ha p hp
    simp at this
  | @push_lock p x hp hm =>
    refine ⟨fun _ _ h => h, .inl ⟨rfl, fun _ => rfl, fun r => ?_⟩⟩
    show ((s.setProducer p _).producer r).task = _
    rw [Pool.setProducer_producer]
    split
    · rename_i hr
      rw [hr, hp]
      rfl
    · rfl
  | @push p x hp =>
    refine ⟨fun _ _ h => h, .inr (.inl ⟨p, x, _, by rw [hp]; rfl, rfl, fun _ => rfl, fun r => ?_⟩)⟩
    show ((s.setProducer p _).producer r).task = _
    rw [Pool.setProducer_producer]
    split <;> rfl
  | @push_unLock p hp | @push_size_pos p hp | @push_size_zero p hp | @signal_none p hp =>
    refine ⟨fun _ _ h => h, .inl ⟨rfl, fun _ => rfl, fun r => ?_⟩⟩
    show ((s.setProducer p _).producer r).task = _
    rw [Pool.setProducer_producer]
    split
    · rename_i hr
      rw [hr, hp]
      rfl
    · rfl
  | @signal p w hp hw =>
    refine ⟨hkeep w .woken (by simp [hw]), .inl ⟨rfl,
      fun v => Pool.setWorker_task s w v .woken (by rw [hw]; rfl), fun r => ?_⟩⟩
    rw [Pool.setProducer_producer]
    split
    · rename_i hr
      rw [hr, hp]
      rfl
    · rfl

/-- Who may own a descriptor. -/
inductive Owner (W : Type)
  /-- the process itself, of its standard descriptors -/
  | standard
  | loop
  | producer
  | queue
  | worker (w : W)
  deriving DecidableEq

/-- `idlefd` is the reserve. -/
def LoopPc.HasReserve : LoopPc → Prop
  | .accept4 | .closeIdle _ => True
  | _ => False

namespace Server
variable {σ W : Type} {e : Setting σ} {s t : Server σ W} {g : W → Option Share}
  {owner owner' : ℕ → Owner W} {o : Owner W} {fd : ℤ} {k : Option OpenFile}

/-- What has to be open for those who have no share: a given file, or, for
    `none`, a connection that nobody has used. -/
inductive Demand (s : Server σ W) (g : W → Option Share) : Owner W → ℤ → Option OpenFile → Prop
  | standard {n : ℕ} : n < 3 → Demand s g .standard n (some .other)
  | reserve {fd : ℕ} : s.loop.pc.HasReserve → s.loop.idlefd = some fd →
      Demand s g .loop fd (some .null)
  | accepted {p c} {fd : ℕ} : s.loop.pc = .closeAccepted p (some c) → s.loop.idlefd = some fd →
      Demand s g .loop fd (some (.conn c))
  | pushing {x} : (s.pool.producer ()).task = some x → Demand s g .producer x.sock none
  | queued {x} : x ∈ s.pool.q → Demand s g .queue x.1.sock none
  | popped {w x} : (s.pool.worker w).task = some x → g w = none →
      Demand s g (.worker w) x.1.sock none

def Fits (e : Setting σ) (s : Server σ W) : Option OpenFile → OpenFile → Prop
  | some f, f' => f' = f
  | none, f' => ∃ c, f' = .conn c ∧ (s.rx c, s.tx c) = e.client c

/-- `o` has `fd`, and it is what it has to be. -/
def Has (e : Setting σ) (s : Server σ W) (owner : ℕ → Owner W) (o : Owner W) (fd : ℤ)
    (k : Option OpenFile) : Prop :=
  ∃ n f, fd = (n : ℕ) ∧ owner n = o ∧ s.loop.fds n = some f ∧ Fits e s k f

/-- The worker has its share. -/
structure Shares (s : Server σ W) (owner : ℕ → Owner W) (w : W) (a : Share) : Prop where
  task : ∃ x, s.pool.worker w = .handerTask x
  serving : s.serving w = a.serving
  sock : a.isOpen = true → owner a.sock = .worker w ∧ s.loop.fds a.sock = some (.conn a.conn) ∧
    s.rx a.conn = a.rx ∧ s.tx a.conn = a.tx
  own : ∀ d ∈ a.own, owner d.1 = .worker w ∧ s.loop.fds d.1 = some .other ∧ s.content d.1 = d.2

/-- The books of the server. -/
def Books (e : Setting σ) (s : Server σ W) : Prop :=
  Ledger e s.loop.fds s.loop.queue s.loop.connected s.answered s.loop.refused s.rx s.tx

/-- Everybody has what it needs, and nobody has what another one has. -/
structure Owned (e : Setting σ) (s : Server σ W) (g : W → Option Share) (owner : ℕ → Owner W) :
    Prop where
  disk : s.disk = e.disk
  demands : ∀ o fd k, Demand s g o fd k → Has e s owner o fd k
  queue : (s.pool.q.map fun x => x.1.sock).Nodup
  shares : ∀ w a, g w = some a → Shares s owner w a
  idle : ∀ p conn, s.loop.pc = .closeAccepted p conn → (s.loop.idlefd = none ↔ conn = none)
  books : Books e s

/-- What `o` has is left alone. -/
structure Untouched (s : Server σ W) (owner : ℕ → Owner W) (t : Server σ W)
    (owner' : ℕ → Owner W) (o : Owner W) : Prop where
  file : ∀ n f, owner n = o → s.loop.fds n = some f →
    owner' n = o ∧ t.loop.fds n = some f ∧ t.content n = s.content n
  conn : ∀ n c, owner n = o → s.loop.fds n = some (.conn c) → t.rx c = s.rx c ∧ t.tx c = s.tx c

theorem Has.untouched (h : Has e s owner o fd k) (hu : Untouched s owner t owner' o) :
    Has e t owner' o fd k := by
  obtain ⟨n, f, rfl, ho, hf, hfit⟩ := h
  obtain ⟨ho', hf', -⟩ := hu.file n f ho hf
  refine ⟨n, f, rfl, ho', hf', ?_⟩
  cases k with
  | some f' => exact hfit
  | none =>
    obtain ⟨c, rfl, hc⟩ := hfit
    obtain ⟨hrx, htx⟩ := hu.conn n c ho hf
    exact ⟨c, rfl, by rw [hrx, htx, hc]⟩

theorem Shares.untouched {w : W} {a : Share} (h : Shares s owner w a)
    (hu : Untouched s owner t owner' (.worker w))
    (hpc : ∀ x, s.pool.worker w = .handerTask x → t.pool.worker w = .handerTask x)
    (hserving : t.serving w = s.serving w) : Shares t owner' w a where
  task := h.task.imp hpc
  serving := hserving.trans h.serving
  sock ha := by
    obtain ⟨ho, hf, hrx, htx⟩ := h.sock ha
    obtain ⟨ho', hf', -⟩ := hu.file _ _ ho hf
    obtain ⟨hrx', htx'⟩ := hu.conn _ _ ho hf
    exact ⟨ho', hf', hrx'.trans hrx, htx'.trans htx⟩
  own d hd := by
    obtain ⟨ho, hf, hc⟩ := h.own d hd
    obtain ⟨ho', hf', hc'⟩ := hu.file _ _ ho hf
    exact ⟨ho', hf', hc'.trans hc⟩

/-- No descriptor changes. -/
theorem untouched_same (hf : t.loop.fds = s.loop.fds) (hc : t.content = s.content)
    (hrx : t.rx = s.rx) (htx : t.tx = s.tx) : Untouched s owner t owner o :=
  ⟨fun n f ho hn => ⟨ho, by rw [hf, hn], by rw [hc]⟩, fun n c _ _ => by simp [hrx, htx]⟩

/-- One descriptor changes, which `o` has not. -/
theorem untouched_update {n : ℕ} {x : Option OpenFile} {o' : Owner W}
    (hf : t.loop.fds = Function.update s.loop.fds n x)
    (hc : ∀ m, m ≠ n → t.content m = s.content m) (hrx : t.rx = s.rx) (htx : t.tx = s.tx)
    (hn : s.loop.fds n = none ∨ owner n ≠ o) :
    Untouched s owner t (Function.update owner n o') o := by
  have hne (m : ℕ) (f : OpenFile) (ho : owner m = o) (hm : s.loop.fds m = some f) : m ≠ n := by
    rintro rfl
    rcases hn with hn | hn
    · rw [hn] at hm
      cases hm
    · exact hn ho
  refine ⟨fun m f ho hm => ?_, fun m c _ _ => by simp [hrx, htx]⟩
  have hmn := hne m f ho hm
  exact ⟨by rw [Function.update_of_ne hmn, ho], by rw [hf, Function.update_of_ne hmn, hm], hc m hmn⟩

/-- What is done to one's own connection does not touch the others. -/
theorem untouched_conn {n c : ℕ} (hs : s.loop.fds.Single) (hn : s.loop.fds n = some (.conn c))
    (ho : owner n ≠ o) (hf : t.loop.fds = s.loop.fds) (hc : t.content = s.content)
    (hrx : ∀ d, d ≠ c → t.rx d = s.rx d ∧ t.tx d = s.tx d) : Untouched s owner t owner o := by
  refine ⟨fun m f ho hm => ⟨ho, by rw [hf, hm], by rw [hc]⟩, fun m d hm hd => hrx d ?_⟩
  rintro rfl
  exact ho (hs n m d hn hd ▸ hm)

/-! ## The loop, the pool and the clients -/

section
variable {l : LoopState}

/-- A step of the loop leaves to the others what they have. -/
theorem Owned.of_loop (h : Owned e s g owner)
    (hu : ∀ o, o ≠ .loop → Untouched s owner { s with loop := l } owner' o)
    (hd : ∀ fd k, Demand { s with loop := l } g .loop fd k →
      Has e { s with loop := l } owner' .loop fd k)
    (hidle : ∀ p conn, l.pc = .closeAccepted p conn → (l.idlefd = none ↔ conn = none))
    (hb : Ledger e l.fds l.queue l.connected s.answered l.refused s.rx s.tx) :
    Owned e { s with loop := l } g owner' where
  disk := h.disk
  demands := by
    intro o fd k hdem
    cases hdem with
    | standard hn => exact (h.demands _ _ _ (.standard hn)).untouched (hu _ (by simp))
    | reserve hp hi => exact hd _ _ (.reserve hp hi)
    | accepted hp hi => exact hd _ _ (.accepted hp hi)
    | pushing hx => exact (h.demands _ _ _ (.pushing hx)).untouched (hu _ (by simp))
    | queued hx => exact (h.demands _ _ _ (.queued hx)).untouched (hu _ (by simp))
    | popped hx hw => exact (h.demands _ _ _ (.popped hx hw)).untouched (hu _ (by simp))
  queue := h.queue
  shares w a hw := (h.shares w a hw).untouched (hu _ (by simp)) (fun _ hx => hx) rfl
  idle := hidle
  books := hb

/-- What the loop keeps in `idlefd`. -/
theorem Owned.idlefd {n : ℕ} {f : OpenFile} (h : Owned e s g owner)
    (hd : Demand s g .loop (n : ℕ) (some f)) : owner n = .loop ∧ s.loop.fds n = some f := by
  obtain ⟨m, f', hm, ho, hf, hfit⟩ := h.demands _ _ _ hd
  cases Int.ofNat.inj hm
  cases (show f' = f from hfit)
  exact ⟨ho, hf⟩

/-- The loop closes `idlefd`. -/
theorem untouched_close {n : ℕ} (hn : owner n = .loop) (hl : l.fds = s.loop.fds.close (some n))
    (ho : o ≠ .loop) : Untouched s owner { s with loop := l } owner o := by
  have hu : Untouched s owner { s with loop := l } (Function.update owner n .loop) o :=
    untouched_update hl (fun _ _ => rfl) rfl rfl (.inr (by rw [hn]; exact ho.symm))
  rwa [show Function.update owner n .loop = owner from by
    rw [← hn]; exact Function.update_eq_self n owner] at hu

/-- The loop gets a descriptor. -/
theorem untouched_open {n : ℕ} {f : OpenFile} (hn : s.loop.fds n = none)
    (hl : l.fds = Function.update s.loop.fds n (some f)) (o : Owner W) :
    Untouched s owner { s with loop := l } (Function.update owner n .loop) o :=
  untouched_update hl (fun _ _ => rfl) rfl rfl (.inl hn)

theorem has_open {n : ℕ} {f : OpenFile} (hl : l.fds = Function.update s.loop.fds n (some f)) :
    Has e { s with loop := l } (Function.update owner n .loop) .loop (n : ℕ) (some f) :=
  ⟨n, f, rfl, Function.update_self .., by
    show l.fds n = some f
    rw [hl, Function.update_self], rfl⟩

/-- The loop is in the treatment of an `EMFILE`, or has come to an error. -/
theorem Owned.loop (h : Owned e s g owner) (hl : s.loop.Step e.limit e.files l)
    (hpc : l.pc ≠ s.loop.pc) : ∃ owner', Owned e { s with loop := l } g owner' := by
  have hsame {l : LoopState} {o : Owner W} (hf : l.fds = s.loop.fds) :
      Untouched s owner { s with loop := l } owner o :=
    untouched_same hf rfl rfl rfl
  have hb : Ledger e s.loop.fds s.loop.queue s.loop.connected s.answered s.loop.refused s.rx s.tx :=
    h.books
  have hconn (p : Bool) (conn : Option ℕ) :
      List.filterMap Treatment.conn [⟨p, conn⟩] = conn.toList := by cases conn <;> rfl
  cases hl with
  | accept4_sock | connect | other_open | other_close => exact absurd rfl hpc
  | accept4_EMFILE hp hfull =>
    refine ⟨owner, h.of_loop (fun _ _ => hsame rfl) ?_ ?_ ?_⟩
    · intro fd k hd
      cases hd with
      | reserve _ hi =>
        exact (h.demands _ _ _ (.reserve (by rw [hp]; trivial) hi)).untouched (hsame rfl)
      | accepted hp' => cases hp'
    · intro p conn hp'
      cases hp'
    · simpa [LoopState.refused, hp] using hb
  | accept4_error hp =>
    refine ⟨owner, h.of_loop (fun _ _ => hsame rfl) ?_ ?_ ?_⟩
    · intro fd k hd
      cases hd with
      | reserve hp' => exact hp'.elim
      | accepted hp' => cases hp'
    · intro p conn hp'
      cases hp'
    · simpa [LoopState.refused, hp] using hb
  | @closeIdle p hp =>
    have hbooks {t : OpenFiles} (ht : s.loop.fds.SameConns t) :
        Ledger e t s.loop.queue s.loop.connected s.answered
          (LoopState.refused { s.loop with fds := t, pc := .accept p }) s.rx s.tx := by
      have := hb.files ht
      simpa [LoopState.refused, hp] using this
    refine ⟨owner, h.of_loop ?_ ?_ ?_ ?_⟩
    · intro o ho
      cases hi : s.loop.idlefd with
      | none => exact hsame (by rw [← hi, hi]; rfl)
      | some n =>
        have hn := (h.idlefd (.reserve (by rw [hp]; trivial) hi)).1
        exact untouched_close hn rfl ho
    · intro fd k hd
      cases hd with
      | reserve hp' => exact hp'.elim
      | accepted hp' => cases hp'
    · intro p conn hp'
      cases hp'
    · cases hi : s.loop.idlefd with
      | none => exact hbooks fun _ _ => Iff.rfl
      | some n =>
        have hn := (h.idlefd (.reserve (by rw [hp]; trivial) hi)).2
        exact hbooks (OpenFiles.sameConns_update (by simp [hn]) (by simp))
  | @accept p n c queue hp hfree hq =>
    refine ⟨Function.update owner n .loop, h.of_loop (fun o _ => untouched_open hfree.2 rfl o)
      ?_ ?_ ?_⟩
    · intro fd k hd
      cases hd with
      | reserve hp' => exact hp'.elim
      | accepted hp' hi =>
        cases hp'
        cases hi
        exact has_open rfl
    · intro p conn hp'
      cases hp'
      simp
    · rw [hq] at hb
      have := hb.accept hfree.2
      simpa [LoopState.refused, hp] using this
  | @accept_EMFILE p hp hfull =>
    refine ⟨owner, h.of_loop (fun _ _ => hsame rfl) ?_ ?_ ?_⟩
    · intro fd k hd
      cases hd with
      | reserve hp' => exact hp'.elim
      | accepted hp' hi => cases hi
    · intro p conn hp'
      cases hp'
      simp
    · simpa [LoopState.refused, hp] using hb
  | @closeAccepted p conn hp =>
    refine ⟨owner, h.of_loop ?_ ?_ ?_ ?_⟩
    · intro o ho
      cases hi : s.loop.idlefd with
      | none => exact hsame (by rw [← hi, hi]; rfl)
      | some n =>
        cases conn with
        | none =>
          rw [(h.idle p none hp).2 rfl] at hi
          cases hi
        | some c => exact untouched_close (h.idlefd (.accepted hp hi)).1 rfl ho
    · intro fd k hd
      cases hd with
      | reserve hp' => exact hp'.elim
      | accepted hp' => cases hp'
    · intro p conn hp'
      cases hp'
    · cases conn with
      | none =>
        have hi := (h.idle p none hp).2 rfl
        simpa [LoopState.refused, hp, hi, OpenFiles.close] using hb
      | some c =>
        obtain ⟨n, hi⟩ := Option.ne_none_iff_exists'.1
          (mt (h.idle p (some c) hp).1 (by simp))
        have := hb.refuse (h.idlefd (.accepted hp hi)).2
        simpa [LoopState.refused, hp, hi] using this
  | @openNull p conn n hp _ hfree =>
    refine ⟨Function.update owner n .loop, h.of_loop (fun o _ => untouched_open hfree.2 rfl o)
      ?_ ?_ ?_⟩
    · intro fd k hd
      cases hd with
      | reserve _ hi =>
        cases hi
        exact has_open rfl
      | accepted hp' => cases hp'
    · intro p conn hp'
      cases hp'
    · have hsame : s.loop.fds.SameConns (Function.update s.loop.fds n (some .null)) :=
        OpenFiles.sameConns_update (by simp [hfree.2]) (by simp)
      have := hb.files hsame
      simpa [LoopState.refused, hp, hconn] using this
  | @openNull_error p conn hp _ =>
    refine ⟨owner, h.of_loop (fun _ _ => hsame rfl) ?_ ?_ ?_⟩
    · intro fd k hd
      cases hd with
      | reserve _ hi => cases hi
      | accepted hp' => cases hp'
    · intro p conn hp'
      cases hp'
    · simpa [LoopState.refused, hp, hconn] using hb

end

theorem Owned.connect (h : Owned e s g owner) :
    Owned e { s with loop := { s.loop with
      queue := s.loop.queue ++ [s.loop.connected]
      connected := s.loop.connected + 1 } } g owner := by
  have hsame (o : Owner W) : Untouched s owner { s with loop := { s.loop with
      queue := s.loop.queue ++ [s.loop.connected], connected := s.loop.connected + 1 } } owner o :=
    untouched_same rfl rfl rfl rfl
  refine h.of_loop (fun o _ => hsame o) ?_ h.idle h.books.connect
  intro fd k hd
  cases hd with
  | reserve hp hi => exact (h.demands _ _ _ (.reserve hp hi)).untouched (hsame _)
  | accepted hp hi => exact (h.demands _ _ _ (.accepted hp hi)).untouched (hsame _)

/-- An accepted connection goes to the producer. -/
theorem Owned.accept4 (h : Owned e s g owner) {n c : ℕ} {queue : List ℕ}
    {outcomes : List Accept4} (hp : s.loop.pc = .accept4)
    (hfree : s.loop.fds n = none) (hq : s.loop.queue = c :: queue) :
    Owned e { s with
      loop := { s.loop with
        fds := Function.update s.loop.fds n (some (.conn c)), queue, outcomes }
      pool := s.pool.setProducer () (.lock ⟨n⟩) } g (Function.update owner n .producer) := by
  have hu (o : Owner W) : Untouched s owner { s with
      loop := { s.loop with
        fds := Function.update s.loop.fds n (some (.conn c)), queue, outcomes }
      pool := s.pool.setProducer () (.lock ⟨n⟩) } (Function.update owner n .producer) o :=
    untouched_update rfl (fun _ _ => rfl) rfl rfl (.inl hfree)
  have hfresh : (s.rx c, s.tx c) = e.client c :=
    h.books.fresh c (.inr (by rw [hq]; exact List.mem_cons_self))
  refine ⟨h.disk, ?_, h.queue, ?_, h.idle, ?_⟩
  · intro o fd k hd
    cases hd with
    | standard hn => exact (h.demands _ _ _ (.standard hn)).untouched (hu _)
    | reserve hr hi => exact (h.demands _ _ _ (.reserve hr hi)).untouched (hu _)
    | accepted hp' =>
      rw [show s.loop.pc = _ from hp'] at hp
      cases hp
    | pushing hx =>
      rw [Pool.setProducer_producer, if_pos rfl] at hx
      cases hx
      exact ⟨n, .conn c, rfl, Function.update_self .., Function.update_self .., c, rfl, hfresh⟩
    | queued hx => exact (h.demands _ _ _ (.queued hx)).untouched (hu _)
    | popped hx hw => exact (h.demands _ _ _ (.popped hx hw)).untouched (hu _)
  · exact fun w a hw => (h.shares w a hw).untouched (hu _) (fun _ hx => hx) rfl
  · have hb := h.books
    rw [Books, hq] at hb
    exact hb.accept hfree

variable [DecidableEq W]

/-- A task goes from the producer to the queue, or from there to a worker, or all
    stay where they are. -/
theorem Owned.pool (h : Owned e s g owner) {p : Pool W Unit} (hs : s.pool.Step p)
    (hh : p.handled = s.pool.handled)
    (ha : s.pool.producer () = .accept → p.producer () = .accept) :
    ∃ owner', Owned e { s with pool := p } g owner' := by
  obtain ⟨hkeep, hcases⟩ := hs.holding hh fun _ => ha
  rcases hcases with ⟨hq, hw, hp⟩ | ⟨r, x, i, hx, hq, hw, hp⟩ | ⟨w, x, hq, hno, hp, hw⟩
  · have hu (o : Owner W) : Untouched s owner { s with pool := p } owner o :=
      untouched_same rfl rfl rfl rfl
    refine ⟨owner, h.disk, ?_, by rw [hq]; exact h.queue, fun w a hwa =>
      (h.shares w a hwa).untouched (hu _) (hkeep w) rfl, h.idle, h.books⟩
    intro o fd k hd
    cases hd with
    | standard hn => exact (h.demands _ _ _ (.standard hn)).untouched (hu _)
    | reserve hr hi => exact (h.demands _ _ _ (.reserve hr hi)).untouched (hu _)
    | accepted hr hi => exact (h.demands _ _ _ (.accepted hr hi)).untouched (hu _)
    | pushing hx =>
      rw [hp] at hx
      exact (h.demands _ _ _ (.pushing hx)).untouched (hu _)
    | queued hx =>
      rw [hq] at hx
      exact (h.demands _ _ _ (.queued hx)).untouched (hu _)
    | popped hx hg =>
      rw [hw] at hx
      exact (h.demands _ _ _ (.popped hx hg)).untouched (hu _)
  · -- the producer pushes
    obtain ⟨n, f, hn, ho, hf, hfit⟩ := h.demands _ _ _ (.pushing hx)
    have hu (o : Owner W) (hne : o ≠ .producer) :
        Untouched s owner { s with pool := p } (Function.update owner n .queue) o :=
      untouched_update (Function.update_eq_self n s.loop.fds).symm (fun _ _ => rfl) rfl rfl
        (.inr (by rw [ho]; exact hne.symm))
    refine ⟨Function.update owner n .queue, h.disk, ?_, ?_, fun w a hwa =>
      (h.shares w a hwa).untouched (hu _ (by simp)) (hkeep w) rfl, h.idle, h.books⟩
    · intro o fd k hd
      cases hd with
      | standard hn => exact (h.demands _ _ _ (.standard hn)).untouched (hu _ (by simp))
      | reserve hr hi => exact (h.demands _ _ _ (.reserve hr hi)).untouched (hu _ (by simp))
      | accepted hr hi => exact (h.demands _ _ _ (.accepted hr hi)).untouched (hu _ (by simp))
      | pushing hx =>
        rw [hp, if_pos rfl] at hx
        cases hx
      | queued hy =>
        rw [hq, List.mem_append, List.mem_singleton] at hy
        rcases hy with hy | rfl
        · exact (h.demands _ _ _ (.queued hy)).untouched (hu _ (by simp))
        · exact ⟨n, f, hn, Function.update_self .., hf, hfit⟩
      | popped hx hg =>
        rw [hw] at hx
        exact (h.demands _ _ _ (.popped hx hg)).untouched (hu _ (by simp))
    · rw [hq, List.map_append, List.nodup_append]
      refine ⟨h.queue, List.nodup_singleton _, ?_⟩
      intro z hz y hy
      rw [List.mem_singleton.1 hy]
      obtain ⟨q, hqm, rfl⟩ := List.mem_map.1 hz
      obtain ⟨m, f', hm, hom, -⟩ := h.demands _ _ _ (.queued hqm)
      intro he
      rw [hm, show ((fun x : Numbered => x.1.sock) (x, i)) = x.sock from rfl, hn] at he
      rw [Int.ofNat.inj he, ho] at hom
      cases hom
  · -- the worker `w` pops
    have hmem : x ∈ s.pool.q := by
      rw [hq]
      exact List.mem_cons_self
    obtain ⟨n, f, hn, ho, hf, hfit⟩ := h.demands _ _ _ (.queued hmem)
    have hnodup := h.queue
    rw [hq, List.map_cons, List.nodup_cons] at hnodup
    have hu (o : Owner W) (hne : o ≠ .queue) :
        Untouched s owner { s with pool := p } (Function.update owner n (.worker w)) o :=
      untouched_update (Function.update_eq_self n s.loop.fds).symm (fun _ _ => rfl) rfl rfl
        (.inr (by rw [ho]; exact hne.symm))
    refine ⟨Function.update owner n (.worker w), h.disk, ?_, hnodup.2, fun w a hwa =>
      (h.shares w a hwa).untouched (hu _ (by simp)) (hkeep w) rfl, h.idle, h.books⟩
    intro o fd k hd
    cases hd with
    | standard hn => exact (h.demands _ _ _ (.standard hn)).untouched (hu _ (by simp))
    | reserve hr hi => exact (h.demands _ _ _ (.reserve hr hi)).untouched (hu _ (by simp))
    | accepted hr hi => exact (h.demands _ _ _ (.accepted hr hi)).untouched (hu _ (by simp))
    | pushing hx =>
      rw [hp] at hx
      exact (h.demands _ _ _ (.pushing hx)).untouched (hu _ (by simp))
    | @queued y hy =>
      have hy' : y ∈ s.pool.q := by
        rw [hq]
        exact List.mem_cons_of_mem _ hy
      obtain ⟨m, f', hm, hom, hfm, hfitm⟩ := h.demands _ _ _ (.queued hy')
      have hmn : m ≠ n := by
        rintro rfl
        refine hnodup.1 (List.mem_map.2 ⟨y, hy, ?_⟩)
        rw [hm, hn]
      exact ⟨m, f', hm, by rw [Function.update_of_ne hmn, hom], hfm, hfitm⟩
    | @popped v y hy hg =>
      rw [hw] at hy
      split_ifs at hy with hv
      · cases hy
        rw [hv]
        exact ⟨n, f, hn, Function.update_self .., hf, hfit⟩
      · exact (h.demands _ _ _ (.popped hy hg)).untouched (hu _ (by simp))

theorem Owned.env (h : Owned e s g owner) (he : Env e s t) : ∃ owner', Owned e t g owner' := by
  cases he with
  | accept4 hp _ hfree hq => exact ⟨_, h.accept4 hp hfree.2 hq⟩
  | loop _ hl hpc => exact h.loop hl hpc
  | connect => exact ⟨owner, h.connect⟩
  | pool hs hh ha => exact h.pool hs hh ha

/-! ## The workers -/

/-- A worker is given its share. -/
theorem Owned.start (h : Owned e s g owner) {w : W} (hw : g w = none) {x : Numbered}
    (hx : s.pool.worker w = .handerTask x) (u : Unset) :
    ∃ a : Share, a.Begins e ∧ (a.sock : ℤ) = x.1.sock ∧ a.unset = u ∧
      Owned e { s with serving := Function.update s.serving w ⟨x.1.sock, u, [], [], []⟩ }
        (Function.update g w (some a)) owner := by
  obtain ⟨n, f, hn, ho, hf, c, rfl, hc⟩ :=
    h.demands _ _ _ (.popped (w := w) (x := x) (by rw [hx]; rfl) hw)
  have hu (o : Owner W) : Untouched s owner
      { s with serving := Function.update s.serving w ⟨x.1.sock, u, [], [], []⟩ } owner o :=
    untouched_same rfl rfl rfl rfl
  refine ⟨⟨c, n, u, s.rx c, s.tx c, [], [], [], true⟩, ⟨hc, rfl, rfl, rfl, rfl⟩, hn.symm, rfl,
    h.disk, ?_, h.queue, ?_, h.idle, h.books⟩
  · intro o fd k hd
    cases hd with
    | standard hn => exact (h.demands _ _ _ (.standard hn)).untouched (hu _)
    | reserve hr hi => exact (h.demands _ _ _ (.reserve hr hi)).untouched (hu _)
    | accepted hr hi => exact (h.demands _ _ _ (.accepted hr hi)).untouched (hu _)
    | pushing hy => exact (h.demands _ _ _ (.pushing hy)).untouched (hu _)
    | queued hy => exact (h.demands _ _ _ (.queued hy)).untouched (hu _)
    | @popped v y hy hg =>
      rw [Function.update_apply] at hg
      split_ifs at hg
      exact (h.demands _ _ _ (.popped hy hg)).untouched (hu _)
  · intro v a hv
    rw [Function.update_apply] at hv
    split_ifs at hv with hvw
    · cases hv
      subst hvw
      exact ⟨⟨x, hx⟩, by simp [Share.serving, hn], fun _ => ⟨ho, hf, rfl, rfl⟩, by simp⟩
    · exact (h.shares v a hv).untouched (hu _) (fun _ hy => hy) (Function.update_of_ne hvw ..)

/-- A worker gives its share back. -/
theorem Owned.finish (h : Owned e s g owner) {w : W} {handled : List Numbered} :
    Owned e { s with pool := { s.pool.setWorker w .lock with handled } }
      (Function.update g w none) owner := by
  have hu (o : Owner W) : Untouched s owner
      { s with pool := { s.pool.setWorker w .lock with handled } } owner o :=
    untouched_same rfl rfl rfl rfl
  have hpc (v : W) : ({ s.pool.setWorker w .lock with handled } : Pool W Unit).worker v =
      if v = w then .lock else s.pool.worker v := Pool.setWorker_worker s.pool w v .lock
  refine ⟨h.disk, ?_, h.queue, ?_, h.idle, h.books⟩
  · intro o fd k hd
    cases hd with
    | standard hn => exact (h.demands _ _ _ (.standard hn)).untouched (hu _)
    | reserve hr hi => exact (h.demands _ _ _ (.reserve hr hi)).untouched (hu _)
    | accepted hr hi => exact (h.demands _ _ _ (.accepted hr hi)).untouched (hu _)
    | pushing hy => exact (h.demands _ _ _ (.pushing hy)).untouched (hu _)
    | queued hy => exact (h.demands _ _ _ (.queued hy)).untouched (hu _)
    | @popped v y hy hg =>
      rw [hpc] at hy
      split_ifs at hy with hv
      · cases hy
      · rw [Function.update_of_ne hv] at hg
        exact (h.demands _ _ _ (.popped hy hg)).untouched (hu _)
  · intro v a hv
    rw [Function.update_apply] at hv
    split_ifs at hv with hvw
    refine (h.shares v a hv).untouched (hu _) (fun y hy => ?_) rfl
    rw [hpc, if_neg hvw, hy]

/-! ## Calls -/

section
variable {w : W} {a b : Share}

/-- A call of `w` leaves to the others what they have. -/
theorem Owned.of_call (h : Owned e s g owner) (hpool : t.pool = s.pool)
    (hpc : t.loop.pc = s.loop.pc) (hidle : t.loop.idlefd = s.loop.idlefd)
    (hdisk : t.disk = e.disk) (hserving : ∀ v, v ≠ w → t.serving v = s.serving v)
    (hu : ∀ o, o ≠ .worker w → Untouched s owner t owner' o) (hb : Shares t owner' w b)
    (hbooks : Books e t) : Owned e t (Function.update g w (some b)) owner' := by
  refine ⟨hdisk, ?_, by rw [hpool]; exact h.queue, ?_, by rw [hpc, hidle]; exact h.idle, hbooks⟩
  · intro o fd k hd
    cases hd with
    | standard hn => exact (h.demands _ _ _ (.standard hn)).untouched (hu _ (by simp))
    | reserve hr hi =>
      rw [hpc] at hr
      rw [hidle] at hi
      exact (h.demands _ _ _ (.reserve hr hi)).untouched (hu _ (by simp))
    | accepted hr hi =>
      rw [hpc] at hr
      rw [hidle] at hi
      exact (h.demands _ _ _ (.accepted hr hi)).untouched (hu _ (by simp))
    | pushing hy =>
      rw [hpool] at hy
      exact (h.demands _ _ _ (.pushing hy)).untouched (hu _ (by simp))
    | queued hy =>
      rw [hpool] at hy
      exact (h.demands _ _ _ (.queued hy)).untouched (hu _ (by simp))
    | @popped v y hy hg =>
      rw [Function.update_apply] at hg
      split_ifs at hg with hv
      rw [hpool] at hy
      exact (h.demands _ _ _ (.popped hy hg)).untouched (hu _ (by simpa using hv))
  · intro v a' hv
    rw [Function.update_apply] at hv
    split_ifs at hv with hvw
    · cases hv
      rw [hvw]
      exact hb
    · refine (h.shares v a' hv).untouched (hu _ (by simpa using hvw)) (fun y hy => ?_)
        (hserving v hvw)
      rw [hpool]
      exact hy

/-- A call that changes nothing. -/
theorem Owned.keep (h : Owned e s g owner) (hw : g w = some a) :
    Owned e s (Function.update g w (some a)) owner := by
  rwa [show Function.update g w (some a) = g from by rw [← hw]; exact Function.update_eq_self w g]

omit [DecidableEq W] in
theorem Shares.conn (h : Shares s owner w a) {sock : ℤ} (hs : a.IsSock sock) :
    s.conn sock = some a.conn := by
  obtain ⟨rfl, ho⟩ := hs
  rw [Server.conn, show s.file (a.sock : ℤ) = s.loop.fds a.sock from rfl, (h.sock ho).2.1]

omit [DecidableEq W] in
theorem Shares.file (h : Shares s owner w a) {d : ℕ × Bytes} (hd : d ∈ a.own) :
    s.file (d.1 : ℤ) = some .other := (h.own d hd).2.1

omit [DecidableEq W] in
/-- What a worker reads through its descriptors. -/
theorem Shares.contentOf (h : Shares s owner w a)
    (hfd : fd = -1 ∨ ∃ d ∈ a.own, (d.1 : ℤ) = fd) : s.contentOf fd = a.contentOf fd := by
  rcases hfd with rfl | ⟨d, hd, rfl⟩
  · rw [Share.contentOf, List.find?_eq_none.2]
    · rfl
    · intro d _
      simp
  · rw [Server.contentOf, h.file hd]
    obtain ⟨d', hf⟩ : ∃ d', (a.own.find? fun x => decide ((x.1 : ℤ) = d.1)) = some d' := by
      rw [← Option.isSome_iff_exists, List.find?_isSome]
      exact ⟨d, hd, by simp⟩
    have hd' : d' ∈ a.own := List.mem_of_find?_eq_some hf
    have he : d'.1 = d.1 := by simpa using List.find?_some hf
    rw [Share.contentOf, hf]
    simp only [Int.toNat_natCast, Option.map_some, ← (h.own d' hd').2.2, he]

/-- What a worker does to its connection. -/
theorem Owned.touch (h : Owned e s g owner) (hw : g w = some a) {sock : ℤ} (hs : a.IsSock sock)
    (rx : RecvSide) (tx : SendSide) :
    Owned e { s with rx := Function.update s.rx a.conn rx, tx := Function.update s.tx a.conn tx }
      (Function.update g w (some { a with rx, tx })) owner := by
  have ha := h.shares w a hw
  obtain ⟨ho, hf, -, -⟩ := ha.sock hs.2
  have hne (d : ℕ) (hd : d ≠ a.conn) : Function.update s.rx a.conn rx d = s.rx d ∧
      Function.update s.tx a.conn tx d = s.tx d :=
    ⟨Function.update_of_ne hd .., Function.update_of_ne hd ..⟩
  refine h.of_call rfl rfl rfl h.disk (fun _ _ => rfl) (fun o ho' => ?_)
    ⟨ha.task, ha.serving, fun _ => ⟨ho, hf, Function.update_self .., Function.update_self ..⟩,
      ha.own⟩ (h.books.touch hf hne)
  exact untouched_conn h.books.single hf (by rw [ho]; exact ho'.symm) rfl rfl hne

/-- What has come of a call of `w` is recorded. -/
theorem Owned.note (h : Owned e s g owner) (hw : g w = some a) {f : Serving → Serving} {b : Share}
    (hb : b.serving = f a.serving) (hsame : { a with met := b.met, left := b.left } = b) :
    Owned e (s.note w f) (Function.update g w (some b)) owner := by
  have ha := h.shares w a hw
  refine h.of_call rfl rfl rfl h.disk (fun _ hv => Function.update_of_ne hv ..)
    (fun _ _ => untouched_same rfl rfl rfl rfl) ⟨ha.task, ?_, ?_, ?_⟩ h.books
  · show Function.update s.serving w (f (s.serving w)) w = b.serving
    rw [Function.update_self, ha.serving, hb]
  · rw [← hsame]
    exact ha.sock
  · rw [← hsame]
    exact ha.own

/-- The kernel refuses a call of `w`, or has nothing to give. -/
theorem Owned.meet (h : Owned e s g owner) (hw : g w = some a) (refused : Bool) :
    Owned e (s.meet w refused) (Function.update g w (some (a.meet refused))) owner :=
  h.note hw rfl rfl

/-- A child of `w` is left with something. -/
theorem Owned.leave (h : Owned e s g owner) (hw : g w = some a) (left : Leftover) :
    Owned e (s.leave w left) (Function.update g w (some (a.leave left))) owner :=
  h.note hw rfl rfl

/-- A worker gets a descriptor. -/
theorem Owned.alloc (h : Owned e s g owner) (hw : g w = some a) {n : ℕ}
    (hn : s.loop.fds n = none) (content : Bytes) :
    Owned e (s.alloc w n content) (Function.update g w (some (a.alloc n content)))
      (Function.update owner n (.worker w)) := by
  have ha := h.shares w a hw
  have hne (m : ℕ) {f : OpenFile} (hm : s.loop.fds m = some f) : m ≠ n := by
    rintro rfl
    rw [hn] at hm
    cases hm
  have hu (o : Owner W) :
      Untouched s owner (s.alloc w n content) (Function.update owner n (.worker w)) o :=
    untouched_update rfl (fun m hm => Function.update_of_ne hm ..) rfl rfl (.inl hn)
  refine h.of_call rfl rfl rfl h.disk (fun _ hv => Function.update_of_ne hv ..) (fun o _ => hu o)
    ⟨ha.task, ?_, fun hopen => ?_, fun d hd => ?_⟩
    (h.books.files (OpenFiles.sameConns_update (by simp [hn]) (by simp)))
  · show Function.update s.serving w _ w = _
    rw [Function.update_self, ha.serving]
    simp [Share.serving, Share.alloc]
  · obtain ⟨ho, hf, hrx, htx⟩ := ha.sock hopen
    obtain ⟨ho', hf', -⟩ := (hu _).file _ _ ho hf
    exact ⟨ho', hf', hrx, htx⟩
  · rcases List.mem_append.1 hd with hd | hd
    · obtain ⟨ho, hf, hc⟩ := ha.own d hd
      obtain ⟨ho', hf', hc'⟩ := (hu _).file _ _ ho hf
      exact ⟨ho', hf', hc'.trans hc⟩
    · rw [List.mem_singleton.1 hd]
      exact ⟨Function.update_self .., Function.update_self .., Function.update_self ..⟩

omit [DecidableEq W] in
/-- A free descriptor may be given to a worker. -/
theorem Owned.free (h : Owned e s g owner) (hw : g w = some a) (ho : a.isOpen = true) {n : ℕ}
    (hn : s.loop.fds n = none) : a.Free n := by
  have hne (m : ℕ) {f : OpenFile} (hm : s.loop.fds m = some f) : n ≠ m := by
    rintro rfl
    rw [hn] at hm
    cases hm
  obtain ⟨m, f, hm, -, hf, -⟩ := h.demands _ _ _ (.standard (Nat.succ_pos 2))
  cases Int.ofNat.inj hm
  refine ⟨Nat.pos_of_ne_zero (hne 0 hf), hne _ ((h.shares w a hw).sock ho).2.1, ?_⟩
  exact fun d hd => (hne _ ((h.shares w a hw).own d hd).2.1).symm

omit [DecidableEq W] in
theorem untouched_closeFd [DecidableEq W] {n : ℕ} (hn : owner n = .worker w)
    (answered : List (ℕ × Serving)) (ho : o ≠ .worker w) :
    Untouched s owner { s.closeFd w n with answered } owner o := by
  have hu : Untouched s owner { s.closeFd w n with answered }
      (Function.update owner n (.worker w)) o :=
    untouched_update rfl (fun _ _ => rfl) rfl rfl (.inr (by rw [hn]; exact ho.symm))
  rwa [show Function.update owner n (.worker w) = owner from by
    rw [← hn]; exact Function.update_eq_self n owner] at hu

omit [DecidableEq W] in
theorem Share.closeFd_serving (a : Share) (n : ℕ) :
    (a.closeFd n).serving = { a.serving with own := a.serving.own.filter (· ≠ n) } := by
  simp only [Share.closeFd, Share.serving, List.filter_map, Function.comp_def, ne_eq, Nat.cast_inj]

/-- A worker closes what it has opened. -/
theorem Owned.closeOwn (h : Owned e s g owner) (hw : g w = some a) {d : ℕ × Bytes}
    (hd : d ∈ a.own) :
    Owned e (s.closeFd w d.1) (Function.update g w (some (a.closeFd d.1))) owner := by
  have ha := h.shares w a hw
  obtain ⟨ho, hf, -⟩ := ha.own d hd
  have hclose (m : ℕ) (hm : m ≠ d.1) : s.loop.fds.close (some d.1) m = s.loop.fds m :=
    Function.update_of_ne hm ..
  refine h.of_call rfl rfl rfl h.disk (fun _ hv => Function.update_of_ne hv ..)
    (fun _ => untouched_closeFd ho s.answered)
    ⟨ha.task, ?_, fun hopen => ?_, fun d' hd' => ?_⟩
    (h.books.files (OpenFiles.sameConns_update (by simp [hf]) (by simp)))
  · rw [Share.closeFd_serving, ← ha.serving]
    exact Function.update_self ..
  · rw [Share.closeFd, Bool.and_eq_true, bne_iff_ne, ne_eq, Nat.cast_inj] at hopen
    obtain ⟨ho₁, hf₁, hrest⟩ := ha.sock hopen.1
    exact ⟨ho₁, (hclose _ hopen.2).trans hf₁, hrest⟩
  · obtain ⟨hmem, hne⟩ := List.mem_filter.1 hd'
    obtain ⟨ho₁, hf₁, hc₁⟩ := ha.own d' hmem
    exact ⟨ho₁, (hclose _ (by simpa using hne)).trans hf₁, hc₁⟩

/-- A worker that has answered closes its socket. -/
theorem Owned.closeSock (h : Owned e s g owner) (hw : g w = some a) (hopen : a.isOpen = true)
    (hserved : a.Served e) :
    Owned e { s.closeFd w a.sock with answered := s.answered ++ [(a.conn, s.serving w)] }
      (Function.update g w (some (a.closeFd a.sock))) owner := by
  have ha := h.shares w a hw
  obtain ⟨ho, hf, hrx, htx⟩ := ha.sock hopen
  have hclose (m : ℕ) (hm : m ≠ a.sock) : s.loop.fds.close (some a.sock) m = s.loop.fds m :=
    Function.update_of_ne hm ..
  refine h.of_call rfl rfl rfl h.disk (fun _ hv => Function.update_of_ne hv ..)
    (fun _ => untouched_closeFd ho _) ⟨ha.task, ?_, fun hopen' => ?_, fun d hd => ?_⟩
    (h.books.answer hf (by rw [ha.serving, hrx, htx]; exact hserved))
  · rw [Share.closeFd_serving, ← ha.serving]
    exact Function.update_self ..
  · simp [Share.closeFd] at hopen'
  · obtain ⟨hmem, -⟩ := List.mem_filter.1 hd
    obtain ⟨ho₁, hf₁, hc₁⟩ := ha.own d hmem
    refine ⟨ho₁, (hclose _ ?_).trans hf₁, hc₁⟩
    intro he
    rw [he, hf] at hf₁
    cases hf₁

/-- What a worker reads of its connection. -/
theorem Owned.touch_rx (h : Owned e s g owner) (hw : g w = some a) {sock : ℤ}
    (hs : a.IsSock sock) (rx : RecvSide) :
    Owned e { s with rx := Function.update s.rx a.conn rx }
      (Function.update g w (some { a with rx })) owner := by
  have ht := h.touch hw hs rx a.tx
  rwa [← ((h.shares w a hw).sock hs.2).2.2.2, Function.update_eq_self,
    ((h.shares w a hw).sock hs.2).2.2.2] at ht

/-- What a worker writes to its connection. -/
theorem Owned.touch_tx (h : Owned e s g owner) (hw : g w = some a) {sock : ℤ}
    (hs : a.IsSock sock) (tx : SendSide) :
    Owned e { s with tx := Function.update s.tx a.conn tx }
      (Function.update g w (some { a with tx })) owner := by
  have ht := h.touch hw hs a.rx tx
  rwa [← ((h.shares w a hw).sock hs.2).2.2.1, Function.update_eq_self,
    ((h.shares w a hw).sock hs.2).2.2.1] at ht

/-- **Every call of a worker is answered as the contract says.** -/
theorem Owned.call (h : Owned e s g owner) (hd : e.DiskKept) (hw : g w = some a)
    {c : KernelCall} {r : c.Answer} (hpre : (workerContract e).pre a c) (hc : Call e w s c r t) :
    ∃ b owner', (workerContract e).post a c r b ∧
      Owned e t (Function.update g w (some b)) owner' := by
  have ha := h.shares w a hw
  cases hc with
  | @receive sock ep c hconn =>
    rw [ha.conn hpre] at hconn
    cases hconn
    rw [(ha.sock hpre.2).2.2.1]
    exact ⟨_, owner, ⟨rfl, rfl⟩, h.touch_rx hw hpre _⟩
  | @send sock bs c hconn =>
    rw [ha.conn hpre] at hconn
    cases hconn
    rw [(ha.sock hpre.2).2.2.2]
    exact ⟨_, owner, ⟨rfl, rfl⟩, h.touch_tx hw hpre _⟩
  | @sendfile sock fd count c hconn =>
    rw [ha.conn hpre.1] at hconn
    cases hconn
    rw [(ha.sock hpre.1.2).2.2.2, ha.contentOf hpre.2]
    exact ⟨_, owner, ⟨rfl, rfl⟩, h.touch_tx hw hpre.1 _⟩
  | receive_error hconn | send_error hconn =>
    rw [ha.conn hpre] at hconn
    cases hconn
  | sendfile_error hconn =>
    rw [ha.conn hpre.1] at hconn
    cases hconn
  | stat => exact ⟨a, owner, ⟨by rw [h.disk], rfl⟩, h.keep hw⟩
  | @«open» path f n hf hr hfree =>
    rw [h.disk] at hf
    have hn := (h.alloc hw hfree.2 f.content).meet (Function.update_self ..) false
    rw [Function.update_idem] at hn
    exact ⟨_, _, .inl ⟨f, n, hf, hr, h.free hw hpre hfree.2, rfl, rfl⟩, hn⟩
  | open_missing hf =>
    rw [h.disk] at hf
    exact ⟨_, owner, .inr (.inr ⟨hf, rfl, rfl⟩), h.meet hw false⟩
  | open_refused => exact ⟨_, owner, .inr (.inl ⟨rfl, rfl⟩), h.meet hw true⟩
  | @close fd hno =>
    rcases hpre with rfl | ⟨d, hmem, rfl⟩ | ⟨hs, -⟩
    · exact ⟨a, owner, a.closeFd_neg.symm, h.keep hw⟩
    · rw [if_pos (Int.natCast_nonneg _), Int.toNat_natCast]
      exact ⟨_, owner, rfl, h.closeOwn hw hmem⟩
    · obtain ⟨rfl, hopen⟩ := hs
      exact absurd (ha.sock hopen).2.1 (hno _)
  | @close_conn fd c hconn =>
    rcases hpre with rfl | ⟨d, hmem, rfl⟩ | ⟨hs, hserved⟩
    · cases hconn
    · rw [ha.file hmem] at hconn
      cases hconn
    · obtain ⟨rfl, hopen⟩ := hs
      have hf : s.file (a.sock : ℤ) = some (.conn a.conn) := (ha.sock hopen).2.1
      rw [hf] at hconn
      cases hconn
      rw [Int.toNat_natCast]
      exact ⟨_, owner, rfl, h.closeSock hw hopen hserved⟩
  | @pipe m n hm hn hmn =>
    have h₁ := h.alloc hw hm.2 []
    have hn' : (s.alloc w m []).loop.fds n = none :=
      (Function.update_of_ne (Ne.symm hmn) ..).trans hn.2
    have h₂ := h₁.alloc (Function.update_self ..) hn' []
    have h₃ := h₂.meet (Function.update_self ..) false
    rw [Function.update_idem, Function.update_idem] at h₃
    exact ⟨_, _, .inl ⟨m, n, h.free hw hpre hm.2, h.free hw hpre hn.2, hmn, rfl, rfl⟩, h₃⟩
  | pipe_refused => exact ⟨_, owner, .inr ⟨rfl, rfl⟩, h.meet hw true⟩
  | fork => exact ⟨_, owner, rfl, h.meet hw false⟩
  | fork_refused => exact ⟨_, owner, rfl, h.meet hw true⟩
  | @exec path inp run left hrun =>
    have hdisk : run.disk = s.disk := by rw [← hrun, h.disk, hd.childRun]
    rw [h.disk] at hrun
    refine ⟨a.leave left, owner, ⟨left, rfl, by rw [hrun]⟩, ?_⟩
    rw [hdisk]
    exact h.leave hw left
  | waitpid => exact ⟨a, owner, ⟨rfl, rfl⟩, h.keep hw⟩

end

end Server

end MyHttpServer
