/-
  Every task is delivered, and no wake-up is lost.

  What a step does to the tasks is said once (`Step.tasks`): nothing, a push, a
  pop, or the end of a task's handling.  That a section of the mutex is held by
  one thread at a time (`Exclusive`) makes a test of the queue's size good for
  the statement behind it (`Tested`).

  * `delivery`: each task that has been pushed is in one place;
  * `not_lost`: a task in the queue has a thread that is going to take it, or to
    wake one.
-/
import MyHttpServer.Model.ThreadPool

namespace MyHttpServer

/-- The worker has the mutex. -/
def WorkerPc.InSection : WorkerPc → Prop
  | .size | .wait | .popTask | .unLock _ => True
  | _ => False

/-- The task that the worker holds. -/
def WorkerPc.task : WorkerPc → Option Numbered
  | .unLock t | .handerTask t => some t
  | _ => none

/-- The producer has the mutex. -/
def ProducerPc.InSection : ProducerPc → Prop
  | .push _ | .unLock => True
  | _ => False

/-- The producer has pushed and not yet come to its signal. -/
def ProducerPc.Pending : ProducerPc → Prop
  | .unLock | .size | .signalThread => True
  | _ => False

namespace Pool
variable {W P : Type}

section
variable [DecidableEq W] (s : Pool W P) (w v : W) (pc : WorkerPc)

@[simp] theorem setWorker_worker :
    (s.setWorker w pc).worker v = if v = w then pc else s.worker v := by
  simp [setWorker, Function.update_apply]
@[simp] theorem setWorker_producer : (s.setWorker w pc).producer = s.producer := rfl
@[simp] theorem setWorker_q : (s.setWorker w pc).q = s.q := rfl
@[simp] theorem setWorker_mutex : (s.setWorker w pc).mutex = s.mutex := rfl
@[simp] theorem setWorker_pushed : (s.setWorker w pc).pushed = s.pushed := rfl
@[simp] theorem setWorker_popped : (s.setWorker w pc).popped = s.popped := rfl
@[simp] theorem setWorker_handled : (s.setWorker w pc).handled = s.handled := rfl

/-- A change of place that keeps the worker's task keeps all workers' tasks. -/
theorem setWorker_task (h : pc.task = (s.worker w).task) :
    ((s.setWorker w pc).worker v).task = (s.worker v).task := by
  rw [setWorker_worker]
  split
  · rename_i hv
    rw [hv, h]
  · rfl

end

section
variable [DecidableEq P] (s : Pool W P) (p r : P) (pc : ProducerPc)

@[simp] theorem setProducer_producer :
    (s.setProducer p pc).producer r = if r = p then pc else s.producer r := by
  simp [setProducer, Function.update_apply]
@[simp] theorem setProducer_worker : (s.setProducer p pc).worker = s.worker := rfl
@[simp] theorem setProducer_q : (s.setProducer p pc).q = s.q := rfl
@[simp] theorem setProducer_mutex : (s.setProducer p pc).mutex = s.mutex := rfl
@[simp] theorem setProducer_pushed : (s.setProducer p pc).pushed = s.pushed := rfl
@[simp] theorem setProducer_popped : (s.setProducer p pc).popped = s.popped := rfl
@[simp] theorem setProducer_handled : (s.setProducer p pc).handled = s.handled := rfl

end

variable {s t : Pool W P}

/-! ## The tasks -/

/-- The tasks of `t` are where they are in `s`. -/
structure SameTasks (s t : Pool W P) : Prop where
  q : t.q = s.q
  pushed : t.pushed = s.pushed
  popped : t.popped = s.popped
  handled : t.handled = s.handled
  held : ∀ v, (t.worker v).task = (s.worker v).task

/-- The tasks that are popped are held or handled, each by one worker and once,
    and they were pushed before those in the queue. -/
structure Delivered (s : Pool W P) : Prop where
  order : s.popped ++ s.q = s.pushed.zipIdx
  popped : ∀ x, x ∈ s.popped ↔ x ∈ s.handled ∨ ∃ w, (s.worker w).task = some x
  held : ∀ w v x, (s.worker w).task = some x → (s.worker v).task = some x → w = v
  handled : ∀ w x, (s.worker w).task = some x → x ∉ s.handled
  once : s.handled.Nodup

theorem Delivered.nodup (h : Delivered s) : (s.popped ++ s.q).Nodup := by
  rw [h.order]
  refine List.Nodup.of_map Prod.snd ?_
  rw [List.zipIdx_map_snd]
  exact List.nodup_range'

theorem delivered_start : Delivered (start : Pool W P) where
  order := rfl
  popped x := by simp [start, WorkerPc.task]
  held w v x h := by simp [start, WorkerPc.task] at h
  handled w x h := by simp [start, WorkerPc.task] at h
  once := List.nodup_nil

variable [DecidableEq W] [DecidableEq P]

/-- **What a step does to the tasks.** -/
theorem Step.tasks (h : Step s t) :
    SameTasks s t ∨
    (∃ x, t.q = s.q ++ [(x, s.pushed.length)] ∧ t.pushed = s.pushed ++ [x] ∧
      t.popped = s.popped ∧ t.handled = s.handled ∧
      ∀ v, (t.worker v).task = (s.worker v).task) ∨
    (∃ w x, s.q = x :: t.q ∧ t.pushed = s.pushed ∧ t.popped = s.popped ++ [x] ∧
      t.handled = s.handled ∧ (s.worker w).task = none ∧
      ∀ v, (t.worker v).task = if v = w then some x else (s.worker v).task) ∨
    ∃ w x, (s.worker w).task = some x ∧ t.q = s.q ∧ t.pushed = s.pushed ∧
      t.popped = s.popped ∧ t.handled = s.handled ++ [x] ∧
      ∀ v, (t.worker v).task = if v = w then none else (s.worker v).task := by
  cases h with
  | lock hw | size_zero hw | size_pos hw | wait hw | wake hw | relock hw | unLock hw =>
    exact .inl ⟨rfl, rfl, rfl, rfl, fun v => setWorker_task _ _ _ _ (by rw [hw]; rfl)⟩
  | signal hp hw =>
    exact .inl ⟨rfl, rfl, rfl, rfl, fun v => setWorker_task _ _ _ _ (by rw [hw]; rfl)⟩
  | accept | push_lock | push_unLock | push_size_pos | push_size_zero | signal_none =>
    exact .inl ⟨rfl, rfl, rfl, rfl, fun v => rfl⟩
  | push => exact .inr (.inl ⟨_, rfl, rfl, rfl, rfl, fun v => rfl⟩)
  | @popTask w x q hw hq =>
    refine .inr (.inr (.inl ⟨w, x, hq, rfl, rfl, rfl, by rw [hw]; rfl, fun v => ?_⟩))
    rw [setWorker_worker]
    split <;> rfl
  | @handerTask w x hw =>
    refine .inr (.inr (.inr ⟨w, x, by rw [hw]; rfl, rfl, rfl, rfl, rfl, fun v => ?_⟩))
    rw [setWorker_worker]
    split <;> rfl

theorem Delivered.step (h : Delivered s) (hs : Step s t) : Delivered t := by
  rcases hs.tasks with ⟨hq, hp, hpop, hh, hw⟩ | ⟨x, hq, hp, hpop, hh, hw⟩ |
    ⟨w, x, hq, hp, hpop, hh, hno, hw⟩ | ⟨w, x, hx, hq, hp, hpop, hh, hw⟩
  · obtain ⟨h1, h2, h3, h4, h5⟩ := h
    constructor
    · rw [hpop, hq, hp, h1]
    · simpa only [hpop, hh, hw] using h2
    · simpa only [hw] using h3
    · simpa only [hw, hh] using h4
    · rwa [hh]
  · obtain ⟨h1, h2, h3, h4, h5⟩ := h
    constructor
    · rw [hpop, hq, hp, ← List.append_assoc, h1, List.zipIdx_append]
      simp
    · simpa only [hpop, hh, hw] using h2
    · simpa only [hw] using h3
    · simpa only [hw, hh] using h4
    · rwa [hh]
  · -- `x` moves from the queue to the worker `w`, which had no task
    have hnew : x ∉ s.popped := by
      have := h.nodup
      rw [hq, List.nodup_append] at this
      intro hx
      exact this.2.2 x hx x (by simp) rfl
    have hnew' : x ∉ s.handled ∧ ∀ v, (s.worker v).task ≠ some x := by
      rw [h.popped x, not_or, not_exists] at hnew
      exact hnew
    obtain ⟨h1, h2, h3, h4, h5⟩ := h
    constructor
    · rw [hpop, hp, List.append_assoc, List.singleton_append, ← hq, h1]
    · intro y
      rw [hpop, hh, List.mem_append, List.mem_singleton, h2]
      constructor
      · rintro ((hy | ⟨v, hv⟩) | rfl)
        · exact .inl hy
        · refine .inr ⟨v, ?_⟩
          rw [hw, if_neg, hv]
          rintro rfl
          rw [hno] at hv; cases hv
        · exact .inr ⟨w, by rw [hw, if_pos rfl]⟩
      · rintro (hy | ⟨v, hv⟩)
        · exact .inl (.inl hy)
        · rw [hw] at hv
          split at hv
          · cases hv; exact .inr rfl
          · exact .inl (.inr ⟨v, hv⟩)
    · intro u v y hu hv
      rw [hw] at hu hv
      split at hu <;> split at hv
      · rename_i hu' hv'
        rw [hu', hv']
      · cases hu; exact absurd hv (hnew'.2 v)
      · cases hv; exact absurd hu (hnew'.2 u)
      · exact h3 u v y hu hv
    · intro v y hv
      rw [hw] at hv
      rw [hh]
      split at hv
      · cases hv; exact hnew'.1
      · exact h4 v y hv
    · rwa [hh]
  · -- `x` has been handled by the worker `w`
    obtain ⟨h1, h2, h3, h4, h5⟩ := h
    constructor
    · rw [hpop, hq, hp, h1]
    · intro y
      rw [hpop, hh, List.mem_append, List.mem_singleton, h2]
      constructor
      · rintro (hy | ⟨v, hv⟩)
        · exact .inl (.inl hy)
        · by_cases hvw : v = w
          · rw [hvw, hx] at hv; cases hv
            exact .inl (.inr rfl)
          · exact .inr ⟨v, by rw [hw, if_neg hvw, hv]⟩
      · rintro ((hy | rfl) | ⟨v, hv⟩)
        · exact .inl hy
        · exact .inr ⟨w, hx⟩
        · rw [hw] at hv
          split at hv
          · cases hv
          · exact .inr ⟨v, hv⟩
    · intro u v y hu hv
      rw [hw] at hu hv
      split at hu
      · cases hu
      split at hv
      · cases hv
      exact h3 u v y hu hv
    · intro v y hv
      rw [hw] at hv
      split at hv
      · cases hv
      rename_i hvw
      rw [hh, List.mem_append, List.mem_singleton, not_or]
      refine ⟨h4 v y hv, ?_⟩
      rintro rfl
      exact hvw (h3 v w y hv hx)
    · rw [hh, List.nodup_append]
      refine ⟨h5, List.nodup_singleton x, ?_⟩
      intro y hy z hz
      rw [List.mem_singleton.1 hz]
      rintro rfl
      exact h4 w y hx hy

/-! ## The mutex -/

/-- Who is in a section has the mutex. -/
structure Exclusive (s : Pool W P) : Prop where
  worker : ∀ w, (s.worker w).InSection → s.mutex = some (.inl w)
  producer : ∀ p, (s.producer p).InSection → s.mutex = some (.inr p)

omit [DecidableEq W] [DecidableEq P] in
theorem exclusive_start : Exclusive (start : Pool W P) where
  worker w h := by cases h
  producer p h := by cases h

/-- A thread enters a section only if nobody has the mutex, and gives it up
    when it leaves. -/
theorem Exclusive.step (h : Exclusive s) (hs : Step s t) : Exclusive t := by
  obtain ⟨hw, hp⟩ := h
  constructor
  · intro v
    cases hs <;> simp <;> grind [WorkerPc.InSection, ProducerPc.InSection]
  · intro r
    cases hs <;> simp <;> grind [WorkerPc.InSection, ProducerPc.InSection]

omit [DecidableEq W] [DecidableEq P] in
theorem Exclusive.worker_eq (h : Exclusive s) {w v : W} (hw : (s.worker w).InSection)
    (hv : (s.worker v).InSection) : v = w := by
  have he := (h.worker w hw).symm.trans (h.worker v hv)
  cases he; rfl

omit [DecidableEq W] [DecidableEq P] in
theorem Exclusive.not_both (h : Exclusive s) {w : W} {p : P} (hw : (s.worker w).InSection)
    (hp : (s.producer p).InSection) : False := by
  have he := (h.worker w hw).symm.trans (h.producer p hp)
  cases he

/-- What a worker has seen of the queue's size is still so. -/
structure Tested (s : Pool W P) : Prop where
  popTask : ∀ w, s.worker w = .popTask → s.q ≠ []
  wait : ∀ w, s.worker w = .wait → s.q = []

omit [DecidableEq W] [DecidableEq P] in
theorem tested_start : Tested (start : Pool W P) where
  popTask w h := by cases h
  wait w h := by cases h

/-- The queue changes by a push or a pop, in a section: no other worker is then
    between its test and what it does about it. -/
theorem Tested.step (h : Tested s) (he : Exclusive s) (hs : Step s t) : Tested t := by
  obtain ⟨hpop, hwait⟩ := h
  cases hs with
  | @popTask w x q hw hq =>
    have hin : (s.worker w).InSection := by rw [hw]; trivial
    constructor
    · intro v hv
      by_cases hvw : v = w
      · simp [hvw] at hv
      · simp only [setWorker_worker, hvw, if_false] at hv
        exact absurd (he.worker_eq hin (by rw [hv]; trivial)) hvw
    · intro v hv
      by_cases hvw : v = w
      · simp [hvw] at hv
      · simp only [setWorker_worker, hvw, if_false] at hv
        exact absurd (he.worker_eq hin (by rw [hv]; trivial)) hvw
  | @push p x hp =>
    have hin : (s.producer p).InSection := by rw [hp]; trivial
    constructor
    · intro v hv
      simp
    · intro v hv
      exact (he.not_both (w := v) (by rw [show s.worker v = .wait from hv]; trivial) hin).elim
  | size_zero _ hq =>
    constructor <;> intro v hv <;> simp at hv ⊢ <;> grind
  | size_pos _ hq =>
    constructor <;> intro v hv <;> simp at hv ⊢ <;> grind
  | _ => constructor <;> intro v hv <;> simp at hv ⊢ <;> grind

theorem invariant (h : (system W P).Reachable s) : Delivered s ∧ Exclusive s ∧ Tested s := by
  refine h.induct (I := fun s => Delivered s ∧ Exclusive s ∧ Tested s) ?_ ?_
  · rintro _ rfl
    exact ⟨delivered_start, exclusive_start, tested_start⟩
  · rintro s t ⟨hd, he, ht⟩ hs
    exact ⟨hd.step hs, he.step hs, ht.step he hs⟩

/-! ## Delivery -/

/-- The places in which a task may be. -/
inductive Place (W : Type) where
  | queue
  | worker (w : W)
  | handled

/-- The task is at a place. -/
def At (s : Pool W P) (x : Numbered) : Place W → Prop
  | .queue => x ∈ s.q
  | .worker w => (s.worker w).task = some x
  | .handled => x ∈ s.handled

omit [DecidableEq W] [DecidableEq P] in
theorem Delivered.place (h : Delivered s) {x : Numbered} (hx : x ∈ s.pushed.zipIdx) :
    ∃! l, s.At x l := by
  have hn := List.nodup_append.1 h.nodup
  rw [← h.order, List.mem_append, h.popped] at hx
  have hq (hm : x ∈ s.popped) : x ∉ s.q := fun hq => hn.2.2 x hm x hq rfl
  rcases hx with (hx | ⟨w, hx⟩) | hx
  · refine ⟨.handled, hx, ?_⟩
    rintro (_ | v | _) hl
    · exact absurd hl (hq ((h.popped x).2 (.inl hx)))
    · exact absurd hx (h.handled v x hl)
    · rfl
  · refine ⟨.worker w, hx, ?_⟩
    rintro (_ | v | _) hl
    · exact absurd hl (hq ((h.popped x).2 (.inr ⟨w, hx⟩)))
    · rw [h.held v w x hl hx]
    · exact absurd hl (h.handled w x hx)
  · refine ⟨.queue, hx, ?_⟩
    rintro (_ | v | _) hl
    · rfl
    · exact absurd hx (hq ((h.popped x).2 (.inr ⟨v, hl⟩)))
    · exact absurd hx (hq ((h.popped x).2 (.inl hl)))

omit [DecidableEq W] [DecidableEq P] in
theorem Delivered.of_at (h : Delivered s) {x : Numbered} {l : Place W} (hl : s.At x l) :
    x ∈ s.pushed.zipIdx := by
  rw [← h.order, List.mem_append, h.popped]
  cases l with
  | queue => exact .inr hl
  | worker w => exact .inl (.inr ⟨w, hl⟩)
  | handled => exact .inl (.inl hl)

/-- **Every task that has been pushed is in one place**, once; tasks are popped
    in the order in which they were pushed, and never off an empty queue. -/
theorem delivery (h : (system W P).Reachable s) :
    (∀ x ∈ s.pushed.zipIdx, ∃! l, s.At x l) ∧ (∀ x l, s.At x l → x ∈ s.pushed.zipIdx) ∧
      s.q.Nodup ∧ s.handled.Nodup ∧ s.popped <+: s.pushed.zipIdx ∧
      ∀ w, s.worker w = .popTask → s.q ≠ [] := by
  obtain ⟨hd, -, ht⟩ := invariant h
  refine ⟨fun x hx => hd.place hx, fun x l => hd.of_at, (List.nodup_append.1 hd.nodup).2.1,
    hd.once, ?_, ht.popTask⟩
  exact ⟨s.q, hd.order⟩

/-- Two tasks are pushed, and two workers take one each. -/
theorem delivery_popped : ∃ s : Pool Bool Unit, s.pushed = [⟨4⟩, ⟨5⟩] ∧
    s.popped = [(⟨4⟩, 0), (⟨5⟩, 1)] ∧ (∀ x ∈ s.pushed.zipIdx, ∃! l, s.At x l) ∧
    s.popped <+: s.pushed.zipIdx := by
  have h0 : (system Bool Unit).Reachable start := .init rfl
  have h1 := h0.step (Step.accept (p := ()) ⟨4⟩ rfl)
  have h2 := h1.step (Step.push_lock (p := ()) (t := ⟨4⟩) rfl rfl)
  have h3 := h2.step (Step.push (p := ()) (t := ⟨4⟩) rfl)
  have h4 := h3.step (Step.push_unLock (p := ()) rfl)
  have h5 := h4.step (Step.push_size_pos (p := ()) rfl (by decide))
  have h6 := h5.step (Step.signal_none (p := ()) rfl nofun)
  have h7 := h6.step (Step.accept (p := ()) ⟨5⟩ rfl)
  have h8 := h7.step (Step.push_lock (p := ()) (t := ⟨5⟩) rfl rfl)
  have h9 := h8.step (Step.push (p := ()) (t := ⟨5⟩) rfl)
  have h10 := h9.step (Step.push_unLock (p := ()) rfl)
  have h11 := h10.step (Step.lock (w := true) rfl rfl)
  have h12 := h11.step (Step.size_pos (w := true) rfl (List.cons_ne_nil _ _))
  have h13 := h12.step (Step.popTask (w := true) rfl rfl)
  have h14 := h13.step (Step.unLock (w := true) rfl)
  have h15 := h14.step (Step.lock (w := false) rfl rfl)
  have h16 := h15.step (Step.size_pos (w := false) rfl (List.cons_ne_nil _ _))
  have h17 := h16.step (Step.popTask (w := false) rfl rfl)
  obtain ⟨hat, -, -, -, hpop, -⟩ := delivery h17
  exact ⟨_, rfl, rfl, hat, hpop⟩

/-! ## Wake-ups -/

/-- There is no task in the queue, or some worker is awake, or a producer has
    not yet come to its signal. -/
def Attended (s : Pool W P) : Prop :=
  s.q = [] ∨ (∃ w, s.worker w ≠ .asleep) ∨ ∃ p, (s.producer p).Pending

/-- A worker falls asleep only when the queue is empty, and a producer that
    leaves a task behind has woken a worker, or found none asleep. -/
theorem Attended.step [Nonempty W] (h : Attended s) (ht : Tested s) (hs : Step s t) :
    Attended t := by
  have hawake (v : W) (hv : t.worker v ≠ .asleep) : Attended t := .inr (.inl ⟨v, hv⟩)
  have hkeep (hq : t.q = s.q) (hw : ∀ v, s.worker v ≠ .asleep → t.worker v ≠ .asleep)
      (hp : ∀ p, (s.producer p).Pending → (t.producer p).Pending) : Attended t := by
    rcases h with h | ⟨v, hv⟩ | ⟨p, hp'⟩
    · exact .inl (hq.trans h)
    · exact .inr (.inl ⟨v, hw v hv⟩)
    · exact .inr (.inr ⟨p, hp p hp'⟩)
  cases hs with
  | @wait w hw => exact .inl (ht.wait w hw)
  | @lock w | @size_zero w | @size_pos w | @wake w | @relock w | @popTask w | @unLock w
  | @handerTask w => exact hawake w (by simp)
  | @signal p w => exact hawake w (by simp)
  | @signal_none p _ hno =>
    obtain ⟨w⟩ := ‹Nonempty W›
    exact hawake w (hno w)
  | @push p => exact .inr (.inr ⟨p, by simp [ProducerPc.Pending]⟩)
  | @push_unLock p => exact .inr (.inr ⟨p, by simp [ProducerPc.Pending]⟩)
  | @push_size_pos p => exact .inr (.inr ⟨p, by simp [ProducerPc.Pending]⟩)
  | @push_size_zero p _ hz =>
    exact .inl (List.eq_nil_of_length_eq_zero (Nat.eq_zero_of_not_pos hz))
  | @accept p x hp =>
    refine hkeep rfl (fun v hv => hv) fun r hr => ?_
    by_cases hrp : r = p
    · rw [hrp, hp] at hr; cases hr
    · simpa [hrp] using hr
  | @push_lock p x hp =>
    refine hkeep rfl (fun v hv => hv) fun r hr => ?_
    by_cases hrp : r = p
    · rw [hrp, hp] at hr; cases hr
    · simpa [hrp] using hr

/-- **No wake-up is lost**: not all workers sleep while a task is in the queue,
    unless a producer is on its way to wake one. -/
theorem not_lost [Nonempty W] (h : (system W P).Reachable s) :
    ¬ (s.q ≠ [] ∧ (∀ w, s.worker w = .asleep) ∧ ∀ p, ¬ (s.producer p).Pending) := by
  have ha : Attended s := by
    induction h with
    | init h => exact .inl (by rw [show _ = start from h]; rfl)
    | step hr hs ih => exact ih.step (invariant hr).2.2 hs
  rintro ⟨hq, hw, hp⟩
  rcases ha with ha | ⟨v, hv⟩ | ⟨p, hp'⟩
  · exact hq ha
  · exact hv (hw v)
  · exact hp p hp'

/-- A run of one worker, which falls asleep, and one thread, which pushes. -/
theorem reachable_pushed : ∃ s : Pool Unit Unit, (system Unit Unit).Reachable s ∧
    s.pushed = [⟨4⟩] ∧ s.q = [(⟨4⟩, 0)] ∧ s.worker () = .asleep := by
  have h0 : (system Unit Unit).Reachable start := .init rfl
  have h1 := h0.step (Step.lock (w := ()) rfl rfl)
  have h2 := h1.step (Step.size_zero (w := ()) rfl rfl)
  have h3 := h2.step (Step.wait (w := ()) rfl)
  have h4 := h3.step (Step.accept (p := ()) ⟨4⟩ rfl)
  have h5 := h4.step (Step.push_lock (p := ()) (t := ⟨4⟩) rfl rfl)
  have h6 := h5.step (Step.push (p := ()) (t := ⟨4⟩) rfl)
  exact ⟨_, h6, rfl, rfl, rfl⟩

theorem not_lost_pushed : ∃ s : Pool Unit Unit, s.q = [(⟨4⟩, 0)] ∧ (∀ w, s.worker w = .asleep) ∧
    ∃ p, (s.producer p).Pending := by
  obtain ⟨s, h, -, hq, hw⟩ := reachable_pushed
  have hlost := not_lost h
  simp only [not_and, not_forall, not_not] at hlost
  exact ⟨s, hq, fun _ => hw, hlost (by simp [hq]) fun _ => hw⟩

end Pool

end MyHttpServer
