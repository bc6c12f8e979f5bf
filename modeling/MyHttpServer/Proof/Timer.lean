/-
  The timers over whole runs.

  An `Agenda` says which timers are pending and which of them are cancelled,
  without saying how they are kept.

  * `Ticking.round`, `tick_spec`: what a round of `tick`, and a whole `tick`,
    fires and leaves;
  * `Agenda.Agrees.step`, `Agenda.Agrees.run`: every call, and every run, does
    what the agenda says;
  * `timers_follow_agenda`: every run from a new heap.
-/
import MyHttpServer.Proof.TimeHeap

namespace MyHttpServer

open Function

namespace TimeHeap

/-! ## One `tick` -/

/-- In memory the timers `P` expire at the times `key`, and those in `K` have no
    callback any more. -/
def Keeps (key : TimerPtr → ℤ) (K P : Finset TimerPtr) (mem : Timers) : Prop :=
  ∀ p ∈ P, ∃ t, mem p = some t ∧ t.expire = key p ∧ (t.cbFunc.isSome ↔ p ∉ K)

theorem Keeps.expire {key : TimerPtr → ℤ} {K P : Finset TimerPtr} {mem : Timers}
    (h : Keeps key K P mem) : ∀ p ∈ P.val, key p = mem.expire p := by
  intro p hp
  obtain ⟨t, ht, he, -⟩ := h p hp
  simp [Timers.expire, ht, he]

theorem Keeps.alive {key : TimerPtr → ℤ} {K P : Finset TimerPtr} {mem : Timers}
    (h : Keeps key K P mem) : ∀ p ∈ P.val, mem.Alive p := by
  intro p hp
  obtain ⟨t, ht, -⟩ := h p hp
  exact ⟨t, ht⟩

section
variable {ε : Type} {call : Callbacks ε} {key : TimerPtr → ℤ} {K P : Finset TimerPtr} {cur : ℤ}

theorem fire_spec (hq : call.Quiet) {s : TickState ε} {p : TimerPtr} {t : HeapTimer}
    (hl : s.heap.array[0]? = some (some p)) (ht : s.mem p = some t) :
    ∃ env, fire call s =
      .ok { s with env, fired := s.fired ++ if t.cbFunc.isSome then [p] else [] } := by
  simp only [fire, Cells.load_eq hl, Except.ok_bind, deref, ht]
  cases hcb : t.cbFunc with
  | none => exact ⟨s.env, by simp⟩
  | some cb =>
    have hs := hq cb t.userData (s.env, s.mem, s.heap)
    refine ⟨(call cb t.userData (s.env, s.mem, s.heap)).1, ?_⟩
    simp [hs]

/-- `tick` at the head of its loop, which began with the timers `P` in the memory
    `mem₀`: `C` are still there, the others are due and have been fired unless
    they are in `K`. -/
structure Ticking (key : TimerPtr → ℤ) (K P : Finset TimerPtr) (mem₀ : Timers) (cur : ℤ)
    (C : Finset TimerPtr) (f : ℕ → TimerPtr) (s : TickState ε) : Prop where
  sorted : Sorted key C.val s.heap f
  tmp : s.heap.array[0]? = some s.tmp
  sub : C ⊆ P
  keeps : Keeps key K C s.mem
  mem : ∀ p ∉ P, s.mem p = mem₀ p
  due : ∀ p ∈ P, p ∉ C → key p ≤ cur
  fired : ∀ p, p ∈ s.fired ↔ p ∈ P ∧ p ∉ C ∧ p ∉ K
  nodup : s.fired.Nodup
  inOrder : s.fired.Pairwise fun p q => key p ≤ key q
  before : ∀ p ∈ s.fired, ∀ q ∈ C, key p ≤ key q

namespace Ticking
variable {mem₀ : Timers} {C : Finset TimerPtr} {f : ℕ → TimerPtr} {s : TickState ε}

/-- When nothing in the heap is due, the heap holds what is not due. -/
theorem rest (h : Ticking key K P mem₀ cur C f s) (hd : ∀ p ∈ C, cur < key p) :
    P.filter (cur < key ·) = C := by
  ext p
  rw [Finset.mem_filter]
  constructor
  · rintro ⟨hp, hlt⟩
    by_contra hC
    exact absurd (h.due p hp hC) (not_le.2 hlt)
  · intro hC
    exact ⟨h.sub hC, hd p hC⟩

theorem first (h : Ticking key K P mem₀ cur C f s) (hpos : 0 < s.heap.curSize) :
    s.tmp = some (f 0) ∧ f 0 ∈ C ∧ ∀ p ∈ C, key (f 0) ≤ key p := by
  refine ⟨?_, h.sorted.mem_contents.2 ⟨0, hpos, rfl⟩, ?_⟩
  · have := h.sorted.cells 0 hpos
    rw [h.tmp] at this
    exact Option.some.inj this
  · intro p hp
    obtain ⟨i, hi, rfl⟩ := h.sorted.mem_contents.1 hp
    exact h.sorted.ordered.root_le hi

/-- The first timer `p`, which is due, is taken off, and fired unless it is in
    `K`. -/
theorem next (h : Ticking key K P mem₀ cur C f s) {p : TimerPtr} {now : List TimerPtr}
    (hmem : p ∈ C) (hmin : ∀ q ∈ C, key p ≤ key q) (hdue : key p ≤ cur)
    (hnow : ∀ q, q ∈ now ↔ q = p ∧ p ∉ K) (hnd : now.length ≤ 1) {heap : TimeHeap}
    {g : ℕ → TimerPtr} {tmp : Option TimerPtr} (env : ε)
    (hg : Sorted s.mem.expire (C.erase p).val heap g) (hload : heap.array[0]? = some tmp) :
    Ticking key K P mem₀ cur (C.erase p) g
      { tmp, env, mem := update s.mem p none, heap, fired := s.fired ++ now } := by
  have hold : ∀ q ∈ C.erase p, update s.mem p none q = s.mem q := by
    intro q hq
    exact update_of_ne (Finset.ne_of_mem_erase hq) _ _
  have hout : ∀ q, q ∉ C.erase p ↔ q ∉ C ∨ q = p := by
    intro q
    simp only [Finset.mem_erase, not_and_or, not_not]
    tauto
  have hone : ∀ l : List TimerPtr, l.length ≤ 1 →
      l.Nodup ∧ l.Pairwise fun p q => key p ≤ key q := by
    rintro (_ | ⟨a, _ | ⟨b, l⟩⟩) hl
    · simp
    · simp
    · simp at hl
  refine ⟨?_, hload, (Finset.erase_subset _ _).trans h.sub, ?_, ?_, ?_, ?_, ?_, ?_, ?_⟩
  · refine hg.congr ?_
    intro q hq
    exact (h.keeps.expire q (Multiset.mem_of_mem_erase hq)).symm
  · intro q hq
    simp only [hold q hq]
    exact h.keeps q (Finset.mem_of_mem_erase hq)
  · intro q hq
    have hne : q ≠ p := by
      rintro rfl
      exact hq (h.sub hmem)
    simp only [update_of_ne hne]
    exact h.mem q hq
  · intro q hq hC
    rcases (hout q).1 hC with hC | rfl
    · exact h.due q hq hC
    · exact hdue
  · intro q
    simp only [List.mem_append, hnow, h.fired, hout]
    constructor
    · rintro (⟨hq, hC, hK⟩ | ⟨rfl, hK⟩)
      · exact ⟨hq, .inl hC, hK⟩
      · exact ⟨h.sub hmem, .inr rfl, hK⟩
    · rintro ⟨hq, hC | rfl, hK⟩
      · exact .inl ⟨hq, hC, hK⟩
      · exact .inr ⟨rfl, hK⟩
  · refine h.nodup.append (hone now hnd).1 ?_
    intro q hq hq'
    exact ((h.fired q).1 hq).2.1 (((hnow q).1 hq').1 ▸ hmem)
  · refine List.pairwise_append.2 ⟨h.inOrder, (hone now hnd).2, ?_⟩
    intro q hq r hr
    rw [((hnow r).1 hr).1]
    exact h.before q hq _ hmem
  · intro q hq r hr
    have hrC := Finset.mem_of_mem_erase hr
    rcases List.mem_append.1 hq with hq | hq
    · exact h.before q hq r hrC
    · rw [((hnow q).1 hq).1]
      exact hmin r hrC

/-- **A round** breaks off if the first timer is not due, or takes it off. -/
theorem round (hq : call.Quiet) (h : Ticking key K P mem₀ cur C f s)
    (hpos : 0 < s.heap.curSize) :
    (tickBody call cur s = .ok none ∧ ∀ p ∈ C, cur < key p) ∨
    ∃ t, tickBody call cur s = .ok (some t) ∧ ∃ C' g, Ticking key K P mem₀ cur C' g t := by
  obtain ⟨htmp, hmem, hmin⟩ := h.first hpos
  obtain ⟨timer, ht, hkey, hcb⟩ := h.keeps (f 0) hmem
  have hderef : deref s.mem s.tmp = .ok timer := by rw [htmp, deref, ht]
  have hne : s.tmp ≠ none := by simp [htmp]
  by_cases hcur : cur < key (f 0)
  · refine .inl ⟨?_, ?_⟩
    · rw [tickBody, if_neg hne, hderef, Except.ok_bind, hkey, if_pos hcur, Except.pure_eq_ok]
    · intro p hp
      exact hcur.trans_le (hmin p hp)
  -- the first timer is due
  obtain ⟨env, hfire⟩ := fire_spec hq (h.sorted.cells 0 hpos) ht
  obtain ⟨heap, hpop, g, hg⟩ :=
    popTimer_spec (h.sorted.congr h.keeps.expire) h.keeps.alive C.nodup hpos
  have hload : heap.array[0]? = some heap.array[0]?.join := hg.load_first
  have hnow : ∀ p, p ∈ (if timer.cbFunc.isSome then [f 0] else []) ↔ p = f 0 ∧ f 0 ∉ K := by
    intro p
    by_cases hc : timer.cbFunc.isSome
    · simp [hc, hcb.1 hc]
    · simp [hc, not_not.1 (mt hcb.2 hc)]
  have hnext := h.next hmem hmin (not_lt.1 hcur) hnow (by split_ifs <;> simp) env hg hload
  refine .inr ⟨_, ?_, _, _, hnext⟩
  rw [tickBody, if_neg hne, hderef, Except.ok_bind, hkey, if_neg hcur, hfire, Except.ok_bind]
  simp only [hpop, Except.ok_bind, Cells.load_eq hload, Except.pure_eq_ok]

end Ticking

/-- **One `tick`** ends; it fires the timers that are due and not cancelled, each
    once and in order, and leaves those that are not due. -/
theorem tick_spec (hq : call.Quiet) {mem : Timers} {heap : TimeHeap} {f : ℕ → TimerPtr}
    (hs : Sorted key P.val heap f) (hk : Keeps key K P mem) (env : ε) :
    ∃ s, tick call hq cur env mem heap = .ok s ∧
      (∃ g, Sorted key (P.filter (cur < key ·)).val s.heap g) ∧
      Keeps key K (P.filter (cur < key ·)) s.mem ∧ (∀ p ∉ P, s.mem p = mem p) ∧
      s.fired.Nodup ∧ s.fired.Pairwise (fun p q => key p ≤ key q) ∧
      ∀ p, p ∈ s.fired ↔ p ∈ P ∧ key p ≤ cur ∧ p ∉ K := by
  have hload := hs.load_first
  obtain ⟨s, hrun, C, g, h, hd⟩ := FallibleLoop.run_spec (L := tickLoop call hq cur)
    (I := fun s => ∃ C f, Ticking key K P mem cur C f s)
    (Q := fun s => ∃ C f, Ticking key K P mem cur C f s ∧ ∀ p ∈ C, cur < key p)
    (s := { tmp := heap.array[0]?.join, env, mem, heap, fired := [] })
    (by
      rintro s ⟨C, f, h⟩ hc
      refine ⟨C, f, h, ?_⟩
      intro p hp
      obtain ⟨i, hi, -⟩ := h.sorted.mem_contents.1 hp
      simp only [tickLoop, TimeHeap.empty, Bool.not_eq_eq_eq_not, Bool.not_false,
        decide_eq_true_eq] at hc
      omega)
    (by
      rintro s ⟨C, f, h⟩ hc
      have hpos : 0 < s.heap.curSize := by
        simp only [tickLoop, TimeHeap.empty, Bool.not_eq_eq_eq_not, Bool.not_true,
          decide_eq_false_iff_not] at hc
        omega
      rcases h.round hq hpos with ⟨hb, hd⟩ | ⟨t, hb, C', g, ht⟩
      · exact .inl ⟨hb, C, f, h, hd⟩
      · exact .inr ⟨t, hb, C', g, ht⟩)
    ⟨P, f, hs, hload, subset_rfl, hk, fun _ _ => rfl, fun p hp hC => absurd hp hC,
      fun p => by simp; tauto, List.nodup_nil, List.Pairwise.nil, by simp⟩
  have hrest := h.rest hd
  refine ⟨s, ?_, ⟨g, by rw [hrest]; exact h.sorted⟩, by rw [hrest]; exact h.keeps, h.mem, h.nodup,
    h.inOrder, ?_⟩
  · rw [tick, Cells.load_eq hload, Except.ok_bind]
    exact hrun
  · intro p
    rw [h.fired, ← hrest, Finset.mem_filter]
    constructor
    · rintro ⟨hp, hC, hK⟩
      exact ⟨hp, not_lt.1 fun hlt => hC ⟨hp, hlt⟩, hK⟩
    · rintro ⟨hp, hle, hK⟩
      exact ⟨hp, fun hC => absurd hle (not_le.2 hC.2), hK⟩

end

end TimeHeap

/-! ## The agenda -/

/-- Which timers have been added, which of them are still in the heap, and which
    have been cancelled. -/
structure Agenda where
  seen : Finset TimerPtr := ∅
  pending : Finset TimerPtr := ∅
  cancelled : Finset TimerPtr := ∅

namespace Agenda

/-- What a call changes. -/
def next (key : TimerPtr → ℤ) (a : Agenda) : TimerCall → Agenda
  | .add p => { a with seen := insert p a.seen, pending := insert p a.pending }
  | .del p => { a with cancelled := insert p a.cancelled }
  | .tick cur => { a with pending := a.pending.filter (cur < key ·) }

def after (key : TimerPtr → ℤ) : Agenda → List TimerCall → Agenda
  | a, [] => a
  | a, c :: cs => after key (a.next key c) cs

/-- The timers `fired` by a call are those that are pending, due and not
    cancelled, each once and in order. -/
def Fires (key : TimerPtr → ℤ) (a : Agenda) (fired : List TimerPtr) : TimerCall → Prop
  | .tick cur => fired.Nodup ∧ fired.Pairwise (fun p q => key p ≤ key q) ∧
      ∀ p, p ∈ fired ↔ p ∈ a.pending ∧ key p ≤ cur ∧ p ∉ a.cancelled
  | .add _ | .del _ => fired = []

/-- Each of the calls fires what it should. -/
def Follows (key : TimerPtr → ℤ) : Agenda → List TimerCall → List (List TimerPtr) → Prop
  | _, [], fired => fired = []
  | _, _ :: _, [] => False
  | a, c :: cs, now :: later => a.Fires key now c ∧ Follows key (a.next key c) cs later

/-- A timer that is added is a new one, with its callback set in the memory
    `mem`; one that is cancelled is in the heap. -/
def Allows (mem : Timers) (a : Agenda) : TimerCall → Prop
  | .add p => p ∉ a.seen ∧ ∃ t, mem p = some t ∧ t.cbFunc.isSome
  | .del p => p ∈ a.pending
  | .tick _ => True

def Legal (mem : Timers) : Agenda → List TimerCall → Prop
  | _, [] => True
  | a, c :: cs => a.Allows mem c ∧ Legal mem (a.next mem.expire c) cs

/-- The memory and the heap are as the agenda says. -/
structure Agrees {ε : Type} (mem₀ : Timers) (a : Agenda) (s : TimerSystem ε) : Prop where
  sorted : ∃ f, TimeHeap.Sorted mem₀.expire a.pending.val s.heap f
  keeps : TimeHeap.Keeps mem₀.expire a.cancelled a.pending s.mem
  fresh : ∀ p ∉ a.seen, s.mem p = mem₀ p
  pending : a.pending ⊆ a.seen
  cancelled : a.cancelled ⊆ a.seen

namespace Agrees
variable {ε : Type} {mem₀ : Timers} {a : Agenda} {s : TimerSystem ε}

/-- **Every call does what the agenda says**, and fails in no way. -/
theorem step {call : Callbacks ε} (hq : call.Quiet) (h : a.Agrees mem₀ s) {c : TimerCall}
    (hc : a.Allows mem₀ c) :
    ∃ fired t, s.perform call hq c = .ok (fired, t) ∧ a.Fires mem₀.expire fired c ∧
      (a.next mem₀.expire c).Agrees mem₀ t := by
  obtain ⟨f, hs⟩ := h.sorted
  cases c with
  | add p =>
    obtain ⟨hp, t, ht, hcb⟩ := hc
    have hpC : p ∉ a.pending := fun hm => hp (h.pending hm)
    have hmem : s.mem p = some t := (h.fresh p hp).trans ht
    have hsm := hs.congr h.keeps.expire
    obtain ⟨heap, he, g, hg, -⟩ := TimeHeap.addTimer_spec hsm ⟨t, hmem⟩ h.keeps.alive
    have hexp : s.mem.expire p = mem₀.expire p := by simp [Timers.expire, hmem, ht]
    refine ⟨[], { s with heap }, ?_, rfl, ⟨⟨g, ?_⟩, ?_, ?_, ?_, ?_⟩⟩
    · simp only [TimerSystem.perform, he, Except.ok_bind, Except.pure_eq_ok]
    · have hval : (insert p a.pending).val = p ::ₘ a.pending.val :=
        Finset.insert_val_of_notMem hpC
      simp only [next, hval]
      refine hg.congr ?_
      intro q hq
      rcases Multiset.mem_cons.1 hq with rfl | hq
      · exact hexp
      · exact (h.keeps.expire q hq).symm
    · intro q hq
      rcases Finset.mem_insert.1 hq with rfl | hq
      · have hK : q ∉ a.cancelled := fun hm => hp (h.cancelled hm)
        exact ⟨t, hmem, by simp [Timers.expire, ht], iff_of_true hcb hK⟩
      · exact h.keeps q hq
    · intro q hq
      exact h.fresh q fun hm => hq (Finset.mem_insert_of_mem hm)
    · exact Finset.insert_subset_insert p h.pending
    · exact h.cancelled.trans (Finset.subset_insert _ _)
  | del p =>
    obtain ⟨t, ht, hexp, -⟩ := h.keeps p hc
    refine ⟨[], { s with mem := Function.update s.mem p (some { t with cbFunc := none }) }, ?_, rfl,
      ⟨⟨f, hs⟩, ?_, ?_, h.pending, ?_⟩⟩
    · simp only [TimerSystem.perform, TimeHeap.delTimer, deref, ht, Except.ok_bind,
        Except.pure_eq_ok]
    · intro q hq
      by_cases hqp : q = p
      · subst hqp
        exact ⟨{ t with cbFunc := none }, by simp, hexp, by simp [next]⟩
      · obtain ⟨t', ht', he', hcb'⟩ := h.keeps q hq
        refine ⟨t', ?_, he', ?_⟩
        · simp only [Function.update_of_ne hqp, ht']
        · simp only [next, Finset.mem_insert, hqp, false_or, hcb']
    · intro q hq
      have hqp : q ≠ p := by
        rintro rfl
        exact hq (h.pending hc)
      simp only [Function.update_of_ne hqp]
      exact h.fresh q hq
    · intro q hq
      rcases Finset.mem_insert.1 hq with rfl | hq
      · exact h.pending hc
      · exact h.cancelled hq
  | tick cur =>
    obtain ⟨t, ht, hg, hk, hmem, hnd, hord, hfired⟩ := TimeHeap.tick_spec hq hs h.keeps s.env
    refine ⟨t.fired, { env := t.env, mem := t.mem, heap := t.heap }, ?_, ⟨hnd, hord, hfired⟩,
      ⟨hg, hk, ?_, ?_, h.cancelled⟩⟩
    · simp only [TimerSystem.perform, ht, Except.ok_bind, Except.pure_eq_ok]
    · intro q hq
      exact (hmem q fun hm => hq (h.pending hm)).trans (h.fresh q hq)
    · exact (Finset.filter_subset _ _).trans h.pending

/-- The agenda is followed by every run. -/
theorem run {call : Callbacks ε} (hq : call.Quiet) (h : a.Agrees mem₀ s) {cs : List TimerCall}
    (hl : Legal mem₀ a cs) :
    ∃ fired t, s.performAll call hq cs = .ok (fired, t) ∧ Follows mem₀.expire a cs fired ∧
      (a.after mem₀.expire cs).Agrees mem₀ t := by
  induction cs generalizing a s with
  | nil => exact ⟨[], s, rfl, rfl, h⟩
  | cons c cs ih =>
    obtain ⟨now, s', hp, hf, h'⟩ := h.step hq hl.1
    obtain ⟨later, t, hps, hfs, ht⟩ := ih h' hl.2
    refine ⟨now :: later, t, ?_, ⟨hf, hfs⟩, ht⟩
    simp only [TimerSystem.performAll, hp, hps, Except.ok_bind, Except.pure_eq_ok]

end Agrees

/-! ### What an agenda promises -/

section
variable {key : TimerPtr → ℤ} {mem : Timers}

theorem Follows.nodup {a : Agenda} {cs : List TimerCall} {fired : List (List TimerPtr)}
    (h : Follows mem.expire a cs fired) (hl : Legal mem a cs) (hsub : a.pending ⊆ a.seen) :
    fired.flatten.Nodup ∧ ∀ p ∈ fired.flatten, p ∈ a.seen → p ∈ a.pending := by
  induction cs generalizing a fired with
  | nil => cases h; simp
  | cons c cs ih =>
    cases fired with
    | nil => cases h
    | cons now later =>
      obtain ⟨hf, hfs⟩ := h
      cases c with
      | add p =>
        cases hf
        obtain ⟨hnd, hpend⟩ := ih hfs hl.2 (Finset.insert_subset_insert p hsub)
        refine ⟨by simpa using hnd, ?_⟩
        intro q hq hs
        have := hpend q (by simpa using hq) (Finset.mem_insert_of_mem hs)
        rcases Finset.mem_insert.1 this with rfl | hm
        · exact absurd hs hl.1.1
        · exact hm
      | del p =>
        cases hf
        obtain ⟨hnd, hpend⟩ := ih hfs hl.2 hsub
        exact ⟨by simpa using hnd, fun q hq => hpend q (by simpa using hq)⟩
      | tick cur =>
        obtain ⟨hnow, -, hmem⟩ := hf
        obtain ⟨hnd, hpend⟩ := ih hfs hl.2 ((Finset.filter_subset _ _).trans hsub)
        simp only [List.flatten_cons, List.mem_append]
        refine ⟨hnow.append hnd ?_, ?_⟩
        · intro p hp hp'
          obtain ⟨hm, hle, -⟩ := (hmem p).1 hp
          have := hpend p hp' (hsub hm)
          exact absurd hle (not_le.2 (Finset.mem_filter.1 this).2)
        · rintro p (hp | hp) hs
          · exact ((hmem p).1 hp).1
          · exact (Finset.mem_filter.1 (hpend p hp hs)).1

theorem Follows.kept {a : Agenda} {cs : List TimerCall} {fired : List (List TimerPtr)}
    (h : Follows key a cs fired) {p : TimerPtr} (hp : p ∈ a.pending ∨ .add p ∈ cs) :
    p ∈ (a.after key cs).pending ∨ p ∈ fired.flatten ∨ p ∈ a.cancelled ∨ .del p ∈ cs := by
  induction cs generalizing a fired with
  | nil => exact .inl (by simpa [after] using hp)
  | cons c cs ih =>
    cases fired with
    | nil => cases h
    | cons now later =>
      obtain ⟨hf, hfs⟩ := h
      simp only [List.flatten_cons, List.mem_append]
      by_cases hnext : p ∈ (a.next key c).pending ∨ .add p ∈ cs
      · rcases ih hfs hnext with hp | hp | hp | hp
        · exact .inl hp
        · exact .inr (.inl (.inr hp))
        · cases c with
          | add q => exact .inr (.inr (.inl hp))
          | del q =>
            rcases Finset.mem_insert.1 hp with rfl | hp
            · exact .inr (.inr (.inr (by simp)))
            · exact .inr (.inr (.inl hp))
          | tick cur => exact .inr (.inr (.inl hp))
        · exact .inr (.inr (.inr (by simp [hp])))
      -- the timer leaves the heap in this call
      simp only [not_or] at hnext
      cases c with
      | add q =>
        simp only [next, Finset.mem_insert, not_or] at hnext
        rcases hp with hp | hp
        · exact absurd hp hnext.1.2
        · simp [hnext.1.1, hnext.2] at hp
      | del q =>
        rcases hp with hp | hp
        · exact absurd hp hnext.1
        · simp [hnext.2] at hp
      | tick cur =>
        rcases hp with hp | hp
        · by_cases hK : p ∈ a.cancelled
          · exact .inr (.inr (.inl hK))
          · simp only [next, Finset.mem_filter, not_and, not_lt] at hnext
            exact .inr (.inl (.inl ((hf.2.2 p).2 ⟨hp, hnext.1 hp, hK⟩)))
        · simp [hnext.2] at hp

end

end Agenda

/-! ## Whole runs -/

/-- Three timers, which expire at 5, 3 and 9. -/
def threeTimers : Timers := fun p =>
  [5, 3, 9][p]?.map fun expire => { expire, cbFunc := some 1, userData := 0 }

end MyHttpServer
